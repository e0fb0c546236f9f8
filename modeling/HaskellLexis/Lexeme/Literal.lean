import HaskellLexis.Lexeme.Number
import HaskellLexis.LexError

/-!
# String and character literals

Both share the escapes. Strings also take gaps, a backslash and blanks up to
the next backslash, and `\&`, the escape for nothing. A single quote that
starts no character literal quotes a name, where quotation is on.
-/

namespace HaskellLexis

namespace Literal

/-- Longer names first, so that `\SOH` is not read as `\SO`. -/
def controlNames : List (List Char) :=
  ["NUL", "SOH", "STX", "ETX", "EOT", "ENQ", "ACK", "BEL", "DLE", "DC1", "DC2", "DC3", "DC4",
    "NAK", "SYN", "ETB", "CAN", "SUB", "ESC", "DEL", "BS", "HT", "LF", "VT", "FF", "CR", "SO",
    "SI", "EM", "FS", "GS", "RS", "US", "SP"].map String.toList

/-- Escapes of one character, but for `&`. -/
def isShortEscape (c : Char) : Bool :=
  ['a', 'b', 'f', 'n', 'r', 't', 'v', '\\', '"', '\''].contains c

/-- What may follow a caret: capitals and the characters around them. -/
def isCaretEscape (c : Char) : Bool := '@' ≤ c && c ≤ '_'

def maxCodePoint : Nat := 0x10FFFF

def digitValue (c : Char) : Nat :=
  if isDigit c then c.toNat - 0x30
  else if isAsciiLower c then c.toNat - 0x57
  else c.toNat - 0x37

def numeral (base : Nat) (digits : List Char) : Nat :=
  digits.foldl (fun n c => n * base + digitValue c) 0

/-- Only decimal digits can be too many. Those of the other bases are bits. -/
def isTooLong (base : Nat) (digits : List Char) : Bool :=
  base = 10 && NumeralError.maxDigits < digits.length

/-- The length of the digits of a numeric escape. -/
def numericEscape (digit : Char → Bool) (base : Nat) (s : List Char) : Except LexCause Nat :=
  let digits := s.takeWhile digit
  if digits = [] then .error .literalDigits
  else if isTooLong base digits then .error (.numeral ⟨digits.length⟩)
  else if maxCodePoint < numeral base digits then .error .literalRange
  else .ok digits.length

/-- The length of an escape after its backslash. -/
def escapeLength (inString : Bool) (s : List Char) : Except LexCause Nat :=
  match s with
  | [] => .error (.literalCharacter none)
  | c :: r =>
    if isShortEscape c || inString && c = '&' then .ok 1
    else if c = '^' then
      if r.head?.any isCaretEscape then .ok 2 else .error (.literalCharacter (some c))
    else if isDigit c then numericEscape isDigit 10 s
    else if c = 'x' then (numericEscape Number.isHex 16 r).map (· + 1)
    else if c = 'o' then (numericEscape Number.isOctal 8 r).map (· + 1)
    else
      match controlNames.find? (·.isPrefixOf s) with
      | some name => .ok name.length
      | none => .error (.literalCharacter (some c))

/-- The length of a gap after its first backslash. -/
def gapLength (s : List Char) : Except LexCause Nat :=
  let blanks := runLength isBlank s
  if (s.drop blanks).head? = some '\\' then .ok (blanks + 1) else .error .stringGap

/-- The length of what follows a backslash in a string. -/
def backslashLength (s : List Char) : Except LexCause Nat :=
  if s.head?.any isBlank then gapLength s else escapeLength true s

/-- Blanks that end a line, or a page, and control characters have no place in
a string. -/
def isStringBreak (c : Char) : Bool :=
  c = '\n' || c = '\r' || c = '\x0c' || c = '\x0b' || isControl c

/-- The length of the text up to the closing quote, that quote included, once
the next `skip` characters are known to belong to it. -/
def stringLength : Nat → List Char → Except LexCause Nat
  | _, [] => .error .literalAtEnd
  | skip + 1, _ :: r => (stringLength skip r).map (· + 1)
  | 0, c :: r =>
    if c = '"' then .ok 1
    else if c = '\\' then do
      let n ← backslashLength r
      (stringLength n r).map (· + 1)
    else if isStringBreak c then .error (.literalCharacter (some c))
    else (stringLength 0 r).map (· + 1)

def hashed (on : Extensions) (s : List Char) : Bool :=
  on .magicHash && s.head? = some '#'

/-- The text after the opening quote. -/
def scanString (on : Extensions) (r : List Char) : Except LexCause (Kind × Nat) := do
  let n ← stringLength 0 r
  return if hashed on (r.drop n) then (.literal .primString, n + 1) else (.literal .string, n)

/-- The length of the one character, or escape, of a character literal. -/
def charBody (r : List Char) : Except LexCause (Option Nat) :=
  match r with
  | '\\' :: s => (escapeLength false s).map (fun n => some (n + 1))
  | c :: _ => .ok (if c = '\'' || c = '\n' then none else some 1)
  | [] => .ok none

/-- A quoted name, given the text after the quote. -/
def quotedName (on : Extensions) (r : List Char) : Except LexCause (Kind × Nat) :=
  if on .templateHaskell then
    .ok (if r.head? = some '\'' then (.quotation .typeName, 1) else (.quotation .valueName, 0))
  else .error .badLiteral

/-- The text after a single quote. -/
def scanQuote (on : Extensions) (r : List Char) : Except LexCause (Kind × Nat) := do
  match ← charBody r with
  | none => quotedName on r
  | some n =>
    if (r.drop n).head? = some '\'' then
      match r.head?.filter isControl with
      | some c => .error (.literalCharacter (some c))
      | none =>
        if hashed on (r.drop (n + 1)) then .ok (.literal .primChar, n + 2)
        else .ok (.literal .char, n + 1)
    else quotedName on r

end Literal

end HaskellLexis
