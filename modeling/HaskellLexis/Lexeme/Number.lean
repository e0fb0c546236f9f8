import HaskellLexis.Kind
import HaskellLexis.Lexeme.Site

/-!
# Numeric literals

Integers in four radices and decimal fractions, with underscores between
digits where they are allowed, and up to two hashes that make them primitive.
-/

namespace HaskellLexis

namespace Number

def isBinary (c : Char) : Bool := c = '0' || c = '1'

def isOctal (c : Char) : Bool := '0' ≤ c && c ≤ '7'

def isHex (c : Char) : Bool := isDigit c || 'a' ≤ c && c ≤ 'f' || 'A' ≤ c && c ≤ 'F'

/-- How much text goes on a run of digits. Underscores count only when a digit
follows them. -/
def moreDigits (digit : Char → Bool) (underscores : Bool) : List Char → Nat
  | [] => 0
  | c :: r =>
    if digit c then moreDigits digit underscores r + 1
    else if underscores && c = '_' then
      match moreDigits digit underscores r with
      | 0 => 0
      | n + 1 => n + 2
    else 0

/-- A run has to start with a digit. -/
def digitRun (digit : Char → Bool) (underscores : Bool) : List Char → Nat
  | [] => 0
  | c :: r => if digit c then moreDigits digit underscores r + 1 else 0

/-- The digits that a radix letter announces, if the letter is known. -/
def radix? (on : Extensions) (c : Char) : Option (Char → Bool) :=
  if c = 'x' || c = 'X' then some isHex
  else if c = 'o' || c = 'O' then some isOctal
  else if (c = 'b' || c = 'B') && on .binaryLiterals then some isBinary
  else none

/-- A point counts only with a digit behind it, so that `1..2` is a range. -/
def fractionLength (underscores : Bool) : List Char → Nat
  | '.' :: r =>
    match digitRun isDigit underscores r with
    | 0 => 0
    | n + 1 => n + 2
  | _ => 0

def isSign (c : Char) : Bool := c = '+' || c = '-'

/-- An exponent needs digits, after a sign or not. -/
def exponentLength (underscores : Bool) : List Char → Nat
  | e :: r =>
    if e = 'e' || e = 'E' then
      let signs := (r.take 1).countP isSign
      match digitRun isDigit underscores (r.drop signs) with
      | 0 => 0
      | n + 1 => n + 2 + signs
    else 0
  | [] => 0

/-- One hash or two make a literal primitive. -/
def hashCount (on : Extensions) (s : List Char) : Nat :=
  if on .magicHash then runLength (· = '#') (s.take 2) else 0

def kind (rational : Bool) (hashes : Nat) : Literal :=
  match rational, hashes with
  | false, 0 => .integer
  | false, 1 => .primInt
  | false, _ => .primWord
  | true, 0 => .rational
  | true, 1 => .primFloat
  | true, _ => .primDouble

/-- The length of the body of a literal after its first digit `c`, and whether
it has a fraction or an exponent. -/
def body (on : Extensions) (c : Char) (r : List Char) : Bool × Nat :=
  let underscores := on .numericUnderscores
  let radixRun :=
    match r with
    | x :: s =>
      if c = '0' then
        match radix? on x with
        | some digit => digitRun digit underscores s
        | none => 0
      else 0
    | [] => 0
  if radixRun ≠ 0 then (false, 1 + radixRun)
  else
    let n := moreDigits isDigit underscores r
    let fraction := fractionLength underscores (r.drop n)
    let exponent := exponentLength underscores (r.drop (n + fraction))
    (fraction ≠ 0 || exponent ≠ 0, n + fraction + exponent)

/-- A literal that starts with the digit `c`. -/
def scan (on : Extensions) (c : Char) (r : List Char) : Literal × Nat :=
  let (rational, n) := body on c r
  let hashes := hashCount on (r.drop n)
  (kind rational hashes, n + hashes)

end Number

end HaskellLexis
