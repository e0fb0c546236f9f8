import HaskellLexis.Config
import HaskellLexis.Position
import HaskellLexis.Quoted

/-!
# Lexical errors

Why a text cannot be cut into lexemes, and where. A `LexError` is the report:
the bare text, and a message that starts with as much of the location as is
known.

There is one way to stop that is no error of the text: a decimal numeral that
has too many digits to be read. It has no location, and who catches lexical
errors does not catch it.
-/

namespace HaskellLexis

/-- A decimal numeral that is too long to be read, leading zeros included. -/
structure NumeralError where
  digits : Nat
  deriving DecidableEq

namespace NumeralError

/-- As many digits can be read. -/
def maxDigits : Nat := 4300

def message (e : NumeralError) : String :=
  "Exceeds the limit (" ++ toString maxDigits ++ " digits) for integer string conversion: " ++
    "value has " ++ toString e.digits ++
    " digits; use sys.set_int_max_str_digits() to increase the limit"

end NumeralError

inductive LexCause where
  | character (c : Char)
  | openComment
  | openPragma
  | openQuasiQuotation
  | badLiteral
  | literalAtEnd
  | literalCharacter (c : Option Char)
  | literalDigits
  | literalRange
  | numeral (e : NumeralError)
  | stringGap
  deriving DecidableEq

def LexCause.text : LexCause → String
  | character c => "lexical error at character " ++ Quoted.text [c]
  | openComment => "unterminated \x60\x7b-'"
  | openPragma => "unterminated pragma"
  | openQuasiQuotation => "unterminated quasi-quotation"
  | badLiteral => "lexical error in string/character literal"
  | literalAtEnd => "lexical error in string/character literal at end of input"
  | literalCharacter c =>
    "lexical error in string/character literal at character " ++ Quoted.text c.toList
  | literalDigits => "lexical error in string/character literal: missing digits"
  | literalRange => "numeric escape sequence out of range"
  | numeral e => e.message
  | stringGap => "lexical error in string gap"

structure LexError where
  text : String
  line : Option Int
  col : Option Int
  source : Option String
  deriving DecidableEq

namespace LexError

/-- The known parts, each with a colon behind it. A column says nothing
without a line. -/
def location (e : LexError) : String :=
  (match e.source with
    | some name => if name = "" then "" else name ++ ":"
    | none => "") ++
  match e.line with
  | some l =>
    toString l ++ ":" ++
      match e.col with
      | some c => toString c ++ ":"
      | none => ""
  | none => ""

/-- All colons at the end give way to one space. -/
def message (e : LexError) : String :=
  let loc := e.location.toList
  if loc = [] then e.text
  else String.ofList (loc.reverse.dropWhile (· = ':')).reverse ++ " " ++ e.text

/-- The report of a cause found at a position. -/
def ofCause (config : Config) (cause : LexCause) (p : Position) : LexError :=
  ⟨cause.text, some p.line, some p.col, config.source?⟩

end LexError

/-- Why a text gives no tokens. -/
inductive LexStop where
  | lexical (e : LexError)
  | numeral (e : NumeralError)
  deriving DecidableEq

/-- What is reported of a cause found at a position. -/
def LexStop.ofCause (config : Config) (cause : LexCause) (p : Position) : LexStop :=
  match cause with
  | .numeral e => numeral e
  | _ => lexical (.ofCause config cause p)

end HaskellLexis
