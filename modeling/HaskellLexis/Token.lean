import HaskellLexis.Kind
import HaskellLexis.Position
import HaskellLexis.Quoted

/-!
# Tokens

What the lexer delivers: lexemes of the text, each with its span, and braces
that indentation implies, which stand nowhere in the text. The end of the text
is a lexeme of no width.
-/

namespace HaskellLexis

structure Lexeme where
  kind : Kind
  span : Span
  text : List Char
  deriving DecidableEq

inductive Brace where
  | opening
  | closing
  deriving DecidableEq

inductive Token where
  | lexeme (l : Lexeme)
  | virtual (b : Brace)
  deriving DecidableEq

namespace Token

def kind : Token → Kind
  | lexeme l => l.kind
  | virtual .opening => .punctuation .virtualOpen
  | virtual .closing => .punctuation .virtualClose

def span? : Token → Option Span
  | lexeme l => some l.span
  | virtual _ => none

def text : Token → List Char
  | lexeme l => l.text
  | virtual _ => []

def lexeme? : Token → Option Lexeme
  | lexeme l => some l
  | virtual _ => none

def isLocated (t : Token) : Bool := t.span?.isSome

/-- The length of the longest text that a description shows. -/
def shownLength : Nat := 20

/-- A longer text ends in dots, within the same length. -/
def shown (text : List Char) : List Char :=
  if shownLength < text.length then text.take (shownLength - 3) ++ ['.', '.', '.'] else text

/-- A one-line description. -/
def describe (t : Token) : String :=
  let place := match t.span? with
    | some s => s.start.text
    | none => "-"
  "RawToken(" ++ t.kind.label ++ ", " ++ Quoted.text (shown t.text) ++ ", " ++ place ++ ")"

end Token

end HaskellLexis
