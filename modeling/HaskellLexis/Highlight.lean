import HaskellLexis.Lexer
import HaskellLexis.Slicing

/-!
# Highlighting

From a text to categorised pieces: lex it, keep the spans of its lexemes with
their categories, and slice it along them. The whole text is lexed before
anything is sliced, so where lexing stops there are no pieces at all.
-/

namespace HaskellLexis

/-- A value and what was logged on the way to it. -/
structure Logged (α : Type) where
  value : α
  notices : List Notice

namespace Logged

def map {α β : Type} (f : α → β) (x : Logged α) : Logged β := ⟨f x.value, x.notices⟩

end Logged

/-- The tokens of a text, with what lexing it logs. -/
def lexLogged (config : Config) (text : List Char) : Logged (Except LexStop (List Token)) :=
  let trace := (Lexer.start config text).trace
  ⟨trace.result.mapError (·.report config), trace.remarks⟩

/-- Lexemes with their categories, without the end of the text and without
virtual braces. -/
def classifiedSpans (tokens : List Token) : List (Category × Span) :=
  (tokens.filterMap Token.lexeme?).filterMap fun l =>
    if l.kind = .endOfText then none else some (l.kind.category, l.span)

def virtualCount (tokens : List Token) : Nat := tokens.countP (·.lexeme?.isNone)

def droppedNotices (tokens : List Token) : List Notice :=
  if virtualCount tokens = 0 then [] else [.droppedVirtual (virtualCount tokens)]

/-- The spans of a text's lexemes. -/
def lexSpans (config : Config) (text : List Char) :
    Logged (Except LexStop (List (Category × Span))) :=
  let r := lexLogged config text
  match r.value with
  | .ok tokens => ⟨.ok (classifiedSpans tokens), r.notices ++ droppedNotices tokens⟩
  | .error e => ⟨.error e, r.notices⟩

/-- What passes through those who catch lexical errors. -/
inductive Uncaught where
  | numeral (e : NumeralError)
  | span (e : SpanError)
  deriving DecidableEq

inductive HighlightError where
  | lexical (e : LexError)
  | uncaught (e : Uncaught)

def HighlightError.ofStop : LexStop → HighlightError
  | .lexical e => lexical e
  | .numeral e => uncaught (.numeral e)

/-- The pieces of a text. -/
def highlightPieces (config : Config) (text : List Char) :
    Logged (Except HighlightError (List Piece)) :=
  (lexSpans config text).map fun
    | .ok spans => (slice text spans).result.mapError (.uncaught <| .span ·)
    | .error e => .error (.ofStop e)

end HaskellLexis
