import HaskellLexis.Lexeme.Bracket
import HaskellLexis.Lexeme.Comment
import HaskellLexis.Lexeme.Literal
import HaskellLexis.Lexeme.Name
import HaskellLexis.Lexeme.Operator
import HaskellLexis.Lexeme.Pragma

/-!
# One lexeme

`scan` decides by the first characters of a text what lexeme stands there. It
gets the first character and the rest, and answers with the kind and with how
much of the rest belongs to the lexeme; so a lexeme is never empty.
-/

namespace HaskellLexis

namespace Lexeme

/-- A negative literal has its sign right before a digit and nothing attached
from the left. -/
def isNegative (site : Site) (c : Char) (r : List Char) : Bool :=
  c = '-' && r.head?.any isDigit && site.on .negativeLiterals && site.isLoose

def scanNegative (on : Extensions) (r : List Char) : Literal × Nat :=
  match r with
  | [] => (.integer, 0)
  | d :: s =>
    let (kind, n) := Number.scan on d s
    (kind, n + 1)

/-- Lexemes that a brace and a dash open: pragmas and comments. -/
def scanBraceDash (on : Extensions) (r : List Char) : Except LexCause (Kind × Nat) :=
  match r with
  | '-' :: '#' :: s => Pragma.scan on s
  | _ => (Comment.scanBlock on r).map fun (kind, n) => (.comment kind, n)

def scan (site : Site) (c : Char) (r : List Char) : Except LexCause (Kind × Nat) :=
  if c = '{' && r.head? = some '-' then scanBraceDash site.on r
  else if Comment.startsLineComment (c :: r) then
    let (kind, n) := Comment.scanLine site.on r
    .ok (.comment kind, n)
  else if site.inPragma && closePragmaMark.isPrefixOf (c :: r) then .ok (.closePragma, 2)
  else
    match Punctuation.ofChar? c with
    | some p => Bracket.scan site.on c p r
    | none =>
      if c = '"' then Literal.scanString site.on r
      else if c = '\'' then Literal.scanQuote site.on r
      else if isDigit c then
        let (kind, n) := Number.scan site.on c r
        .ok (.literal kind, n)
      else if startsName c then .ok (Name.scan site c r)
      else if isNegative site c r then
        let (kind, n) := scanNegative site.on r
        .ok (.literal kind, n)
      else if isSymbol c then .ok (Operator.scan site c r)
      else if isControl c then .error (.character c)
      else .ok (.unknown, 0)

/-- The word of a pragma that is taken for a comment, if one starts here. -/
def unrecognisedPragma? (on : Extensions) (c : Char) (r : List Char) : Option (List Char) :=
  match c, r with
  | '{', '-' :: '#' :: s =>
    match Pragma.shape on s with
    | .unrecognised w => some w
    | _ => none
  | _, _ => none

end Lexeme

end HaskellLexis
