import HaskellLexis.Kind
import HaskellLexis.LexError
import HaskellLexis.Lexeme.Site

/-!
# Comments

* `startsLineComment`: two dashes or more that no symbol character follows;
* `lineComment`: up to the end of the line, or of the last of the plain line
  comments that documentation takes along;
* `blockComment`: up to the mark that closes it, comments inside included.

Scanners get the text after the first character of the lexeme and say how
much of that text belongs to it.
-/

namespace HaskellLexis

namespace Comment

/-- What a mark at the front of a comment makes of it. -/
def ofMark? : Char → Option Comment
  | '|' => some docNext
  | '^' => some docPrev
  | '$' => some docNamed
  | '*' => some docSection
  | _ => none

/-- The kind of documentation that the text of a comment begins. -/
def documentation? (on : Extensions) (s : List Char) : Option Comment :=
  if on .haddock then (s.dropWhile isInlineBlank).head?.bind ofMark? else none

/-- The same for a line comment, given the text after its first dash: with a
third dash it is never documentation. -/
def lineDocumentation? (on : Extensions) (s : List Char) : Option Comment :=
  match s with
  | _ :: '-' :: _ => none
  | _ :: r => documentation? on r
  | [] => none

def startsLineComment (s : List Char) : Bool :=
  let dashes := runLength (· = '-') s
  2 ≤ dashes && !(s.drop dashes).head?.any isSymbol

def lineLength (s : List Char) : Nat := runLength (· ≠ '\n') s

/-- How much of the text after a line of documentation belongs to it: the
line comments right below, as long as they are plain. -/
def continuationLength (on : Extensions) (s : List Char) : Nat :=
  match s with
  | '\n' :: r =>
    let blanks := runLength isInlineBlank r
    let body := r.drop blanks
    if startsLineComment body && (lineDocumentation? on body.tail).isNone then
      let n := lineLength body
      1 + blanks + n + continuationLength on (body.drop n)
    else 0
  | _ => 0
  termination_by s.length
  decreasing_by simp only [List.length_drop, List.length_cons]; omega

def scanLine (on : Extensions) (r : List Char) : Comment × Nat :=
  let kind := (lineDocumentation? on r).getD line
  let n := lineLength r
  (kind, if kind.continues then n + continuationLength on (r.drop n) else n)

/-- How much text there is up to the mark that closes the comment, with
`depth` more comments open around it. -/
def closeLength? : Nat → List Char → Option Nat
  | _, [] => none
  | depth, '{' :: '-' :: r => (closeLength? (depth + 1) r).map (· + 2)
  | 0, '-' :: '}' :: _ => some 2
  | depth + 1, '-' :: '}' :: r => (closeLength? depth r).map (· + 2)
  | depth, _ :: r => (closeLength? depth r).map (· + 1)

def scanBlock (on : Extensions) (r : List Char) : Except LexCause (Comment × Nat) :=
  match closeLength? 0 r.tail with
  | some n => .ok ((documentation? on r.tail).getD block, n + 1)
  | none => .error .openComment

end Comment

end HaskellLexis
