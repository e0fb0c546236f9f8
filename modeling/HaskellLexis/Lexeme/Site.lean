import HaskellLexis.Character
import HaskellLexis.Config

/-!
# Where a lexeme starts

All that the scanners look at besides the text from the lexeme on, and the
searches that they share.
-/

namespace HaskellLexis

/-- `on` says which extensions are, and `before` is the character right before
the lexeme, if there is one. -/
structure Site where
  on : Extensions
  inPragma : Bool
  before : Option Char

namespace Site

/-- Nothing is attached to the lexeme from the left. -/
def isLoose (s : Site) : Bool :=
  match s.before with
  | none => true
  | some c => isBlank c || ['(', '[', '{', ',', ';'].contains c

end Site

/-- How many characters at the front of a text have a property. -/
def runLength (p : Char → Bool) (s : List Char) : Nat := (s.takeWhile p).length

theorem take_runLength (p : Char → Bool) (s : List Char) :
    s.take (runLength p s) = s.takeWhile p :=
  (List.prefix_iff_eq_take.1 (List.takeWhile_prefix p)).symm

theorem drop_runLength (p : Char → Bool) (s : List Char) :
    s.drop (runLength p s) = s.dropWhile p := by
  have whole := List.take_append_drop (runLength p s) s
  rw [take_runLength] at whole
  exact List.append_cancel_left (whole.trans List.takeWhile_append_dropWhile.symm)

/-- How many characters stand before the first occurrence of `pat`. -/
def offsetOf? (pat : List Char) : List Char → Option Nat
  | [] => none
  | c :: r => if pat.isPrefixOf (c :: r) then some 0 else (offsetOf? pat r).map (· + 1)

def closePragmaMark : List Char := ['#', '-', '}']

/-- Name characters at the front of a text. -/
def wordLength (s : List Char) : Nat := runLength isNameChar s

end HaskellLexis
