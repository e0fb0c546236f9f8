import HaskellLexis.Proofs.Walk

/-!
# Where a walk ends

After a walk the cursor believes to have arrived, wherever the walk has stopped:
short of the target, at the end of the text, or lines behind it. It never goes on
from there to the same target.

* `advance_ofOffset`: a cursor at an offset of a text is left at one;
* `advance_settles`: what a walk takes, what it leaves, and where.
-/

namespace HaskellLexis

namespace Cursor

theorem advance_ofOffset (text : List Char) (here target : Position) (offset : Nat) :
    ((ofOffset text here offset).advance target).2 =
      ofOffset text target
        (offset + ((ofOffset text here offset).advance target).1.length) := by
  have taken := reach_le target here (text.drop offset)
  simp only [advance, ofOffset, List.length_take, Nat.min_eq_left taken, List.drop_drop]

end Cursor

/-- **Walks settle at once.** Wherever a cursor believes to be and however far
it has come, even past the end of the text, a walk cuts what is left of the text
in two. It takes the longest part whose characters all lead to a line before the
target or to a column not past it, the cursor is left at the target, and a second
walk to the same target takes nothing. -/
theorem advance_settles (text : List Char) (here target : Position) (offset : Nat) :
    let cursor := Cursor.ofOffset text here offset
    let chunk := (cursor.advance target).1
    let moved := (cursor.advance target).2
    cursor.rest = chunk ++ moved.rest ∧
      moved = .ofOffset text target (offset + chunk.length) ∧
      (∀ xs, xs <+: chunk ↔
        xs <+: cursor.rest ∧ ∀ p ∈ here.trail xs, p.line < target.line ∨ p.col ≤ target.col) ∧
      moved.advance target = ([], moved) := by
  intro cursor chunk moved
  refine ⟨(cursor.advance_split target).symm, Cursor.advance_ofOffset text here target offset, ?_,
    cursor.advance_stays target⟩
  intro xs
  have taken : xs <+: chunk ↔
      xs <+: cursor.rest ∧ ∀ p ∈ here.trail xs, Cursor.allows target p = true :=
    Cursor.prefix_taken_iff
  simpa only [Cursor.allows, Bool.or_eq_true, decide_eq_true_eq] using taken

/-- From column -5 the first tab leads to column 1, the second to column 9; the
line feed is taken from any column. -/
example :
    ((Cursor.ofOffset ['x', '\t', '\n', '\t', 'y'] ⟨1, -5⟩ 1).advance ⟨1, 1⟩) =
      (['\t', '\n'], .ofOffset ['x', '\t', '\n', '\t', 'y'] ⟨1, 1⟩ 3) := by
  decide

end HaskellLexis
