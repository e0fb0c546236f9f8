import HaskellLexis.Position

/-!
# Cursors

A cursor walks over a text towards positions that it is given. It believes to
stand at `here`; `offset` counts the characters it has taken and `rest` holds
the others.

A character is taken when the line reached after it is before the target's
line, or the column reached is not past the target's column, whatever the
line. So a walk that ends right before a line feed takes the line feed too,
and the start of the next line up to the target's column.
-/

namespace HaskellLexis

structure Cursor where
  here : Position
  offset : Nat
  rest : List Char
  deriving DecidableEq

namespace Cursor

def start (text : List Char) : Cursor := ⟨.origin, 0, text⟩

/-- The offset may lie past the end of the text. -/
def ofOffset (text : List Char) (here : Position) (offset : Nat) : Cursor :=
  ⟨here, offset, text.drop offset⟩

/-- Whether a character that leads to `reached` is taken on the way. -/
def allows (target reached : Position) : Bool :=
  reached.line < target.line || reached.col ≤ target.col

/-- How many characters are taken on the way from `here` to the target. -/
def reach (target here : Position) : List Char → Nat
  | [] => 0
  | c :: r => if allows target (here.next c) then reach target (here.next c) r + 1 else 0

/-- The text taken, and the cursor behind it, which believes to have arrived. -/
def advance (c : Cursor) (target : Position) : List Char × Cursor :=
  let n := reach target c.here c.rest
  (c.rest.take n, ⟨target, c.offset + n, c.rest.drop n⟩)

theorem advance_split (c : Cursor) (target : Position) :
    (c.advance target).1 ++ (c.advance target).2.rest = c.rest := by
  simp [advance]

theorem length_advance (c : Cursor) (target : Position) :
    (c.advance target).1.length + (c.advance target).2.rest.length = c.rest.length := by
  rw [← List.length_append, advance_split]

end Cursor

end HaskellLexis
