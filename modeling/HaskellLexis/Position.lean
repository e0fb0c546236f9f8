/-!
# Positions in a text

Columns are display columns: a tab goes on to the next stop, every other
character takes one column, and a line feed starts the next line at column 1.

* `Position.next`, `Position.after`: where one character, or a text, leads;
* `Position` is ordered by line first, then by column;
* `Span`: the region between two positions, its end just past the last character.
-/

namespace HaskellLexis

structure Position where
  line : Int
  col : Int
  deriving DecidableEq

namespace Position

/-- Where a text begins. -/
def origin : Position := ⟨1, 1⟩

/-- Distance between two tab stops. -/
def tabWidth : Int := 8

/-- The remainder is floored, so that the stops stay eight columns apart also
at and below column 0. -/
def next (p : Position) (c : Char) : Position :=
  if c = '\n' then ⟨p.line + 1, 1⟩
  else if c = '\t' then ⟨p.line, p.col + tabWidth - (p.col - 1).fmod tabWidth⟩
  else ⟨p.line, p.col + 1⟩

def after (p : Position) (cs : List Char) : Position := cs.foldl next p

/-- The positions after each character of a text, in order. -/
def trail (p : Position) : List Char → List Position
  | [] => []
  | c :: cs => p.next c :: trail (p.next c) cs

theorem after_nil (p : Position) : p.after [] = p := rfl

theorem after_cons (p : Position) (c : Char) (cs : List Char) :
    p.after (c :: cs) = (p.next c).after cs := rfl

theorem after_append (p : Position) (xs ys : List Char) :
    p.after (xs ++ ys) = (p.after xs).after ys := by
  simp [after]

instance : LT Position where
  lt p q := p.line < q.line ∨ p.line = q.line ∧ p.col < q.col

instance (p q : Position) : Decidable (p < q) :=
  inferInstanceAs (Decidable (p.line < q.line ∨ p.line = q.line ∧ p.col < q.col))

instance : LE Position where
  le p q := ¬ q < p

instance (p q : Position) : Decidable (p ≤ q) :=
  inferInstanceAs (Decidable (¬ q < p))

theorem lt_def {p q : Position} :
    p < q ↔ p.line < q.line ∨ p.line = q.line ∧ p.col < q.col := Iff.rfl

theorem le_def {p q : Position} : p ≤ q ↔ ¬ q < p := Iff.rfl

/-- Equal positions keep their order. -/
def sort (ps : List Position) : List Position := ps.mergeSort (fun p q => decide (p ≤ q))

def text (p : Position) : String := toString p.line ++ ":" ++ toString p.col

end Position

/-- `stop` is the position just past the last character. -/
structure Span where
  start : Position
  stop : Position
  deriving DecidableEq

namespace Span

def ofCoordinates (startLine startCol stopLine stopCol : Int) : Span :=
  ⟨⟨startLine, startCol⟩, ⟨stopLine, stopCol⟩⟩

def isEmpty (s : Span) : Bool := s.start = s.stop

def text (s : Span) : String := s.start.text ++ "-" ++ s.stop.text

end Span

end HaskellLexis
