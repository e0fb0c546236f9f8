import Mathlib.Order.Bounds.Defs
import Mathlib.Order.Monotone.Basic
import HaskellLexis.Position

/-!
# Positions in order

Positions are ordered by line and then by column, and reading on never leads
back:

* `isLeast_next_tab`: a tab leads to the first stop past its column;
* `lt_next`, `lt_after`: every character leads to a later position;
* `next_mono`: who is behind stays behind, reading the same character;
* `upTo`: the position at each offset of a text;
* `positions_ascend`: positions are ordered as the offsets are, wherever the
  text begins.
-/

namespace HaskellLexis

namespace Position

instance : LinearOrder Position where
  le_refl p := by
    rw [le_def, lt_def]
    omega
  le_trans p q r := by
    simp only [le_def, lt_def]
    omega
  lt_iff_le_not_ge p q := by
    simp only [le_def, lt_def]
    omega
  le_antisymm p q := by
    cases p
    cases q
    simp only [le_def, lt_def, mk.injEq]
    omega
  le_total p q := by
    simp only [le_def, lt_def]
    omega
  toDecidableLE := inferInstance

theorem le_iff {p q : Position} :
    p ≤ q ↔ p.line < q.line ∨ p.line = q.line ∧ p.col ≤ q.col := by
  simp only [le_def, lt_def]
  omega

theorem next_feed (p : Position) : p.next '\n' = ⟨p.line + 1, 1⟩ := rfl

theorem next_line {c : Char} (h : c ≠ '\n') (p : Position) : (p.next c).line = p.line := by
  simp only [next, h, ↓reduceIte]
  split <;> rfl

/-- A tab leads to the first stop past its column, at and below column 0 too.
The floored remainder is opened here only. -/
theorem isLeast_next_tab (p : Position) :
    IsLeast {stop | p.col < stop ∧ tabWidth ∣ stop - 1} (p.next '\t').col := by
  have floored : (p.col - 1).fmod tabWidth = (p.col - 1) % 8 :=
    Int.fmod_eq_emod_of_nonneg _ (by decide)
  have reached : (p.next '\t').col = p.col + 8 - (p.col - 1) % 8 :=
    congrArg (p.col + 8 - ·) floored
  have width : tabWidth = 8 := rfl
  rw [reached, width]
  refine ⟨⟨by omega, by omega⟩, ?_⟩
  rintro stop ⟨past, aligned⟩
  omega

theorem next_col {c : Char} (feed : c ≠ '\n') (tab : c ≠ '\t') (p : Position) :
    (p.next c).col = p.col + 1 := by
  rw [next, if_neg feed, if_neg tab]

theorem col_lt_next {c : Char} (h : c ≠ '\n') (p : Position) : p.col < (p.next c).col := by
  by_cases tab : c = '\t'
  · subst tab
    exact p.isLeast_next_tab.1.1
  · rw [next_col h tab]
    exact Int.lt_succ p.col

/-- Tab stops are the same for everyone: who stands before the stop that
another goes to goes no further. -/
theorem next_col_le {c : Char} (h : c ≠ '\n') {p q : Position} (hc : p.col < (q.next c).col) :
    (p.next c).col ≤ (q.next c).col := by
  by_cases tab : c = '\t'
  · subst tab
    exact p.isLeast_next_tab.2 ⟨hc, q.isLeast_next_tab.1.2⟩
  · rw [next_col h tab] at hc ⊢
    rw [next_col h tab]
    exact hc

theorem next_col_mono {c : Char} (h : c ≠ '\n') {p q : Position} (hc : p.col ≤ q.col) :
    (p.next c).col ≤ (q.next c).col :=
  next_col_le h (Int.lt_of_le_of_lt hc (col_lt_next h q))

theorem lt_next (p : Position) (c : Char) : p < p.next c := by
  rw [lt_def]
  by_cases h : c = '\n'
  · subst h
    exact .inl (Int.lt_succ p.line)
  · exact .inr ⟨(next_line h p).symm, col_lt_next h p⟩

theorem line_le_next (p : Position) (c : Char) : p.line ≤ (p.next c).line := by
  have := lt_next p c
  rw [lt_def] at this
  omega

theorem next_mono {p q : Position} (h : p ≤ q) (c : Char) : p.next c ≤ q.next c := by
  rw [le_iff] at h
  by_cases hf : c = '\n'
  · subst hf
    simp only [next_feed, le_iff]
    omega
  · rw [le_iff, next_line hf, next_line hf]
    obtain hl | ⟨hl, hc⟩ := h
    · exact .inl hl
    · exact .inr ⟨hl, next_col_mono hf hc⟩

theorem le_after (p : Position) (cs : List Char) : p ≤ p.after cs := by
  induction cs generalizing p with
  | nil => exact le_refl p
  | cons c cs ih => exact le_trans (le_of_lt (p.lt_next c)) (ih _)

theorem lt_after {cs : List Char} (h : cs ≠ []) (p : Position) : p < p.after cs := by
  obtain ⟨c, r, rfl⟩ := List.exists_cons_of_ne_nil h
  exact lt_of_lt_of_le (p.lt_next c) (le_after _ r)

theorem line_le_of_mem_trail {p q : Position} {cs : List Char} (h : q ∈ p.trail cs) :
    p.line ≤ q.line := by
  induction cs generalizing p with
  | nil => cases h
  | cons c cs ih =>
    have step := p.line_le_next c
    obtain rfl | later := List.mem_cons.1 h
    · exact step
    · exact Int.le_trans step (ih later)

/-- Lines and columns count from one. -/
def Counted (p : Position) : Prop := 1 ≤ p.line ∧ 1 ≤ p.col

theorem counted_next {p : Position} (h : p.Counted) (c : Char) : (p.next c).Counted := by
  obtain ⟨hl, hc⟩ := h
  by_cases hf : c = '\n'
  · subst hf
    exact ⟨by rw [next_feed]; dsimp only; omega, Int.le_refl 1⟩
  · have := col_lt_next hf p
    exact ⟨by rw [next_line hf]; exact hl, by omega⟩

theorem counted_after {p : Position} (h : p.Counted) (cs : List Char) : (p.after cs).Counted := by
  induction cs generalizing p with
  | nil => exact h
  | cons c cs ih => exact ih (counted_next h c)

theorem after_take_add (p : Position) (text : List Char) (i n : Nat) :
    p.after (text.take (i + n)) = (p.after (text.take i)).after ((text.drop i).take n) := by
  rw [← after_append, ← List.take_add]

theorem after_take_lt (p : Position) {text : List Char} {i j : Nat} (h : i < j)
    (inside : j ≤ text.length) : p.after (text.take i) < p.after (text.take j) := by
  obtain ⟨n, rfl⟩ := Nat.exists_eq_add_of_le (Nat.le_of_lt h)
  rw [after_take_add]
  apply lt_after
  intro none
  have length := congrArg List.length none
  rw [List.length_take, List.length_drop, List.length_nil] at length
  omega

/-- The position behind the first `i` characters of a text. -/
def upTo (text : List Char) (i : Nat) : Position := origin.after (text.take i)

theorem upTo_of_append {text xs ys : List Char} (h : text = xs ++ ys) {i : Nat}
    (hi : i = xs.length) : upTo text i = origin.after xs := by
  rw [upTo, h, hi, List.take_left]

theorem upTo_add (text : List Char) (i n : Nat) :
    upTo text (i + n) = (upTo text i).after ((text.drop i).take n) :=
  origin.after_take_add text i n

theorem upTo_mono (text : List Char) {i j : Nat} (h : i ≤ j) :
    upTo text i ≤ upTo text j := by
  obtain ⟨n, rfl⟩ := Nat.exists_eq_add_of_le h
  rw [upTo_add]
  exact le_after _ _

end Position

/-- **Positions determine offsets.** Wherever a text begins, also at a line or
column below one, the positions at its offsets ascend, so that no two offsets
share one. Within a line every character leads to a greater column, and from
further on to one no smaller. -/
theorem positions_ascend (start : Position) (text : List Char) :
    (∀ i ≤ text.length, ∀ j ≤ text.length,
      (start.after (text.take i) < start.after (text.take j) ↔ i < j) ∧
        (start.after (text.take i) = start.after (text.take j) ↔ i = j)) ∧
      ∀ (p q : Position) (c : Char), c ≠ '\n' → p.col ≤ q.col →
        p.col < (p.next c).col ∧ q.col < (q.next c).col ∧ (p.next c).col ≤ (q.next c).col := by
  have ascends : StrictMonoOn (fun i => start.after (text.take i)) {i | i ≤ text.length} := by
    intro i _ j inside before
    exact start.after_take_lt before inside
  constructor
  · intro i hi j hj
    exact ⟨ascends.lt_iff_lt hi hj, ascends.eq_iff_eq hi hj⟩
  · intro p q c noFeed behind
    exact ⟨Position.col_lt_next noFeed p, Position.col_lt_next noFeed q,
      Position.next_col_mono noFeed behind⟩

/-- From column -9 the tab leads to column -7, from one column further on too;
behind the line feed it leads from column 1 to column 9. -/
theorem positions_ascend_tabs :
    let start : Position := ⟨0, -9⟩
    let text := ['a', '\t', '\n', '\t', 'b']
    (2 ≤ text.length ∧ 4 ≤ text.length ∧ '\t' ≠ '\n' ∧ (-9 : Int) ≤ -8) ∧
      start.after (text.take 2) = ⟨0, -7⟩ ∧ start.after (text.take 4) = ⟨1, 9⟩ ∧
      start.after (text.take 2) < start.after (text.take 4) ∧
      start.col < (start.next '\t').col ∧
      (start.next '\t').col ≤ (Position.next ⟨3, -8⟩ '\t').col := by
  intro start text
  have two : 2 ≤ text.length := by decide
  have four : 4 ≤ text.length := by decide
  obtain ⟨ascend, columns⟩ := positions_ascend start text
  obtain ⟨past, -, overtakes⟩ := columns start ⟨3, -8⟩ '\t' (by decide) (by decide)
  exact ⟨⟨two, four, by decide, by decide⟩, by decide, by decide,
    (ascend 2 two 4 four).1.2 (by decide), past, overtakes⟩

end HaskellLexis
