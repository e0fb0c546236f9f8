import HaskellLexis.Proofs.Order
import HaskellLexis.Slicing

/-!
# Walks over a text

What a cursor takes when it is sent to a position of the text:

* `prefix_taken_iff`: what a walk takes, by the positions that it reaches;
* `le_reach`: a cursor that lags behind takes at least what leads to the target;
* `advance_stays`: a second walk to the same target takes nothing, so that there
  is at most one gap before a span (`gaps_of_ne_nil`);
* `Lags`: the cursor believes to be no further than it is. This is all that
  survives once a walk has gone over the end of a line.
-/

namespace HaskellLexis

open Position (upTo)

namespace Cursor

theorem allows_of_le {target reached : Position} (h : reached ≤ target) :
    allows target reached = true := by
  rw [Position.le_iff] at h
  simp only [allows, Bool.or_eq_true, decide_eq_true_eq]
  omega

/-- From the target itself only a line feed leads to where a walk may go, and
then it does so from everywhere. -/
theorem allows_of_allows_next {target : Position} {c : Char}
    (h : allows target (target.next c) = true) (p : Position) :
    allows target (p.next c) = true := by
  simp only [allows, Bool.or_eq_true, decide_eq_true_eq] at h ⊢
  by_cases hf : c = '\n'
  · subst hf
    simp only [Position.next_feed] at h ⊢
    omega
  · have line := Position.next_line hf target
    have col := Position.col_lt_next hf target
    omega

theorem reach_le (target here : Position) (cs : List Char) : reach target here cs ≤ cs.length := by
  induction cs generalizing here with
  | nil => exact Nat.le_refl 0
  | cons c cs ih =>
    simp only [reach, List.length_cons]
    split
    · exact Nat.succ_le_succ (ih _)
    · exact Nat.zero_le _

/-- A walk goes on for as long as each position reached is one that it may
reach, and no further. -/
theorem prefix_taken_iff {target here : Position} {cs xs : List Char} :
    xs <+: cs.take (reach target here cs) ↔
      xs <+: cs ∧ ∀ p ∈ here.trail xs, allows target p = true := by
  induction cs generalizing here xs with
  | nil =>
    rw [List.take_nil, List.prefix_nil]
    constructor
    · rintro rfl
      exact ⟨rfl, List.forall_mem_nil _⟩
    · exact And.left
  | cons c cs ih =>
    cases xs with
    | nil => exact iff_of_true List.nil_prefix ⟨List.nil_prefix, List.forall_mem_nil _⟩
    | cons x xs =>
      rw [Position.trail, List.forall_mem_cons, List.cons_prefix_cons, reach]
      split
      case isTrue allowed =>
        rw [List.take_succ_cons, List.cons_prefix_cons, ih]
        constructor
        · rintro ⟨rfl, taken, others⟩
          exact ⟨⟨rfl, taken⟩, allowed, others⟩
        · rintro ⟨⟨rfl, taken⟩, -, others⟩
          exact ⟨rfl, taken, others⟩
      case isFalse stuck =>
        rw [List.take_zero, List.prefix_nil]
        refine iff_of_false (List.cons_ne_nil x xs) ?_
        rintro ⟨⟨rfl, -⟩, allowed, -⟩
        exact stuck allowed

theorem le_reach {target here actual : Position} (behind : here ≤ actual)
    {taken : List Char} (h : actual.after taken ≤ target) (rest : List Char) :
    taken.length ≤ reach target here (taken ++ rest) := by
  induction taken generalizing here actual with
  | nil => exact Nat.zero_le _
  | cons c cs ih =>
    have step := Position.next_mono behind c
    have early : here.next c ≤ target := le_trans step (le_trans (Position.le_after _ cs) h)
    simp only [List.cons_append, reach, allows_of_le early, ↓reduceIte, List.length_cons]
    exact Nat.succ_le_succ (ih step h)

theorem reach_append {target here : Position} {taken : List Char}
    (h : here.after taken ≤ target) (rest : List Char) :
    reach target here (taken ++ rest) =
      taken.length + reach target (here.after taken) rest := by
  induction taken generalizing here with
  | nil => simp [Position.after_nil]
  | cons c cs ih =>
    have early : here.next c ≤ target := le_trans (Position.le_after _ cs) h
    simp only [List.cons_append, reach, allows_of_le early, ↓reduceIte, List.length_cons]
    rw [ih h, Position.after_cons]
    omega

theorem reach_again (target here : Position) (cs : List Char) :
    reach target target (cs.drop (reach target here cs)) = 0 := by
  induction cs generalizing here with
  | nil => rfl
  | cons c cs ih =>
    cases h : allows target (here.next c) with
    | true => simpa [reach, h] using ih (here.next c)
    | false =>
      cases h' : allows target (target.next c) with
      | true => simp [allows_of_allows_next h' here] at h
      | false => simp [reach, h, h']

/-- Once it has gone to a target, a cursor takes nothing more on the way there. -/
theorem advance_stays (c : Cursor) (target : Position) :
    (c.advance target).2.advance target = ([], (c.advance target).2) := by
  simp only [advance, reach_again, List.take_zero, List.drop_zero, Nat.add_zero]

/-- Only a line feed is taken by a cursor that has arrived. -/
theorem reach_self {p : Position} {c : Char} (h : c ≠ '\n') (r : List Char) :
    reach p p (c :: r) = 0 := by
  have line := Position.next_line h p
  have col := Position.col_lt_next h p
  have stuck : allows p (p.next c) = false := by
    simp only [allows, Bool.or_eq_false_iff, decide_eq_false_iff_not]
    omega
  simp [reach, stuck]

/-- The cursor walks over `text` and believes to be no further than it is. -/
structure Lags (text : List Char) (c : Cursor) : Prop where
  rest : c.rest = text.drop c.offset
  inside : c.offset ≤ text.length
  here : c.here ≤ upTo text c.offset

theorem lags_start (text : List Char) : (start text).Lags text :=
  ⟨rfl, Nat.zero_le _, le_refl _⟩

variable {text : List Char} {c : Cursor} {j : Nat}

theorem le_offset_advance (h : c.Lags text) (hj : j ≤ text.length) :
    j ≤ (c.advance (upTo text j)).2.offset := by
  change j ≤ c.offset + reach (upTo text j) c.here c.rest
  by_cases ahead : j ≤ c.offset
  · omega
  · have split : c.rest = (text.drop c.offset).take (j - c.offset) ++ text.drop j := by
      have := List.take_append_drop (j - c.offset) (text.drop c.offset)
      rw [List.drop_drop, Nat.add_sub_cancel' (by omega)] at this
      rw [h.rest, this]
    have arrives : (upTo text c.offset).after ((text.drop c.offset).take (j - c.offset)) =
        upTo text j := by
      rw [← Position.upTo_add, Nat.add_sub_cancel' (by omega)]
    have taken := le_reach h.here (le_of_eq arrives) (text.drop j)
    rw [← split, List.length_take, List.length_drop] at taken
    omega

/-- A walk to a position of the text may overshoot it, but keeps the cursor
from believing so. -/
theorem lags_advance (h : c.Lags text) (hj : j ≤ text.length) :
    (c.advance (upTo text j)).2.Lags text where
  rest := by simp only [advance, h.rest, List.drop_drop]
  inside := by
    have := reach_le (upTo text j) c.here c.rest
    have inside := h.inside
    rw [h.rest, List.length_drop, ← h.rest] at this
    change c.offset + reach (upTo text j) c.here c.rest ≤ text.length
    omega
  here := Position.upTo_mono text (le_offset_advance h hj)

/-- What a lagging cursor has taken when it lags behind still further on. -/
theorem Lags.offset_of_split {c' : Cursor} (h : c.Lags text) (h' : c'.Lags text)
    {chunk : List Char} (split : chunk ++ c'.rest = c.rest) :
    c'.offset = c.offset + chunk.length := by
  have lengths := congrArg List.length split
  rw [List.length_append, h.rest, h'.rest, List.length_drop, List.length_drop] at lengths
  have inside := h.inside
  have inside' := h'.inside
  omega

end Cursor

namespace Slicer

open Cursor

theorem gaps_of_nil {c : Cursor} {target : Position} (h : (c.advance target).1 = []) :
    gaps c target = ([], c) := by
  rw [gaps]
  simp [h]

theorem gaps_of_ne_nil {c : Cursor} {target : Position} (h : (c.advance target).1 ≠ []) :
    gaps c target = ([c.advance target], (c.advance target).2) := by
  have again := congrArg Prod.fst (c.advance_stays target)
  rw [gaps]
  simp [h, gaps_of_nil again]

theorem gaps_lags {text : List Char} {c : Cursor} {j : Nat} (h : c.Lags text)
    (hj : j ≤ text.length) :
    (gaps c (upTo text j)).2.Lags text ∧ j ≤ (gaps c (upTo text j)).2.offset := by
  have reached := le_offset_advance h hj
  by_cases hn : (c.advance (upTo text j)).1 = []
  · have whole := c.length_advance (upTo text j)
    have inside := h.inside
    rw [gaps_of_nil hn]
    rw [hn, (lags_advance h hj).rest, h.rest] at whole
    simp only [List.length_nil, List.length_drop] at whole
    have inside' := (lags_advance h hj).inside
    exact ⟨h, by dsimp only; omega⟩
  · rw [gaps_of_ne_nil hn]
    exact ⟨lags_advance h hj, reached⟩

theorem gaps_split (c : Cursor) (target : Position) :
    (gaps c target).1.flatMap Prod.fst ++ (gaps c target).2.rest = c.rest := by
  by_cases h : (c.advance target).1 = []
  · rw [gaps_of_nil h]
    rfl
  · rw [gaps_of_ne_nil h]
    simpa using c.advance_split target

end Slicer

namespace Cursor

/-- The pieces of one span, and the cursor behind them. -/
def cut (c : Cursor) (category : Category) (s : Span) : List Piece × Cursor :=
  ((Slicer.gaps c s.start).1.map (fun g => ⟨.space, g.1⟩) ++
      [⟨category, ((Slicer.gaps c s.start).2.advance s.stop).1⟩],
    ((Slicer.gaps c s.start).2.advance s.stop).2)

/-- The pieces of spans that all pass. They depend on the cursor alone. -/
def cutAll (c : Cursor) : List (Category × Span) → List Piece
  | [] => []
  | (category, s) :: todo => (c.cut category s).1 ++ (c.cut category s).2.cutAll todo

theorem cut_split (c : Cursor) (category : Category) (s : Span) :
    (c.cut category s).1.flatMap Piece.text ++ (c.cut category s).2.rest = c.rest := by
  rw [cut, List.flatMap_append, List.flatMap_map, List.flatMap_singleton, List.append_assoc,
    advance_split]
  exact Slicer.gaps_split c s.start

/-- The walks to both ends of a span of the text keep the cursor behind itself
and take the text up to the end of the span. -/
theorem lags_cut {text : List Char} {c : Cursor} (lags : c.Lags text) {i j : Nat} {s : Span}
    (hi : i ≤ text.length) (hj : j ≤ text.length) (start : s.start = upTo text i)
    (stop : s.stop = upTo text j) (category : Category) :
    (c.cut category s).2.Lags text ∧ j ≤ (c.cut category s).2.offset := by
  have gap := (Slicer.gaps_lags lags hi).1
  rw [cut, stop, start]
  exact ⟨lags_advance gap hj, le_offset_advance gap hj⟩

end Cursor

namespace Slicer

theorem cut_of_piecesOf (x : Slicer) (category : Category) (s : Span) :
    (x.piecesOf category s).1.map Prod.fst = (x.cursor.cut category s).1 ∧
      (x.piecesOf category s).2.cursor = (x.cursor.cut category s).2 := by
  rw [piecesOf, List.map_append, List.map_map]
  exact ⟨rfl, rfl⟩

end Slicer

end HaskellLexis
