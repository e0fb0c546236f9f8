import HaskellLexis.Proofs.Shares

/-!
# Pieces reach the ends of their spans

Spans need not lie on the characters of the text. One that ends in the middle of
a tab leaves the cursor before the tab, believing to stand inside it; one that
ends past a line takes part of the next lines. In between the cursor may be
ahead of itself, but never by a whole character.

* `Trails`: behind its next character the cursor believes to be no further than
  it is;
* `trails_advance`: a walk to any position from column 1 on keeps that;
* `slice_reaches`: the pieces up to a span hold all that ends before it does.
-/

namespace HaskellLexis

open Position (upTo)

namespace Cursor

variable {target here actual : Position} {text : List Char} {c : Cursor}

/-- A walk stops before a tab or before a character of one column. From the
target, which lies no further than what stops it, the character leads no
further either. -/
theorem next_le_of_stuck {d : Char} (column : 1 ≤ target.col)
    (stuck : allows target (here.next d) = false) : target.next d ≤ here.next d := by
  have noFeed : d ≠ '\n' := by
    rintro rfl
    have taken : allows target (here.next '\n') = true := by
      simp [allows, Position.next_feed, column]
    rw [taken] at stuck
    cases stuck
  simp only [allows, Bool.or_eq_false_iff, decide_eq_false_iff_not,
    Position.next_line noFeed] at stuck
  have between := Position.next_col_le noFeed (p := target) (q := here) (by omega)
  rw [Position.le_iff, Position.next_line noFeed, Position.next_line noFeed]
  omega

/-- Where a walk stops, the target is no further behind the next character than
the walk is, if it set out like that. -/
theorem next_le_of_reach (column : 1 ≤ target.col) {cs : List Char}
    (near : ∀ d r, cs = d :: r → here.next d ≤ actual.next d) :
    ∀ d r, cs.drop (reach target here cs) = d :: r →
      target.next d ≤ (actual.after (cs.take (reach target here cs))).next d := by
  induction cs generalizing here actual with
  | nil => exact nofun
  | cons d cs ih =>
    have step := near d cs rfl
    intro e r stop
    rw [reach] at stop ⊢
    split at stop
    case isTrue allowed =>
      rw [if_pos allowed]
      exact ih (fun f _ _ => Position.next_mono step f) e r stop
    case isFalse stuck =>
      rw [if_neg stuck]
      cases stop
      exact le_trans (next_le_of_stuck column (by simpa using stuck)) step

/-- The cursor walks over `text`, and behind its next character it believes to
be no further than it is. -/
structure Trails (text : List Char) (c : Cursor) : Prop where
  rest : c.rest = text.drop c.offset
  inside : c.offset ≤ text.length
  next : ∀ d r, c.rest = d :: r → c.here.next d ≤ (upTo text c.offset).next d

theorem trails_start (text : List Char) : (start text).Trails text :=
  ⟨rfl, Nat.zero_le _, fun _ _ _ => le_refl _⟩

theorem trails_advance (h : c.Trails text) (column : 1 ≤ target.col) :
    (c.advance target).2.Trails text where
  rest := by simp only [advance, h.rest, List.drop_drop]
  inside := by
    have taken := reach_le target c.here c.rest
    have inside := h.inside
    rw [h.rest, List.length_drop, ← h.rest] at taken
    change c.offset + reach target c.here c.rest ≤ text.length
    omega
  next := by
    change ∀ d r, c.rest.drop (reach target c.here c.rest) = d :: r →
      target.next d ≤ (upTo text (c.offset + reach target c.here c.rest)).next d
    rw [Position.upTo_add, ← h.rest]
    exact next_le_of_reach column h.next

/-- A walk takes every character that ends no later than its target. -/
theorem le_offset_of_trails (h : c.Trails text) {k : Nat} (hk : k ≤ text.length)
    (early : upTo text k ≤ target) : k ≤ (c.advance target).2.offset := by
  change k ≤ c.offset + reach target c.here c.rest
  by_cases passed : k ≤ c.offset
  · omega
  · obtain ⟨n, rfl⟩ := Nat.exists_eq_add_of_lt (Nat.lt_of_not_le passed)
    have split := List.take_append_drop (n + 1) c.rest
    rw [Nat.add_assoc, Position.upTo_add, ← h.rest] at early
    have length : (c.rest.take (n + 1)).length = n + 1 := by
      rw [h.rest, List.length_take, List.length_drop]
      omega
    obtain ⟨d, taken, cons⟩ := List.exists_cons_of_length_eq_add_one length
    rw [cons] at split early length
    have step := h.next d _ split.symm
    have first : allows target (c.here.next d) = true :=
      allows_of_le (le_trans step (le_trans (Position.le_after _ taken) early))
    have others := le_reach step early (c.rest.drop (n + 1))
    rw [← split, List.cons_append, reach, if_pos first]
    rw [List.length_cons] at length
    omega

/-- A walk that takes nothing does not move the cursor. -/
theorem trails_gaps (h : c.Trails text) (column : 1 ≤ target.col) :
    (Slicer.gaps c target).2.Trails text := by
  by_cases nothing : (c.advance target).1 = []
  · rw [Slicer.gaps_of_nil nothing]
    exact h
  · rw [Slicer.gaps_of_ne_nil nothing]
    exact trails_advance h column

theorem trails_cut {previous : Position} {s : Span} (h : c.Trails text)
    (pass : s.Passes text previous) (column : 1 ≤ s.stop.col) (category : Category) :
    (c.cut category s).2.Trails text ∧
      ∀ k ≤ text.length, upTo text k ≤ s.stop → k ≤ (c.cut category s).2.offset := by
  have trails := trails_gaps h pass.counted.2
  constructor
  · exact trails_advance trails column
  · intro k hk early
    exact le_offset_of_trails trails hk early

theorem share_split (c : Cursor) (category : Category) (s : Span) :
    (c.share category s).text ++ (c.cut category s).2.rest = c.rest :=
  c.cut_split category s

/-- What is cut up to a span takes every character that ends no later than it. -/
theorem shares_reach {spans : List (Category × Span)} {previous : Position}
    (pass : AllPass text previous spans) (columns : ∀ cs ∈ spans, 1 ≤ cs.2.stop.col)
    (h : c.Trails text) :
    ∀ i (hi : i < spans.length), ∃ d : Cursor, d.Trails text ∧
      ((c.shares spans).take (i + 1)).flatMap Share.text ++ d.rest = c.rest ∧
      ∀ k ≤ text.length, upTo text k ≤ spans[i].2.stop → k ≤ d.offset := by
  induction spans generalizing c previous with
  | nil => exact nofun
  | cons cs todo ih =>
    obtain ⟨category, s⟩ := cs
    obtain ⟨passes, others⟩ := pass
    obtain ⟨column, more⟩ := List.forall_mem_cons.1 columns
    obtain ⟨trails, reached⟩ := trails_cut h passes column category
    have split := c.share_split category s
    intro i hi
    cases i with
    | zero =>
      refine ⟨_, trails, ?_, reached⟩
      rw [shares, List.take_succ_cons, List.take_zero, List.flatMap_singleton]
      exact split
    | succ i =>
      obtain ⟨d, hd, later, holds⟩ :=
        ih others more trails i (Nat.lt_of_succ_lt_succ hi)
      refine ⟨d, hd, ?_, holds⟩
      rw [shares, List.take_succ_cons, List.flatMap_cons, List.append_assoc, later]
      exact split

end Cursor

/-- **Pieces reach the ends of their spans.** A list of spans that is accepted,
wherever the spans end from column 1 on, gets one piece for each span in order,
apart from the space before them. What is cut up to the piece of a span is a
beginning of the text, and has all characters that end no later than the span. -/
theorem slice_reaches {text : List Char} {spans : List (Category × Span)}
    (ok : (slice text spans).error? = none) (columns : ∀ cs ∈ spans, 1 ≤ cs.2.stop.col) :
    let shares := (Cursor.start text).shares spans
    (slice text spans).items = shares.flatMap Share.pieces ∧
      shares.map (fun g => g.own.category) = spans.map Prod.fst ∧
      ∀ i (hi : i < spans.length),
        (shares.take (i + 1)).flatMap Share.text <+: text ∧
          ∀ k < text.length, upTo text (k + 1) ≤ spans[i].2.stop →
            k < ((shares.take (i + 1)).flatMap Share.text).length := by
  intro shares
  have pass : AllPass text .origin spans := (Slicer.error?_traceOver rfl spans).1 ok
  refine ⟨?_, Cursor.category_shares _ _, fun i hi => ?_⟩
  · rw [← Cursor.cutAll_shares]
    exact Slicer.items_traceOver ok
  · obtain ⟨d, trails, split, reached⟩ :=
      Cursor.shares_reach pass columns (Cursor.trails_start text) i hi
    change (shares.take (i + 1)).flatMap Share.text ++ d.rest = text at split
    refine ⟨⟨d.rest, split⟩, fun k hk early => ?_⟩
    have offset := reached (k + 1) hk early
    have length := congrArg List.length split
    rw [trails.rest, List.length_append, List.length_drop] at length
    have inside := trails.inside
    omega

/-- The first span ends inside a tab and gets nothing, and the tab is space. The
second ends past its line and gets the next one too. -/
theorem slice_reaches_tab :
    let text := ['\t', 'x', '\n', 'y']
    let spans : List (Category × Span) := [(.string, ⟨⟨1, 1⟩, ⟨1, 3⟩⟩),
      (.space, ⟨⟨1, 9⟩, ⟨1, 30⟩⟩), (.char, ⟨⟨2, 1⟩, ⟨2, 2⟩⟩)]
    let shares := (Cursor.start text).shares spans
    (slice text spans).error? = none ∧ (∀ cs ∈ spans, 1 ≤ cs.2.stop.col) ∧
      (slice text spans).items = [⟨.string, []⟩, ⟨.space, ['\t']⟩, ⟨.space, ['x', '\n', 'y']⟩,
        ⟨.char, []⟩] ∧
      (slice text spans).items = shares.flatMap Share.pieces ∧
      shares.map (fun g => g.own.category) = spans.map Prod.fst ∧
      ∀ i (hi : i < spans.length),
        (shares.take (i + 1)).flatMap Share.text <+: text ∧
          ∀ k < text.length, upTo text (k + 1) ≤ spans[i].2.stop →
            k < ((shares.take (i + 1)).flatMap Share.text).length := by
  intro text spans shares
  have ok : (slice text spans).error? = none := by decide +kernel
  have columns : ∀ cs ∈ spans, 1 ≤ cs.2.stop.col := by decide
  exact ⟨ok, columns, by decide +kernel, slice_reaches ok columns⟩

end HaskellLexis
