import HaskellLexis.Proofs.Checks

/-!
# Spans that are accepted

What a slicer asks of the spans that it is given, said of the text and the
spans alone.

* `Position.LiesIn`: a position of the text, on one of its lines and no further
  than just past the last character of that line;
* `InOrder`: spans that neither end before they start nor overlap;
* `slice_completes_iff`: spans in order are sliced to the end if they start at
  positions of the text and end on lines of it. The column at which a span ends
  is not looked at, so that spans may end outside of the text.
-/

namespace HaskellLexis

namespace Position

/-- The text has a line of this number. -/
def OnLine (text : List Char) (p : Position) : Prop :=
  1 ≤ p.line ∧ p.line ≤ (text.splitOn '\n').length

/-- The column is one of the line, or the one just past its last character. -/
def InColumns (text : List Char) (p : Position) : Prop :=
  1 ≤ p.col ∧
    ∀ line, (text.splitOn '\n')[(p.line - 1).toNat]? = some line → p.col ≤ lineEdge line

structure LiesIn (text : List Char) (p : Position) : Prop where
  onLine : p.OnLine text
  inColumns : p.InColumns text

theorem line_le_of_le {p q : Position} (h : p ≤ q) : p.line ≤ q.line := by
  rw [le_iff] at h
  omega

end Position

/-- No span ends before it starts, and none starts before the end of the one
before it. -/
def InOrder (previous : Position) : List (Category × Span) → Prop
  | [] => True
  | (_, s) :: more => s.start ≤ s.stop ∧ previous ≤ s.start ∧ InOrder s.stop more

variable {text : List Char} {previous : Position} {s : Span}

theorem Span.passes_iff :
    s.Passes text previous ↔
      s.start ≤ s.stop ∧ previous ≤ s.start ∧ s.start.LiesIn text ∧ s.stop.OnLine text := by
  constructor
  · intro h
    obtain ⟨line, found, edge⟩ := h.lineEnd
    obtain ⟨counted, col⟩ := h.counted
    have later := Position.line_le_of_le h.ordered
    have last := h.lastLine
    have columns : s.start.InColumns text := by
      refine ⟨col, ?_⟩
      intro other same
      rw [found] at same
      cases same
      exact edge
    exact ⟨h.ordered, h.apart, ⟨⟨counted, by omega⟩, columns⟩, ⟨by omega, last⟩⟩
  · rintro ⟨ordered, apart, ⟨⟨counted, line⟩, col, edge⟩, ⟨-, last⟩⟩
    have inside : (s.start.line - 1).toNat < (text.splitOn '\n').length := by omega
    have found := List.getElem?_eq_getElem inside
    exact ⟨⟨counted, col⟩, ordered, apart, last, _, found, edge _ found⟩

theorem allPass_iff {spans : List (Category × Span)} :
    AllPass text previous spans ↔
      InOrder previous spans ∧
        ∀ cs ∈ spans, cs.2.start.LiesIn text ∧ cs.2.stop.OnLine text := by
  induction spans generalizing previous with
  | nil => exact ⟨fun _ => ⟨trivial, List.forall_mem_nil _⟩, fun _ => trivial⟩
  | cons cs more ih =>
    rw [AllPass, InOrder, Span.passes_iff, ih, List.forall_mem_cons]
    constructor
    · rintro ⟨⟨ordered, apart, inside⟩, order, others⟩
      exact ⟨⟨ordered, apart, order⟩, inside, others⟩
    · rintro ⟨⟨ordered, apart, order⟩, inside, others⟩
      exact ⟨⟨ordered, apart, inside⟩, order, others⟩

/-- A producer that does not fail delivers all that it has. -/
theorem Trace.exists_ok_iff {σ ν α ε : Type} (t : Trace σ ν α ε) :
    (∃ items, t.result = .ok items) ↔ t.error? = none := by
  unfold Trace.result
  cases t.error? with
  | none => exact ⟨fun _ => rfl, fun _ => ⟨_, rfl⟩⟩
  | some e =>
    constructor
    · rintro ⟨items, h⟩
      cases h
    · intro h
      cases h

/-- **When spans are accepted.** A text is sliced to the end exactly along spans
that are in order, start at positions of the text and end on lines of it. Spans
in order that lie in the text with both ends are the accepted ones of which each
also ends in a column of its last line, which is not asked for. -/
theorem slice_completes_iff (text : List Char) (spans : List (Category × Span)) :
    ((∃ pieces, (slice text spans).result = .ok pieces) ↔
      InOrder .origin spans ∧
        ∀ cs ∈ spans, cs.2.start.LiesIn text ∧ cs.2.stop.OnLine text) ∧
    (InOrder .origin spans ∧
        (∀ cs ∈ spans, cs.2.start.LiesIn text ∧ cs.2.stop.LiesIn text) ↔
      (∃ pieces, (slice text spans).result = .ok pieces) ∧
        ∀ cs ∈ spans, cs.2.stop.InColumns text) := by
  have accepted : (∃ pieces, (slice text spans).result = .ok pieces) ↔
      InOrder .origin spans ∧
        ∀ cs ∈ spans, cs.2.start.LiesIn text ∧ cs.2.stop.OnLine text := by
    rw [Trace.exists_ok_iff, ← allPass_iff]
    exact Slicer.error?_traceOver rfl spans
  refine ⟨accepted, ?_⟩
  rw [accepted]
  constructor
  · rintro ⟨order, inside⟩
    refine ⟨⟨order, ?_⟩, ?_⟩
    · intro cs mem
      exact ⟨(inside cs mem).1, (inside cs mem).2.onLine⟩
    · intro cs mem
      exact (inside cs mem).2.inColumns
  · rintro ⟨⟨order, inside⟩, columns⟩
    refine ⟨order, ?_⟩
    intro cs mem
    exact ⟨(inside cs mem).1, (inside cs mem).2, columns cs mem⟩

/-- A span over a first line of two characters that ends in column 9 takes the
next line along. It is accepted, although it does not lie in the text. -/
theorem slice_completes_outside :
    let text := ['a', 'b', '\n', 'c', 'd']
    let spans : List (Category × Span) := [(.variableName, ⟨⟨1, 1⟩, ⟨1, 9⟩⟩)]
    (slice text spans).result = .ok [⟨.variableName, text⟩] ∧
      ¬(InOrder .origin spans ∧
        ∀ cs ∈ spans, cs.2.start.LiesIn text ∧ cs.2.stop.LiesIn text) := by
  intro text spans
  refine ⟨by decide +kernel, ?_⟩
  intro inside
  have columns := ((slice_completes_iff text spans).2.1 inside).2
  obtain ⟨-, edge⟩ := columns (.variableName, ⟨⟨1, 1⟩, ⟨1, 9⟩⟩) List.mem_cons_self
  exact absurd (edge ['a', 'b'] rfl) (by decide)

end HaskellLexis
