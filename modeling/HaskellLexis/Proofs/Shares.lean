import HaskellLexis.Proofs.Checks
import HaskellLexis.Proofs.Walk

/-!
# One gap before a span

A slicer walks to the start of a span again and again until a walk takes
nothing. The second walk never takes anything, so the walks end, and a span has
no more than one piece of space before its own.

* `Rounds`: the walks, one round after the other, until one takes nothing;
* `Share`: what a span gets, its space and its own piece;
* `exists_passing`, `traceOver_append`: spans up to the first bad one, and the run
  along them, in which no piece is delivered from behind the span that it is of;
* `exists_accepted`: a run gives each span before the first bad one its share;
* `one_gap_each`: how many pieces there are.
-/

namespace HaskellLexis

namespace Cursor

/-- Walking to the target round after round takes the chunks, and ends at a
round that takes nothing. -/
inductive Rounds (target : Position) : Cursor → List (List Char) → Cursor → Prop where
  | done {c : Cursor} (nothing : (c.advance target).1 = []) : Rounds target c [] c
  | round {c d : Cursor} {chunks : List (List Char)} (some : (c.advance target).1 ≠ [])
      (more : Rounds target (c.advance target).2 chunks d) :
      Rounds target c ((c.advance target).1 :: chunks) d

variable {target : Position} {c d : Cursor} {chunks : List (List Char)}

theorem advance_again (c : Cursor) (target : Position) :
    ((c.advance target).2.advance target).1 = [] :=
  congrArg Prod.fst (c.advance_stays target)

/-- The rounds end, with the gaps that the slicer goes on from. -/
theorem rounds_gaps (c : Cursor) (target : Position) :
    Rounds target c ((Slicer.gaps c target).1.map Prod.fst) (Slicer.gaps c target).2 := by
  by_cases h : (c.advance target).1 = []
  · rw [Slicer.gaps_of_nil h]
    exact .done h
  · rw [Slicer.gaps_of_ne_nil h]
    exact .round h (.done (c.advance_again target))

theorem Rounds.length_le (h : Rounds target c chunks d) : chunks.length ≤ 1 := by
  cases h with
  | done => exact Nat.zero_le 1
  | round _ more =>
    cases more with
    | done => exact Nat.le_refl 1
    | round again => exact absurd (c.advance_again target) again

theorem Rounds.ne_nil (h : Rounds target c chunks d) : ∀ chunk ∈ chunks, chunk ≠ [] := by
  induction h with
  | done => exact nofun
  | round some _ ih => exact List.forall_mem_cons.2 ⟨some, ih⟩

end Cursor

/-- The pieces of one span: the space that it has before it, and its own. -/
structure Share where
  spaces : List Piece
  own : Piece

namespace Share

def pieces (g : Share) : List Piece := g.spaces ++ [g.own]

def text (g : Share) : List Char := g.pieces.flatMap Piece.text

/-- No more than one piece of space, and that one not empty. -/
structure Single (g : Share) : Prop where
  one : g.spaces.length ≤ 1
  space : ∀ p ∈ g.spaces, p.category = .space ∧ p.text ≠ []

theorem length_pieces (shares : List Share) (single : ∀ g ∈ shares, g.Single) :
    shares.length ≤ (shares.flatMap pieces).length ∧
      (shares.flatMap pieces).length ≤ 2 * shares.length := by
  induction shares with
  | nil => exact ⟨Nat.le_refl 0, Nat.le_refl 0⟩
  | cons g gs ih =>
    obtain ⟨first, others⟩ := List.forall_mem_cons.1 single
    have one := first.one
    have more := ih others
    simp only [List.flatMap_cons, pieces, List.length_append, List.length_cons, List.length_nil]
    omega

/-- The pieces of shares, each with the number of its share, from `k` on. -/
def numbered (k : Nat) : List Share → List (Nat × Piece)
  | [] => []
  | g :: gs => g.pieces.map ((k, ·)) ++ numbered (k + 1) gs

theorem snd_numbered (k : Nat) (shares : List Share) :
    (numbered k shares).map Prod.snd = shares.flatMap pieces := by
  induction shares generalizing k with
  | nil => rfl
  | cons g gs ih => simp only [numbered, List.map_append, ih, List.map_map, Function.comp_def,
      List.map_id', List.flatMap_cons]

/-- There is a piece in each share, so the last one is in the last share. -/
theorem last_numbered (k : Nat) (shares : List Share) :
    ((numbered (k + 1) shares).getLast?.map Prod.fst).getD k = k + shares.length := by
  induction shares generalizing k with
  | nil => rfl
  | cons g gs ih =>
    have own : (g.pieces.map ((k + 1, ·))).getLast? = some (k + 1, g.own) := by
      rw [pieces, List.map_append, List.map_singleton, List.getLast?_concat]
    have others : ((numbered (k + 1 + 1) gs).getLast?.or (some (k + 1, g.own))).map Prod.fst =
        some (k + 1 + gs.length) := by
      rw [← ih (k + 1)]
      cases (numbered (k + 1 + 1) gs).getLast? <;> rfl
    rw [numbered, List.getLast?_append, own, others, Option.getD_some, List.length_cons]
    omega

end Share

namespace Cursor

def share (c : Cursor) (category : Category) (s : Span) : Share :=
  ⟨(Slicer.gaps c s.start).1.map fun g => ⟨.space, g.1⟩,
    ⟨category, ((Slicer.gaps c s.start).2.advance s.stop).1⟩⟩

def shares (c : Cursor) : List (Category × Span) → List Share
  | [] => []
  | (category, s) :: todo => c.share category s :: (c.cut category s).2.shares todo

variable {c : Cursor} {spans : List (Category × Span)}

theorem cutAll_shares (c : Cursor) (spans : List (Category × Span)) :
    c.cutAll spans = (c.shares spans).flatMap Share.pieces := by
  induction spans generalizing c with
  | nil => rfl
  | cons cs todo ih =>
    rw [cutAll, ih]
    rfl

theorem category_shares (c : Cursor) (spans : List (Category × Span)) :
    (c.shares spans).map (fun g => g.own.category) = spans.map Prod.fst := by
  induction spans generalizing c with
  | nil => rfl
  | cons cs todo ih =>
    rw [shares, List.map_cons, ih]
    rfl

theorem length_shares (c : Cursor) (spans : List (Category × Span)) :
    (c.shares spans).length = spans.length := by
  simpa using congrArg List.length (c.category_shares spans)

theorem single_share (c : Cursor) (category : Category) (s : Span) :
    (c.share category s).Single := by
  have rounds := c.rounds_gaps s.start
  constructor
  · have one := rounds.length_le
    rw [List.length_map] at one
    rwa [share, List.length_map]
  · intro p hp
    obtain ⟨g, hg, rfl⟩ := List.mem_map.1 hp
    exact ⟨rfl, rounds.ne_nil g.1 (List.mem_map_of_mem hg)⟩

theorem single_shares (c : Cursor) (spans : List (Category × Span)) :
    ∀ g ∈ c.shares spans, g.Single := by
  induction spans generalizing c with
  | nil => exact nofun
  | cons cs todo ih => exact List.forall_mem_cons.2 ⟨c.single_share cs.1 cs.2, ih _⟩

end Cursor

/-- There is a longest beginning of spans that all pass. -/
theorem exists_passing (text : List Char) (previous : Position) (spans : List (Category × Span)) :
    ∃ good refused, spans = good ++ refused ∧ AllPass text previous good ∧
      ∀ cs ∈ refused.head?, ¬AllPass text previous (good ++ [cs]) := by
  induction spans generalizing previous with
  | nil => exact ⟨[], [], rfl, trivial, nofun⟩
  | cons cs spans ih =>
    obtain ⟨category, s⟩ := cs
    by_cases passes : s.Passes text previous
    · obtain ⟨good, refused, rfl, pass, bad⟩ := ih s.stop
      refine ⟨(category, s) :: good, refused, rfl, ⟨passes, pass⟩, ?_⟩
      rintro cs first ⟨-, all⟩
      exact bad cs first all
    · refine ⟨[], (category, s) :: spans, rfl, trivial, ?_⟩
      rintro cs first ⟨all, -⟩
      obtain rfl := Option.some.inj first
      exact passes all

namespace Slicer

variable {text : List Char} {x : Slicer} {good refused : List (Category × Span)} {n j : Nat}

theorem spans_piecesOf {category : Category} {s : Span} {p : Piece × Slicer}
    (mem : p ∈ (x.piecesOf category s).1) : p.2.spans = x.spans := by
  rw [piecesOf, List.mem_append, List.mem_map, List.mem_singleton] at mem
  rcases mem with ⟨g, -, rfl⟩ | rfl
  · rfl
  · rfl

/-- While the pieces of a span are delivered no further span is looked at. -/
theorem numbered_piecesOf (category : Category) (s : Span) (number : n - x.spans.length = j) :
    ((x.piecesOf category s).1.map fun p => (n - p.2.spans.length, p.1)) =
      (x.cursor.share category s).pieces.map ((j, ·)) := by
  change _ = (x.cursor.cut category s).1.map ((j, ·))
  rw [← (cut_of_piecesOf x category s).1, List.map_map]
  apply List.map_congr_left
  intro p mem
  rw [spans_piecesOf mem, number]
  rfl

/-- A run goes through the spans that pass, and from there on with the others. When
it has `j` of `n` spans behind it, each piece leaves the spans behind its own alone. -/
theorem traceOver_append (h : x.edges = (lineEdges 1 text).toArray)
    (pass : AllPass text x.previous good) (refused : List (Category × Span)) :
    ∃ (states : List (Piece × Slicer)) (y : Slicer),
      x.traceOver (good ++ refused) = .itemAll states (y.traceOver refused) ∧
      y.edges = (lineEdges 1 text).toArray ∧
      (∀ more, AllPass text x.previous (good ++ more) ↔ AllPass text y.previous more) ∧
      ∀ n j, n = j + (good ++ refused).length →
        (states.map fun p => (n - p.2.spans.length, p.1)) =
          Share.numbered (j + 1) (x.cursor.shares good) := by
  induction good generalizing x with
  | nil => exact ⟨[], x, rfl, h, fun _ => Iff.rfl, fun _ _ _ => rfl⟩
  | cons cs good ih =>
    obtain ⟨category, s⟩ := cs
    obtain ⟨passes, pass⟩ := pass
    have sound := (fault?_eq_none h s).2 passes
    let y : Slicer := { x with spans := good ++ refused }
    have cursor : (y.piecesOf category s).2.cursor = (x.cursor.cut category s).2 :=
      (cut_of_piecesOf y category s).2
    obtain ⟨states, z, trace, edges, behind, number⟩ := ih (x := (y.piecesOf category s).2) h pass
    refine ⟨(y.piecesOf category s).1 ++ states, z, ?_, edges, ?_, ?_⟩
    · rw [List.cons_append, traceOver_of_sound sound, Trace.itemAll, Trace.itemAll,
        List.foldr_append]
      exact congrArg (Trace.itemAll _) trace
    · intro more
      exact (and_iff_right passes).trans (behind more)
    · intro n j total
      rw [List.cons_append, List.length_cons] at total
      have here := numbered_piecesOf (x := y) category s (n := n) (j := j + 1)
        (show n - (good ++ refused).length = j + 1 by omega)
      rw [List.map_append, here, number n (j + 1) (by omega), cursor]
      rfl

/-- At the first bad span a run ends. -/
theorem traceOver_refused (h : x.edges = (lineEdges 1 text).toArray)
    (bad : ∀ cs ∈ refused.head?, ¬AllPass text x.previous [cs]) :
    refused = [] ∧ x.traceOver refused = .done { x with spans := [] } ∨
      ∃ category s more f, refused = (category, s) :: more ∧
        x.traceOver refused = .failed ⟨s, f⟩ { x with spans := more } := by
  cases refused with
  | nil => exact .inl ⟨rfl, rfl⟩
  | cons cs more =>
    have fails : ¬cs.2.Passes text x.previous := fun passes => bad cs rfl ⟨passes, trivial⟩
    rw [← fault?_eq_none h, ← ne_eq, Option.ne_none_iff_exists'] at fails
    obtain ⟨f, fault⟩ := fails
    exact .inr ⟨cs.1, cs.2, more, f, rfl, traceOver_of_fault fault⟩

/-- A run gives the spans before the first bad one what they would get alone, and
fails at that one if there is one. -/
theorem exists_accepted (h : x.edges = (lineEdges 1 text).toArray)
    (spans : List (Category × Span)) :
    ∃ accepted refused, spans = accepted ++ refused ∧ AllPass text x.previous accepted ∧
      (x.traceOver spans).items = x.cursor.cutAll accepted ∧
      (x.traceOver spans).error?.map SpanError.span = refused.head?.map Prod.snd := by
  obtain ⟨accepted, refused, rfl, pass, bad⟩ := exists_passing text x.previous spans
  obtain ⟨states, y, trace, edges, behind, number⟩ := traceOver_append h pass refused
  have pieces : states.map Prod.fst = x.cursor.cutAll accepted := by
    rw [Cursor.cutAll_shares, ← Share.snd_numbered 1, ← number _ 0 (Nat.zero_add _).symm,
      List.map_map]
    rfl
  refine ⟨accepted, refused, rfl, pass, ?_⟩
  rw [trace, Trace.items_itemAll, Trace.error?_itemAll, pieces]
  obtain ⟨rfl, ends⟩ | ⟨category, s, more, f, rfl, ends⟩ :=
      traceOver_refused edges (fun cs first all => bad cs first ((behind [cs]).2 all))
  · rw [ends]
    exact ⟨List.append_nil _, rfl⟩
  · rw [ends]
    exact ⟨List.append_nil _, rfl⟩

end Slicer

/-- **One gap before each span.** Once a walk to the start of a span has taken
something, the next one takes nothing; so the walks come to an end. The spans
before the first bad one get one piece each, and before it no more than one of
space, which is not empty. -/
theorem one_gap_each (text : List Char) (spans : List (Category × Span)) :
    (∀ (c : Cursor) target, ((c.advance target).2.advance target).1 = [] ∧
      c.Rounds target ((Slicer.gaps c target).1.map Prod.fst) (Slicer.gaps c target).2) ∧
    ∃ accepted refused, spans = accepted ++ refused ∧ AllPass text .origin accepted ∧
      (slice text spans).error?.map SpanError.span = refused.head?.map Prod.snd ∧
      (slice text spans).items = ((Cursor.start text).shares accepted).flatMap Share.pieces ∧
      ((Cursor.start text).shares accepted).length = accepted.length ∧
      (∀ g ∈ (Cursor.start text).shares accepted, g.Single) ∧
      accepted.length ≤ (slice text spans).items.length ∧
      (slice text spans).items.length ≤ 2 * accepted.length := by
  constructor
  · intro c target
    exact ⟨c.advance_again target, c.rounds_gaps target⟩
  · obtain ⟨accepted, refused, split, pass, items, fails⟩ :=
      Slicer.exists_accepted (x := .start text spans) rfl spans
    have single := (Cursor.start text).single_shares accepted
    have count := Share.length_pieces _ single
    change (slice text spans).items = (Cursor.start text).cutAll accepted at items
    rw [Cursor.cutAll_shares] at items
    rw [← items, Cursor.length_shares] at count
    exact ⟨accepted, refused, split, pass, fails, items, Cursor.length_shares _ _, single, count⟩

end HaskellLexis
