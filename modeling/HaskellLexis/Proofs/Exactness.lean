import HaskellLexis.Proofs.Checks
import HaskellLexis.Proofs.Walk

/-!
# Where pieces are exact

As long as no lexeme is followed by a line feed, the cursor stands where it
believes to stand, and each piece is its lexeme. The first lexeme that is
followed by one takes more: all that stays left of the column it ends at.

* `Overrun`: what a walk takes once it has arrived;
* `cut_of_fits`: the pieces of one tile, from a cursor that stands before it;
* `highlight_exact`: the pieces up to the first lexeme that takes more.
-/

namespace HaskellLexis

namespace Tile

/-- The gap, if there is one. -/
def spaces (t : Tile) : List Piece := if t.gap = [] then [] else [⟨.space, t.gap⟩]

/-- A tile as it would be shown if nothing were cut in the wrong place. -/
def pieces (t : Tile) : List Piece := t.spaces ++ [⟨t.lexeme.kind.category, t.lexeme.text⟩]

theorem flatMap_pieces (t : Tile) : t.pieces.flatMap Piece.text = t.text := by
  rw [pieces, spaces, text]
  split
  case isTrue h => simp [h]
  case isFalse => simp

end Tile

/-- Right behind tile `k` the line ends. -/
def Feeds (text : List Char) (tiles : List Tile) (k : Nat) : Prop :=
  text[extent tiles (k + 1)]? = some '\n'

theorem feeds_zero {t : Tile} {ts : List Tile} {behind : List Char} :
    Feeds (t.text ++ behind) (t :: ts) 0 ↔ behind[0]? = some '\n' := by
  rw [Feeds, extent_cons, List.getElem?_append_right (Nat.le_add_right _ _),
    Nat.add_sub_cancel_left]
  rfl

theorem feeds_succ {t : Tile} {ts : List Tile} {behind : List Char} {k : Nat} :
    Feeds (t.text ++ behind) (t :: ts) (k + 1) ↔ Feeds behind ts k := by
  rw [Feeds, extent_cons, List.getElem?_append_right (Nat.le_add_right _ _),
    Nat.add_sub_cancel_left, Feeds]

/-- What a walk to `p` takes of the text behind it: as much as stays left of
the column of `p`, on however many lines. -/
structure Overrun (p : Position) (behind extra : List Char) : Prop where
  taken : extra <+: behind
  short : ∀ q ∈ p.trail extra, q.col ≤ p.col
  longest : ∀ other, other <+: behind → (∀ q ∈ p.trail other, q.col ≤ p.col) →
    other.length ≤ extra.length

namespace Cursor

theorem allows_iff_col {target reached : Position} (h : target.line ≤ reached.line) :
    allows target reached = true ↔ reached.col ≤ target.col := by
  simp only [allows, Bool.or_eq_true, decide_eq_true_eq]
  omega

theorem overrun_of_reach (p : Position) (behind : List Char) :
    Overrun p behind (behind.take (reach p p behind)) where
  taken := List.take_prefix _ _
  short := by
    intro q mem
    have allowed := (prefix_taken_iff.1 List.prefix_rfl).2 q mem
    exact (allows_iff_col (Position.line_le_of_mem_trail mem)).1 allowed
  longest := by
    intro other front short
    apply List.IsPrefix.length_le
    refine prefix_taken_iff.2 ⟨front, ?_⟩
    intro q mem
    exact (allows_iff_col (Position.line_le_of_mem_trail mem)).2 (short q mem)

theorem reach_arrived (p : Position) {behind : List Char} (h : behind[0]? ≠ some '\n') :
    reach p p behind = 0 := by
  cases behind with
  | nil => rfl
  | cons c r => exact reach_self (fun feed => h (congrArg some feed)) r

/-- A lexeme does not begin with a line feed, so the walk to it stops in time. -/
theorem gaps_of_fits {c : Cursor} {t : Tile} {behind : List Char} (fits : t.Fits c.here)
    (rest : c.rest = t.text ++ behind) :
    (Slicer.gaps c t.lexeme.span.start).1.map (fun g => (⟨.space, g.1⟩ : Piece)) = t.spaces ∧
      (Slicer.gaps c t.lexeme.span.start).2.here = c.here.after t.gap ∧
      (Slicer.gaps c t.lexeme.span.start).2.rest = t.lexeme.text ++ behind := by
  obtain ⟨d, r, front, solid⟩ := fits.solid
  have noFeed : d ≠ '\n' := by
    rintro rfl
    exact absurd solid (by decide)
  have start : t.lexeme.span.start = c.here.after t.gap := by rw [fits.located]
  have taken : reach t.lexeme.span.start c.here c.rest = t.gap.length := by
    rw [rest, Tile.text, front, List.append_assoc, start, reach_append (le_refl _),
      List.cons_append, reach_self noFeed, Nat.add_zero]
  have gap : c.advance t.lexeme.span.start =
      (t.gap, ⟨c.here.after t.gap, c.offset + t.gap.length, t.lexeme.text ++ behind⟩) := by
    rw [advance, taken, rest, Tile.text, List.append_assoc, List.take_left, List.drop_left, start]
  by_cases empty : t.gap = []
  · rw [Slicer.gaps_of_nil (by rw [gap, empty]), Tile.spaces, if_pos empty, rest, Tile.text, empty]
    exact ⟨rfl, rfl, rfl⟩
  · rw [Slicer.gaps_of_ne_nil (by rw [gap]; exact empty), gap, Tile.spaces, if_neg empty]
    exact ⟨rfl, rfl, rfl⟩

/-- A cursor that stands right before a tile cuts it exactly, but for what its
last walk takes behind the tile. -/
theorem cut_of_fits {c : Cursor} {t : Tile} {behind : List Char} (fits : t.Fits c.here)
    (rest : c.rest = t.text ++ behind) :
    let past := reach t.lexeme.span.stop t.lexeme.span.stop behind
    (c.cut t.lexeme.kind.category t.lexeme.span).1 =
        t.spaces ++ [⟨t.lexeme.kind.category, t.lexeme.text ++ behind.take past⟩] ∧
      (c.cut t.lexeme.kind.category t.lexeme.span).2.here = t.lexeme.span.stop ∧
      (c.cut t.lexeme.kind.category t.lexeme.span).2.rest = behind.drop past := by
  intro past
  obtain ⟨spaces, here, left⟩ := gaps_of_fits fits rest
  have stop : (c.here.after t.gap).after t.lexeme.text = t.lexeme.span.stop := by
    rw [fits.located, ← Position.after_append]
    rfl
  have taken : reach t.lexeme.span.stop (c.here.after t.gap) (t.lexeme.text ++ behind) =
      t.lexeme.text.length + past := by
    rw [reach_append (le_of_eq stop), stop]
  refine ⟨?_, rfl, ?_⟩
  · rw [cut, spaces, advance, here, left, taken, List.take_length_add_append]
  · rw [cut, advance, here, left, taken, List.drop_length_add_append]

end Cursor

/-- Tile `m` is the first that a line feed follows, or `m` is past the last tile
if there is none. The pieces are exact before it, and its own is exact but for
what the walk takes behind it. -/
structure ExactUntil (m : Nat) (text : List Char) (tiles : List Tile) (pieces : List Piece) :
    Prop where
  bound : m ≤ tiles.length
  clear : ∀ k < m, ¬Feeds text tiles k
  whole : m = tiles.length → pieces = tiles.flatMap Tile.pieces
  broken : ∀ h : m < tiles.length, Feeds text tiles m ∧ ∃ extra,
    Overrun tiles[m].lexeme.span.stop (text.drop (extent tiles (m + 1))) extra ∧
    (tiles.take m).flatMap Tile.pieces ++ tiles[m].spaces ++
      [⟨tiles[m].lexeme.kind.category, tiles[m].lexeme.text ++ extra⟩] <+: pieces

theorem exactUntil_here {t : Tile} {ts : List Tile} {behind extra : List Char}
    (feeds : Feeds (t.text ++ behind) (t :: ts) 0)
    (run : Overrun t.lexeme.span.stop behind extra) (more : List Piece) :
    ExactUntil 0 (t.text ++ behind) (t :: ts)
      (t.spaces ++ [⟨t.lexeme.kind.category, t.lexeme.text ++ extra⟩] ++ more) where
  bound := Nat.zero_le _
  clear := fun k hk => by cases hk
  whole := fun h => by cases h
  broken := by
    intro _
    refine ⟨feeds, extra, ?_, ⟨more, rfl⟩⟩
    rw [extent_cons, List.drop_length_add_append]
    exact run

theorem exactUntil_later {m : Nat} {t : Tile} {ts : List Tile} {behind : List Char}
    {pieces : List Piece} (quiet : ¬Feeds (t.text ++ behind) (t :: ts) 0)
    (later : ExactUntil m behind ts pieces) :
    ExactUntil (m + 1) (t.text ++ behind) (t :: ts) (t.pieces ++ pieces) where
  bound := Nat.succ_le_succ later.bound
  clear := by
    intro k hk
    cases k with
    | zero => exact quiet
    | succ k => exact feeds_succ.not.2 (later.clear k (Nat.lt_of_succ_lt_succ hk))
  whole := by
    intro h
    rw [later.whole (Nat.succ.inj h), List.flatMap_cons]
  broken := by
    intro h
    obtain ⟨feeds, extra, run, cut⟩ := later.broken (Nat.lt_of_succ_lt_succ h)
    refine ⟨feeds_succ.2 feeds, extra, ?_, ?_⟩
    · rw [extent_cons, List.drop_length_add_append]
      exact run
    · rw [List.take_succ_cons, List.flatMap_cons, List.append_assoc, List.append_assoc,
        List.prefix_append_right_inj, ← List.append_assoc]
      exact cut

theorem Cursor.cutAll_exact {c : Cursor} {tiles : List Tile} {tail : List Char}
    (tiled : Tiled c.here tiles) (rest : c.rest = tiles.flatMap Tile.text ++ tail) :
    ∃ m, ExactUntil m c.rest tiles (c.cutAll (tiles.map Tile.spanned)) := by
  induction tiles generalizing c with
  | nil =>
    exact ⟨0, Nat.le_refl 0, fun _ h => absurd h (Nat.not_lt_zero _), fun _ => rfl,
      fun h => absurd h (Nat.not_lt_zero _)⟩
  | cons t ts ih =>
    obtain ⟨fits, more⟩ := tiled
    rw [List.flatMap_cons, List.append_assoc] at rest
    obtain ⟨group, here, left⟩ := cut_of_fits fits rest
    rw [List.map_cons, Tile.spanned, cutAll, group, rest]
    by_cases feeds : Feeds (t.text ++ (ts.flatMap Tile.text ++ tail)) (t :: ts) 0
    · exact ⟨0, exactUntil_here feeds (overrun_of_reach _ _) _⟩
    · have arrived := reach_arrived t.lexeme.span.stop (feeds_zero.not.1 feeds)
      rw [arrived, List.drop_zero] at left
      rw [arrived, List.take_zero, List.append_nil]
      have stop : c.here.after t.text = t.lexeme.span.stop := by rw [fits.located]
      rw [stop, ← here] at more
      obtain ⟨m, later⟩ := ih more left
      rw [left] at later
      exact ⟨m + 1, exactUntil_later feeds later⟩

/-- **Pieces are exact until a line ends right behind a lexeme.** Up to there each
lexeme is a piece, with the gap before it as space. The lexeme that the line
feed follows also takes what stays left of the column it ends at. -/
theorem highlight_exact {config : Config} {text : List Char} {tokens : List Token}
    (h : lex config text = .ok tokens) :
    ∃ tiles tail pieces m, located tokens = tiles.map Tile.lexeme ∧ Tiling text tiles tail ∧
      (highlightPieces config text).value = .ok pieces ∧ ExactUntil m text tiles pieces ∧
      (m = tiles.length → text = pieces.flatMap Piece.text ++ tail) := by
  obtain ⟨tiles, tail, located, tiled, covers, blankTail, spanned, pass⟩ := slices_of_lex h
  obtain ⟨m, until_m⟩ := Cursor.cutAll_exact (c := Cursor.start text) tiled covers
  refine ⟨tiles, tail, _, m, located, tiling_of_tiled covers tiled blankTail,
    highlightPieces_of_lexSpans spanned pass, until_m, fun hm => ?_⟩
  rw [until_m.whole hm, List.flatMap_assoc, funext Tile.flatMap_pieces]
  exact covers

/-- The second lexeme ends its line, and takes what stands left of its end on the
next one. -/
theorem highlight_exact_overrun :
    let text := ['a', '\t', 'b', '\n', ' ', 'c', 'd']
    let tokens := [.lexeme ⟨.name .varid, ⟨⟨1, 1⟩, ⟨1, 2⟩⟩, ['a']⟩,
      .lexeme ⟨.name .varid, ⟨⟨1, 9⟩, ⟨1, 10⟩⟩, ['b']⟩,
      .lexeme ⟨.name .varid, ⟨⟨2, 2⟩, ⟨2, 4⟩⟩, ['c', 'd']⟩,
      .lexeme ⟨.endOfText, ⟨⟨2, 4⟩, ⟨2, 4⟩⟩, []⟩]
    lex .permissive text = .ok tokens ∧
      ∃ tiles tail pieces m, located tokens = tiles.map Tile.lexeme ∧ Tiling text tiles tail ∧
        (highlightPieces .permissive text).value = .ok pieces ∧
        ExactUntil m text tiles pieces ∧
        (m = tiles.length → text = pieces.flatMap Piece.text ++ tail) := by
  intro text tokens
  have h : lex .permissive text = .ok tokens := by decide +kernel
  exact ⟨h, highlight_exact h⟩

end HaskellLexis
