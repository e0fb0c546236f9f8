import HaskellLexis.Proofs.Checks
import HaskellLexis.Proofs.Walk

/-!
# Pieces cover the lexemes

Once a walk has gone over the end of a line, pieces are cut too far to the
right. They still lose nothing: the cursor lags behind what it has taken, so
each walk to the end of a lexeme takes at least the text up to there.

* `Piece.through`: the pieces up to the one of a given lexeme;
* `cutAll_covers`: what a run of the slicer keeps;
* `highlight_covers`: nothing of the text is lost but blanks at its end.
-/

namespace HaskellLexis

namespace Piece

/-- The pieces up to and including number `i`, from zero on, of those that are
no space. -/
def through : List Piece → Nat → List Piece
  | [], _ => []
  | p :: ps, i =>
    if p.category = .space then p :: through ps i
    else if i = 0 then [p]
    else p :: through ps (i - 1)

theorem through_spaces {spaces : List Piece} (h : ∀ p ∈ spaces, p.category = .space)
    (ps : List Piece) (i : Nat) : through (spaces ++ ps) i = spaces ++ through ps i := by
  induction spaces with
  | nil => rfl
  | cons p spaces ih =>
    rw [List.cons_append, through, if_pos (h p List.mem_cons_self),
      ih fun q hq => h q (List.mem_cons_of_mem p hq)]
    rfl

theorem through_own_zero {p : Piece} (h : p.category ≠ .space) (ps : List Piece) :
    through (p :: ps) 0 = [p] := by
  rw [through, if_neg h, if_pos rfl]

theorem through_own_succ {p : Piece} (h : p.category ≠ .space) (ps : List Piece) (i : Nat) :
    through (p :: ps) (i + 1) = p :: through ps i := by
  rw [through, if_neg h, if_neg (Nat.succ_ne_zero i)]
  rfl

theorem through_isPrefix (ps : List Piece) (i : Nat) : through ps i <+: ps := by
  induction ps generalizing i with
  | nil => exact List.nil_prefix
  | cons p ps ih =>
    rw [through]
    split
    · exact (List.prefix_cons_inj p).2 (ih i)
    split
    · exact (List.prefix_cons_inj p).2 List.nil_prefix
    · exact (List.prefix_cons_inj p).2 (ih (i - 1))

end Piece

namespace Cursor

theorem cut_group (c : Cursor) (category : Category) (s : Span) :
    ∃ spaces chunk, (c.cut category s).1 = spaces ++ [⟨category, chunk⟩] ∧
      ∀ p ∈ spaces, p.category = .space := by
  refine ⟨_, _, rfl, fun p hp => ?_⟩
  obtain ⟨g, -, rfl⟩ := List.mem_map.1 hp
  rfl

/-- Without the space, there is one piece for each span, in order. -/
theorem own_cutAll (c : Cursor) {spans : List (Category × Span)}
    (own : ∀ cs ∈ spans, cs.1 ≠ .space) :
    ((c.cutAll spans).filter (·.category ≠ .space)).map Piece.category = spans.map Prod.fst := by
  induction spans generalizing c with
  | nil => rfl
  | cons cs todo ih =>
    obtain ⟨category, s⟩ := cs
    obtain ⟨spaces, chunk, group, blank⟩ := c.cut_group category s
    have none : spaces.filter (·.category ≠ .space) = [] := by
      rw [List.filter_eq_nil_iff]
      intro p hp
      simp [blank p hp]
    have one : [(⟨category, chunk⟩ : Piece)].filter (·.category ≠ .space) =
        [⟨category, chunk⟩] := by
      rw [List.filter_eq_self]
      simpa using own _ List.mem_cons_self
    rw [cutAll, group, List.filter_append, List.filter_append, none, one, List.nil_append,
      List.map_append, ih _ fun cs h => own cs (List.mem_cons_of_mem _ h)]
    rfl

/-- The walks along a tile keep the cursor behind itself and take the text up
to the end of the tile. -/
theorem lags_tile {text before behind : List Char} {t : Tile} {c : Cursor}
    (fits : t.Fits (Position.origin.after before)) (covers : text = before ++ (t.text ++ behind))
    (lags : c.Lags text) :
    (c.cut t.lexeme.kind.category t.lexeme.span).2.Lags text ∧ before.length + t.text.length ≤
      (c.cut t.lexeme.kind.category t.lexeme.span).2.offset := by
  have span := fits.span covers
  have far := congrArg List.length covers
  simp only [Tile.text, List.length_append] at far ⊢
  rw [← Nat.add_assoc]
  exact lags_cut lags (by omega) (by omega) (congrArg Span.start span)
    (congrArg Span.stop span) t.lexeme.kind.category

/-- Each tile is taken by the time its own piece is cut, whatever was taken
before it. -/
theorem cutAll_covers {text : List Char} (before : List Char) {tail : List Char}
    {tiles : List Tile} {c : Cursor} (tiled : Tiled (Position.origin.after before) tiles)
    (covers : text = before ++ (tiles.flatMap Tile.text ++ tail))
    (lags : c.Lags text) (reached : before.length ≤ c.offset) :
    (∃ d : Cursor, d.Lags text ∧ before.length + (tiles.flatMap Tile.text).length ≤ d.offset ∧
      (c.cutAll (tiles.map Tile.spanned)).flatMap Piece.text ++ d.rest = c.rest) ∧
    ∀ k < tiles.length, before.length + extent tiles (k + 1) ≤ c.offset +
      ((Piece.through (c.cutAll (tiles.map Tile.spanned)) k).flatMap Piece.text).length := by
  induction tiles generalizing before c with
  | nil => exact ⟨⟨c, lags, reached, rfl⟩, fun k hk => by cases hk⟩
  | cons t ts ih =>
    obtain ⟨fits, more⟩ := tiled
    rw [List.flatMap_cons, List.append_assoc] at covers
    obtain ⟨lags', reached'⟩ := lags_tile fits covers lags
    have split := c.cut_split t.lexeme.kind.category t.lexeme.span
    have offset := lags.offset_of_split lags' split
    rw [← Position.after_append] at more
    rw [← List.append_assoc] at covers
    obtain ⟨⟨d, hd, last, rest⟩, through⟩ :=
      ih _ more covers lags' (List.length_append.trans_le reached')
    rw [List.length_append] at last through
    obtain ⟨spaces, chunk, group, blank⟩ := c.cut_group t.lexeme.kind.category t.lexeme.span
    have own : (⟨t.lexeme.kind.category, chunk⟩ : Piece).category ≠ .space :=
      t.lexeme.kind.category_ne_space
    refine ⟨⟨d, hd, ?_, ?_⟩, ?_⟩
    · rw [List.flatMap_cons, List.length_append]
      omega
    · rw [List.map_cons, Tile.spanned, cutAll, List.flatMap_append, List.append_assoc, rest, split]
    · intro k hk
      rw [List.map_cons, Tile.spanned, cutAll, group, List.append_assoc,
        Piece.through_spaces blank, List.singleton_append]
      rw [group] at offset
      cases k with
      | zero =>
        rw [Piece.through_own_zero own, ← offset]
        simpa [extent] using reached'
      | succ k =>
        have later := through k (Nat.lt_of_succ_lt_succ hk)
        rw [offset] at later
        rw [Piece.through_own_succ own, extent_cons]
        simp only [List.flatMap_append, List.flatMap_cons, List.flatMap_nil, List.length_append,
          List.length_nil] at later ⊢
        omega

end Cursor

/-- **Pieces cover the text.** What lexes can be highlighted: the pieces are the
text but for blanks at its end, and all but the space are the spans of the
lexemes in order. A piece may begin further to the right than its lexeme, but
what is cut up to its end holds the lexeme and all that is before it. -/
theorem highlight_covers {config : Config} {text : List Char} {tokens : List Token}
    (h : lex config text = .ok tokens) :
    ∃ pieces spans tiles tail rest, (highlightPieces config text).value = .ok pieces ∧
      (lexSpans config text).value = .ok spans ∧ located tokens = tiles.map Tile.lexeme ∧
      Tiling text tiles tail ∧ text = pieces.flatMap Piece.text ++ rest ∧
      (∀ c ∈ rest, isBlank c = true) ∧
      (pieces.filter (·.category ≠ .space)).map Piece.category = spans.map Prod.fst ∧
      ∀ k < spans.length,
        text.take (extent tiles (k + 1)) <+: (Piece.through pieces k).flatMap Piece.text := by
  obtain ⟨tiles, tail, located, tiled, covers, blankTail, spanned, pass⟩ := slices_of_lex h
  have pieces := highlightPieces_of_lexSpans spanned pass
  have own : ∀ cs ∈ tiles.map Tile.spanned, cs.1 ≠ .space := by
    intro cs hcs
    obtain ⟨t, -, rfl⟩ := List.mem_map.1 hcs
    exact t.lexeme.kind.category_ne_space
  obtain ⟨⟨d, lags, last, split⟩, through⟩ := Cursor.cutAll_covers [] tiled covers
    (Cursor.lags_start text) (Nat.zero_le _)
  change _ = text at split
  refine ⟨_, _, tiles, tail, d.rest, pieces, spanned, located,
    tiling_of_tiled covers tiled blankTail, split.symm, ?_, Cursor.own_cutAll _ own, ?_⟩
  · -- The cursor is past the last tile, so that all it has left is in the tail.
    intro c hc
    rw [lags.rest, covers, List.drop_append, List.drop_of_length_le (by simpa using last)] at hc
    exact blankTail c (List.mem_of_mem_drop hc)
  · intro k hk
    rw [List.length_map] at hk
    have reached : 0 + extent tiles (k + 1) ≤ 0 + _ := through k hk
    rw [Nat.zero_add, Nat.zero_add] at reached
    obtain ⟨more, hmore⟩ :=
      Piece.through_isPrefix ((Cursor.start text).cutAll (tiles.map Tile.spanned)) k
    rw [← hmore, List.flatMap_append, List.append_assoc] at split
    apply List.prefix_of_prefix_length_le (List.take_prefix _ text) ⟨_, split⟩
    exact (List.length_take_le _ _).trans reached

/-- The walk over the first lexeme goes on into the second line, and the pieces
of the others are empty. -/
theorem highlight_covers_drift :
    let text := ['a', 'b', '\n', 'c', ' ', 'd', '\n', '\n']
    let tokens := [.lexeme ⟨.name .varid, ⟨⟨1, 1⟩, ⟨1, 3⟩⟩, ['a', 'b']⟩,
      .lexeme ⟨.name .varid, ⟨⟨2, 1⟩, ⟨2, 2⟩⟩, ['c']⟩,
      .lexeme ⟨.name .varid, ⟨⟨2, 3⟩, ⟨2, 4⟩⟩, ['d']⟩,
      .lexeme ⟨.endOfText, ⟨⟨4, 1⟩, ⟨4, 1⟩⟩, []⟩]
    lex .permissive text = .ok tokens ∧
      ∃ pieces spans tiles tail rest, (highlightPieces .permissive text).value = .ok pieces ∧
        (lexSpans .permissive text).value = .ok spans ∧ located tokens = tiles.map Tile.lexeme ∧
        Tiling text tiles tail ∧ text = pieces.flatMap Piece.text ++ rest ∧
        (∀ c ∈ rest, isBlank c = true) ∧
        (pieces.filter (·.category ≠ .space)).map Piece.category = spans.map Prod.fst ∧
        ∀ k < spans.length,
          text.take (extent tiles (k + 1)) <+: (Piece.through pieces k).flatMap Piece.text := by
  intro text tokens
  have h : lex .permissive text = .ok tokens := by decide +kernel
  exact ⟨h, highlight_covers h⟩

end HaskellLexis
