import Mathlib.Data.List.TakeWhile
import HaskellLexis.Proofs.Kinds
import HaskellLexis.Proofs.Order
import HaskellLexis.Proofs.Run

/-!
# Lexemes tile the text

A text that lexes is a row of tiles, each a lexeme with the blanks before it,
and blanks at its end. The span of a lexeme is where its characters stand.

* `Tiled`: tiles that lie one behind the other, from a position on;
* `Takes`, `Row`: a step of a lexer with its tile, and a row of them;
* `Tiling`: the same of a whole text, by offsets;
* `tiled_of_lex`: what lexing a text gives.
-/

namespace HaskellLexis

/-- A lexeme with the blanks before it. -/
structure Tile where
  gap : List Char
  lexeme : Lexeme

namespace Tile

def text (t : Tile) : List Char := t.gap ++ t.lexeme.text

/-- The tile begins at `p`. No lexeme is empty or begins with a blank. -/
structure Fits (p : Position) (t : Tile) : Prop where
  blank : ∀ c ∈ t.gap, isBlank c = true
  solid : ∃ c r, t.lexeme.text = c :: r ∧ isBlank c = false
  located : t.lexeme.span = ⟨p.after t.gap, p.after t.text⟩
  inner : t.lexeme.kind ≠ .endOfText

theorem append_text (before : List Char) (t : Tile) (behind : List Char) :
    before ++ (t.text ++ behind) = before ++ t.gap ++ (t.lexeme.text ++ behind) := by
  rw [text, List.append_assoc, List.append_assoc]

theorem Fits.start {t : Tile} {before : List Char} (h : t.Fits (Position.origin.after before)) :
    t.lexeme.span.start = Position.origin.after (before ++ t.gap) := by
  rw [h.located, Position.after_append]

theorem Fits.stop {t : Tile} {before : List Char} (h : t.Fits (Position.origin.after before)) :
    t.lexeme.span.stop = Position.origin.after (before ++ t.text) := by
  rw [h.located, Position.after_append]

/-- The span by offsets of the text in which the tile stands. -/
theorem Fits.span {text before behind : List Char} {t : Tile}
    (h : t.Fits (Position.origin.after before)) (covers : text = before ++ (t.text ++ behind)) :
    t.lexeme.span = ⟨Position.upTo text (before.length + t.gap.length),
      Position.upTo text (before.length + t.gap.length + t.lexeme.text.length)⟩ := by
  have atStart : text = before ++ t.gap ++ (t.lexeme.text ++ behind) := by
    rw [covers, append_text]
  have atStop : text = before ++ t.text ++ behind := by
    rw [covers, List.append_assoc]
  rw [Position.upTo_of_append atStart List.length_append.symm, Position.upTo_of_append atStop,
    ← h.start, ← h.stop]
  rw [List.length_append, Tile.text, List.length_append, Nat.add_assoc]

end Tile

/-- Each tile begins where the one before it ends. -/
def Tiled (p : Position) : List Tile → Prop
  | [] => True
  | t :: ts => t.Fits p ∧ Tiled (p.after t.text) ts

/-- The offset in the text at which the first `k` tiles end. -/
def extent (tiles : List Tile) (k : Nat) : Nat := ((tiles.take k).flatMap Tile.text).length

theorem extent_cons (t : Tile) (ts : List Tile) (k : Nat) :
    extent (t :: ts) (k + 1) = t.text.length + extent ts k := by
  rw [extent, List.take_succ_cons, List.flatMap_cons, List.length_append, extent]

/-- The tiles cover the text but for blanks at its end, and each span is given
by the offsets at which the characters of the lexeme begin and end. -/
structure Tiling (text : List Char) (tiles : List Tile) (tail : List Char) : Prop where
  covers : text = tiles.flatMap Tile.text ++ tail
  blank : ∀ t ∈ tiles, ∀ c ∈ t.gap, isBlank c = true
  blankTail : ∀ c ∈ tail, isBlank c = true
  solid : ∀ t ∈ tiles, t.lexeme.text ≠ []
  spans : ∀ k (h : k < tiles.length), tiles[k].lexeme.span =
    ⟨Position.upTo text (extent tiles k + tiles[k].gap.length),
      Position.upTo text (extent tiles k + tiles[k].gap.length + tiles[k].lexeme.text.length)⟩

theorem tile_of_step {x y : Lexer} {l : Lexeme} {out : List (Token × Lexer)}
    (h : Lexer.Step x l out y) :
    ∃ t : Tile, t.lexeme = l ∧ t.Fits x.here ∧ x.rest = t.text ++ y.rest ∧
      y.here = x.here.after t.text := by
  obtain ⟨front, scanned, cut⟩ := h
  rename_i c r k n y
  obtain ⟨rfl, rfl⟩ := Prod.mk.inj cut
  have gap := List.takeWhile_append_dropWhile (p := isBlank) (l := x.rest)
  rw [← Lexer.rest_skipBlanks] at gap
  have solid : isBlank c = false := by
    have := List.head?_dropWhile_not isBlank x.rest
    rw [← Lexer.rest_skipBlanks, front] at this
    simpa using this
  have here : (x.skipBlanks.consume (n + 1)).here =
      x.here.after (x.rest.takeWhile isBlank ++ x.skipBlanks.rest.take (n + 1)) := by
    rw [Position.after_append, ← Lexer.here_skipBlanks]
    rfl
  refine ⟨⟨x.rest.takeWhile isBlank, _⟩, rfl, ⟨?_, ?_, ?_, ?_⟩, ?_, ?_⟩
  · exact fun _ => List.mem_takeWhile_imp
  · exact ⟨c, r.take n, by simp [front], solid⟩
  · change Span.mk x.skipBlanks.here (x.skipBlanks.consume (n + 1)).here = _
    rw [here, Lexer.here_skipBlanks]
    rfl
  · exact Lexeme.scan_ne_end scanned
  · rw [Lexer.rest_emit]
    change x.rest = (_ ++ x.skipBlanks.rest.take (n + 1)) ++ x.skipBlanks.rest.drop (n + 1)
    rw [List.append_assoc, List.take_append_drop, gap]
  · rw [Lexer.here_emit]
    exact here

namespace Lexer

/-- The lexer takes the lexeme of a tile, and the blanks before it. -/
structure Takes (x : Lexer) (t : Tile) (out : List (Token × Lexer)) (y : Lexer) : Prop where
  step : Step x t.lexeme out y
  fits : t.Fits x.here
  rest : x.rest = t.text ++ y.rest
  here : y.here = x.here.after t.text

/-- The steps from one lexer to another, as tiles. -/
inductive Row : Lexer → List Tile → Lexer → Prop where
  | stay (x : Lexer) : Row x [] x
  | step {x y z : Lexer} {t : Tile} {ts : List Tile} {out : List (Token × Lexer)}
      (taken : Takes x t out y) : Row y ts z → Row x (t :: ts) z

variable {x y : Lexer}

theorem row_of_run {ls : List Lexeme} {out : List (Token × Lexer)} (h : Run x ls out y) :
    ∃ tiles : List Tile, tiles.map Tile.lexeme = ls ∧ Row x tiles y := by
  induction h with
  | stay x => exact ⟨[], rfl, .stay x⟩
  | step s _ ih =>
    obtain ⟨t, rfl, fits, rest, here⟩ := tile_of_step s
    obtain ⟨tiles, rfl, row⟩ := ih
    exact ⟨t :: tiles, rfl, .step ⟨s, fits, rest, here⟩ row⟩

theorem tiled_of_row {tiles : List Tile} (h : Row x tiles y) :
    Tiled x.here tiles ∧ x.rest = tiles.flatMap Tile.text ++ y.rest ∧
      y.here = x.here.after (tiles.flatMap Tile.text) := by
  induction h with
  | stay x => exact ⟨trivial, rfl, rfl⟩
  | step taken row ih =>
    obtain ⟨tiled, rest, here⟩ := ih
    rw [taken.here] at tiled here
    refine ⟨⟨taken.fits, tiled⟩, ?_, ?_⟩
    · rw [taken.rest, rest, List.flatMap_cons, List.append_assoc]
    · rw [here, List.flatMap_cons, Position.after_append]

end Lexer

theorem tiled_of_run {x y : Lexer} {ls : List Lexeme} {out : List (Token × Lexer)}
    (h : Lexer.Run x ls out y) :
    ∃ tiles : List Tile, tiles.map Tile.lexeme = ls ∧ Tiled x.here tiles ∧
      x.rest = tiles.flatMap Tile.text ++ y.rest ∧
      y.here = x.here.after (tiles.flatMap Tile.text) := by
  obtain ⟨tiles, lexemes, row⟩ := Lexer.row_of_run h
  exact ⟨tiles, lexemes, Lexer.tiled_of_row row⟩

/-- The lexemes that stand in the text, without its end. -/
def located (tokens : List Token) : List Lexeme :=
  (tokens.filterMap Token.lexeme?).filter (·.kind ≠ .endOfText)

/-- The end of the text as a lexeme. -/
def Lexeme.atEnd (text : List Char) : Lexeme :=
  ⟨.endOfText, ⟨Position.upTo text text.length, Position.upTo text text.length⟩, []⟩

theorem fits_of_tiled {p : Position} {tiles : List Tile} (h : Tiled p tiles) {k : Nat}
    (hk : k < tiles.length) :
    tiles[k].Fits (p.after ((tiles.take k).flatMap Tile.text)) := by
  induction tiles generalizing p k with
  | nil => cases hk
  | cons t ts ih =>
    cases k with
    | zero => exact h.1
    | succ k =>
      have := ih h.2 (Nat.lt_of_succ_lt_succ hk)
      rwa [← Position.after_append] at this

theorem tiled_of_lex {config : Config} {text : List Char} {tokens : List Token}
    (h : lex config text = .ok tokens) :
    ∃ body tiles tail, tokens = body ++ [.lexeme (Lexeme.atEnd text)] ∧
      body.filterMap Token.lexeme? = tiles.map Tile.lexeme ∧ Tiled .origin tiles ∧
      text = tiles.flatMap Tile.text ++ tail ∧ ∀ c ∈ tail, isBlank c = true := by
  obtain ⟨ls, out, y, run, used, -, rfl⟩ := run_of_lex h
  obtain ⟨tiles, htiles, tiled, rest, here⟩ := tiled_of_run run
  have blank : y.rest.takeWhile isBlank = y.rest := by
    have whole := List.takeWhile_append_dropWhile (p := isBlank) (l := y.rest)
    rwa [← Lexer.rest_skipBlanks, used, List.append_nil] at whole
  have stop : y.skipBlanks.here = Position.upTo text text.length := by
    rw [Lexer.here_skipBlanks, blank, here, ← Position.after_append, ← rest, Position.upTo,
      List.take_length]
    rfl
  refine ⟨_, tiles, y.rest, by rw [stop]; rfl, ?_, tiled, rest, ?_⟩
  · rw [List.filterMap_append, Lexer.run_lexemes run, htiles, List.append_right_eq_self]
    exact Lexer.lexemes_braces _
  · rw [← blank]
    exact fun _ => List.mem_takeWhile_imp

theorem located_of_tiled {p : Position} {tiles : List Tile} (tiled : Tiled p tiles)
    {body : List Token} (h : body.filterMap Token.lexeme? = tiles.map Tile.lexeme)
    (text : List Char) :
    located (body ++ [.lexeme (Lexeme.atEnd text)]) = tiles.map Tile.lexeme := by
  have inner : ∀ l ∈ tiles.map Tile.lexeme, decide (l.kind ≠ .endOfText) = true := by
    intro l hl
    obtain ⟨t, ht, rfl⟩ := List.mem_map.1 hl
    obtain ⟨k, hk, rfl⟩ := List.getElem_of_mem ht
    exact decide_eq_true (fits_of_tiled tiled hk).inner
  rw [located, List.filterMap_append, h, List.filter_append, List.filter_eq_self.2 inner]
  exact List.append_nil _

section

variable {x y : Lexer} {ls : List Lexeme} {out : List (Token × Lexer)} {tokens : List Token}
  {p : Position}

theorem inner_of_run (run : Lexer.Run x ls out y) : ∀ l ∈ ls, l.kind ≠ .endOfText := by
  obtain ⟨tiles, rfl, tiled, -, -⟩ := tiled_of_run run
  intro l hl
  obtain ⟨t, ht, rfl⟩ := List.mem_map.1 hl
  obtain ⟨k, hk, rfl⟩ := List.getElem_of_mem ht
  exact (fits_of_tiled tiled hk).inner

theorem located_of_lexemes (run : Lexer.Run x ls out y)
    (h : tokens.filterMap Token.lexeme? = ls ++ [⟨.endOfText, ⟨p, p⟩, []⟩]) :
    located tokens = ls := by
  have inner : ∀ l ∈ ls, decide (l.kind ≠ .endOfText) = true :=
    fun l hl => decide_eq_true (inner_of_run run l hl)
  rw [located, h, List.filter_append, List.filter_eq_self.2 inner]
  exact List.append_nil ls

/-- The lexemes of a run are those that are delivered, but for the end. -/
theorem located_of_run (run : Lexer.Run x ls out y) (braces : List (Brace × Layout)) :
    located (out.map Prod.fst ++ braces.map (fun b => Token.virtual b.1) ++
      [.lexeme ⟨.endOfText, ⟨p, p⟩, []⟩]) = ls := by
  apply located_of_lexemes run
  rw [List.filterMap_append, List.filterMap_append, Lexer.run_lexemes run, Lexer.lexemes_braces,
    List.append_nil]
  rfl

theorem lex_of_run {config : Config} {text : List Char}
    (run : Lexer.Run (Lexer.start config text) ls out y) (used : y.skipBlanks.rest = [])
    (closed : y.skipBlanks.pragma = none) :
    ∃ tokens, lex config text = .ok tokens ∧ located tokens = ls := by
  obtain ⟨items, error⟩ := Lexer.trace_of_run run
  obtain ⟨last, ok⟩ := Lexer.atEnd_of_none closed
  rw [Lexer.trace_of_nil used] at items error
  rw [last] at items
  rw [ok] at error
  refine ⟨(Lexer.start config text).trace.items, ?_, located_of_lexemes run items⟩
  rw [lex, Trace.result, error]
  rfl

end

/-- A row of tiles around one of them. -/
theorem flatMap_around {tiles : List Tile} {k : Nat} (hk : k < tiles.length) :
    tiles.flatMap Tile.text = (tiles.take k).flatMap Tile.text ++
      (tiles[k].text ++ (tiles.drop (k + 1)).flatMap Tile.text) := by
  have whole := congrArg (List.flatMap Tile.text) (List.take_append_drop k tiles)
  rw [List.drop_eq_getElem_cons hk, List.flatMap_append, List.flatMap_cons] at whole
  exact whole.symm

theorem tiling_of_tiled {text : List Char} {tiles : List Tile} {tail : List Char}
    (covers : text = tiles.flatMap Tile.text ++ tail) (tiled : Tiled .origin tiles)
    (blankTail : ∀ c ∈ tail, isBlank c = true) : Tiling text tiles tail := by
  have fits {t : Tile} (ht : t ∈ tiles) : ∃ p, t.Fits p := by
    obtain ⟨k, hk, rfl⟩ := List.getElem_of_mem ht
    exact ⟨_, fits_of_tiled tiled hk⟩
  refine ⟨covers, ?_, blankTail, ?_, ?_⟩
  · intro t ht
    obtain ⟨p, hf⟩ := fits ht
    exact hf.blank
  · intro t ht
    obtain ⟨p, hf⟩ := fits ht
    obtain ⟨c, r, hc, -⟩ := hf.solid
    simp [hc]
  · intro k hk
    have around : text = (tiles.take k).flatMap Tile.text ++
        (tiles[k].text ++ ((tiles.drop (k + 1)).flatMap Tile.text ++ tail)) := by
      rw [covers, flatMap_around hk, List.append_assoc, List.append_assoc]
    exact (fits_of_tiled tiled hk).span around

/-- **Lexemes tile the text.** The tokens of a text are lexemes and braces and
then one end of the text, which takes no width. The lexemes are non-empty pieces
of the text in order, with nothing but blanks in between, and their spans say
exactly where they stand. -/
theorem lex_tiles {config : Config} {text : List Char} {tokens : List Token}
    (h : lex config text = .ok tokens) :
    ∃ body tiles tail, tokens = body ++ [.lexeme (Lexeme.atEnd text)] ∧
      (∀ t ∈ body, t.kind ≠ .endOfText) ∧
      located tokens = tiles.map Tile.lexeme ∧ Tiling text tiles tail := by
  obtain ⟨body, tiles, tail, rfl, lexemes, tiled, covers, blankTail⟩ := tiled_of_lex h
  refine ⟨body, tiles, tail, rfl, ?_, located_of_tiled tiled lexemes text,
    tiling_of_tiled covers tiled blankTail⟩
  intro t ht
  cases t with
  | virtual b => cases b <;> simp [Token.kind]
  | lexeme l =>
    have hl : l ∈ tiles.map Tile.lexeme := by
      rw [← lexemes]
      exact List.mem_filterMap.2 ⟨_, ht, rfl⟩
    obtain ⟨tile, mem, rfl⟩ := List.mem_map.1 hl
    obtain ⟨k, hk, rfl⟩ := List.getElem_of_mem mem
    exact (fits_of_tiled tiled hk).inner

/-- Tabs before lexemes, a block that indentation opens, and a blank at the end. -/
theorem lex_tiles_block :
    let text := ['f', '\t', '=', 'd', 'o', '\n', '\t', 'x', '\n']
    let tokens := [.lexeme ⟨.name .varid, ⟨⟨1, 1⟩, ⟨1, 2⟩⟩, ['f']⟩,
      .lexeme ⟨.operator .equal, ⟨⟨1, 9⟩, ⟨1, 10⟩⟩, ['=']⟩,
      .lexeme ⟨.keyword .doKw, ⟨⟨1, 10⟩, ⟨1, 12⟩⟩, ['d', 'o']⟩, .virtual .opening,
      .lexeme ⟨.name .varid, ⟨⟨2, 9⟩, ⟨2, 10⟩⟩, ['x']⟩, .virtual .closing,
      .lexeme ⟨.endOfText, ⟨⟨3, 1⟩, ⟨3, 1⟩⟩, []⟩]
    lex .permissive text = .ok tokens ∧
      ∃ body tiles tail, tokens = body ++ [.lexeme (Lexeme.atEnd text)] ∧
        (∀ t ∈ body, t.kind ≠ .endOfText) ∧
        located tokens = tiles.map Tile.lexeme ∧ Tiling text tiles tail := by
  intro text tokens
  have h : lex .permissive text = .ok tokens := by decide +kernel
  exact ⟨h, lex_tiles h⟩

end HaskellLexis
