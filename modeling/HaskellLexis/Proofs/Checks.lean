import HaskellLexis.Highlight
import HaskellLexis.Proofs.Tiling
import HaskellLexis.Proofs.Walk

/-!
# Spans that pass the checks

A slicer looks at the lines of the text to tell whether a span lies in it; the
lexer only ever counts on. Both agree on where the lines end.

* `Passes`: the five checks, said of the lines of the text;
* `error?_traceOver`: a slicer fails at the first span that does not pass;
* `lexed_spans_pass`: the spans of lexemes all do.
-/

namespace HaskellLexis

namespace Position

theorem next_col_congr {p q : Position} (h : p.col = q.col) (c : Char) :
    (p.next c).col = (q.next c).col := by
  simp only [next, h]
  split
  · rfl
  · split <;> rfl

end Position

/-- The column just past the last character of a line. -/
def lineEdge (line : List Char) : Int := (Position.origin.after line).col

/-- Walking over the text gives the same line ends as cutting it at its line
feeds. The first line may be entered at any column. -/
theorem lineEdges_of_splitOn {text l : List Char} {ls : List (List Char)}
    (h : text.splitOn '\n' = l :: ls) (p : Position) :
    lineEdges p.col text = (p.after l).col :: ls.map lineEdge := by
  induction text generalizing p l ls with
  | nil =>
    cases h
    rfl
  | cons c r ih =>
    obtain ⟨m, ms, hr⟩ := List.exists_cons_of_ne_nil (List.splitOn_ne_nil '\n' r)
    rw [List.splitOn_cons_eq_if_modifyHead] at h
    by_cases hf : c = '\n'
    · have feed : (c == '\n') = true := by simpa using hf
      rw [if_pos feed] at h
      cases h
      rw [lineEdges, if_pos hf, hr, List.map_cons]
      exact congrArg (p.col :: ·) (ih hr .origin)
    · have noFeed : ¬(c == '\n') = true := by simpa using hf
      rw [if_neg noFeed, hr] at h
      cases h
      rw [lineEdges, if_neg hf, Position.after_cons,
        Position.next_col_congr (p := ⟨1, p.col⟩) (q := p) rfl]
      exact ih hr (p.next c)

theorem lineEdges_eq (text : List Char) :
    lineEdges 1 text = (text.splitOn '\n').map lineEdge := by
  obtain ⟨l, ls, h⟩ := List.exists_cons_of_ne_nil (List.splitOn_ne_nil '\n' text)
  rw [h, List.map_cons]
  exact lineEdges_of_splitOn h .origin

theorem le_head_lineEdges (col : Int) (text : List Char) :
    ∃ edge, (lineEdges col text)[0]? = some edge ∧ col ≤ edge := by
  induction text generalizing col with
  | nil => exact ⟨col, rfl, Int.le_refl col⟩
  | cons c r ih =>
    by_cases hf : c = '\n'
    · exact ⟨col, by rw [lineEdges, if_pos hf]; rfl, Int.le_refl col⟩
    · obtain ⟨edge, he, hle⟩ := ih (Position.next ⟨1, col⟩ c).col
      have := Position.col_lt_next hf ⟨1, col⟩
      exact ⟨edge, by rw [lineEdges, if_neg hf]; exact he, by dsimp only at this; omega⟩

/-- Wherever reading leads, it leads to a line of the text and no further than
to the end of that line. -/
theorem lineEdges_after (p : Position) (xs ys : List Char) :
    ∃ k edge, (p.after xs).line = p.line + (k : Nat) ∧
      (lineEdges p.col (xs ++ ys))[k]? = some edge ∧ (p.after xs).col ≤ edge := by
  induction xs generalizing p with
  | nil =>
    obtain ⟨edge, he, hle⟩ := le_head_lineEdges p.col ys
    exact ⟨0, edge, (Int.add_zero _).symm, he, hle⟩
  | cons c xs ih =>
    obtain ⟨k, edge, line, he, hle⟩ := ih (p.next c)
    by_cases hf : c = '\n'
    · subst hf
      refine ⟨k + 1, edge, ?_, ?_, hle⟩
      · rw [Position.after_cons, line, Position.next_feed]
        push_cast
        omega
      · rw [List.cons_append, lineEdges, if_pos rfl]
        exact he
    · refine ⟨k, edge, ?_, ?_, hle⟩
      · rw [Position.after_cons, line, Position.next_line hf]
      · rw [List.cons_append, lineEdges, if_neg hf,
          Position.next_col_congr (p := ⟨1, p.col⟩) (q := p) rfl]
        exact he

/-- A position of the text lies on one of its lines. -/
theorem line_of_append {text xs ys : List Char} (h : text = xs ++ ys) :
    (Position.origin.after xs).line ≤ (text.splitOn '\n').length ∧
      ∃ line, (text.splitOn '\n')[((Position.origin.after xs).line - 1).toNat]? = some line ∧
        (Position.origin.after xs).col ≤ lineEdge line := by
  obtain ⟨k, edge, hk, he, hle⟩ := lineEdges_after .origin xs ys
  have number : (Position.origin.after xs).line = 1 + (k : Int) := hk
  have index : ((Position.origin.after xs).line - 1).toNat = k := by omega
  change (lineEdges 1 (xs ++ ys))[k]? = some edge at he
  rw [← h, lineEdges_eq, List.getElem?_map, Option.map_eq_some_iff] at he
  obtain ⟨line, hl, rfl⟩ := he
  obtain ⟨bound, -⟩ := List.getElem?_eq_some_iff.1 hl
  exact ⟨by omega, line, by rw [index]; exact hl, hle⟩

/-- The span may come after `previous`: its position is counted from one, its
end is not before its start nor its start before `previous`, and the text has
these lines, the first of them long enough. -/
structure Span.Passes (text : List Char) (previous : Position) (s : Span) : Prop where
  counted : s.start.Counted
  ordered : s.start ≤ s.stop
  apart : previous ≤ s.start
  lastLine : s.stop.line ≤ (text.splitOn '\n').length
  lineEnd : ∃ line, (text.splitOn '\n')[(s.start.line - 1).toNat]? = some line ∧
    s.start.col ≤ lineEdge line

/-- Every span passes after the one before it. -/
def AllPass (text : List Char) (previous : Position) : List (Category × Span) → Prop
  | [] => True
  | (_, s) :: more => s.Passes text previous ∧ AllPass text s.stop more

namespace Slicer

variable {text : List Char} {x : Slicer}

theorem ite_some_eq_none {α : Type} {p : Prop} [Decidable p] {a : α} {o : Option α} :
    (if p then some a else o) = none ↔ ¬p ∧ o = none := by
  by_cases h : p
  · simp [h]
  · simp [h]

theorem fault?_eq_none (h : x.edges = (lineEdges 1 text).toArray) (s : Span) :
    x.fault? s = none ↔ s.Passes text x.previous := by
  have size : x.edges.size = (text.splitOn '\n').length := by
    rw [h, lineEdges_eq, List.size_toArray, List.length_map]
  have edge {line : List Char}
      (hl : (text.splitOn '\n')[(s.start.line - 1).toNat]? = some line) :
      x.edge s.start.line = lineEdge line := by
    rw [Slicer.edge, h, lineEdges_eq, Array.getD_eq_getD_getElem?, List.getElem?_toArray,
      List.getElem?_map, hl]
    rfl
  simp only [fault?, ite_some_eq_none, Bool.or_eq_true, decide_eq_true_eq, and_true, size]
  constructor
  · rintro ⟨counted, ordered, apart, lastLine, lineEnd⟩
    have lines : s.start.line ≤ s.stop.line := by
      rw [Position.lt_def] at ordered
      omega
    have hl := List.getElem?_eq_getElem (l := text.splitOn '\n')
      (i := (s.start.line - 1).toNat) (by omega)
    rw [edge hl] at lineEnd
    exact ⟨⟨by omega, by omega⟩, ordered, apart, by omega, _, hl, by omega⟩
  · rintro ⟨⟨line, col⟩, ordered, apart, lastLine, l, hl, lineEnd⟩
    rw [edge hl]
    exact ⟨by omega, ordered, apart, by omega, by omega⟩

theorem traceOver_of_fault {category : Category} {s : Span} {todo : List (Category × Span)}
    {f : SpanFault} (h : x.fault? s = some f) :
    x.traceOver ((category, s) :: todo) = .failed ⟨s, f⟩ { x with spans := todo } := by
  change Slicer.fault? { x with spans := todo } s = some f at h
  simp only [traceOver, h]

theorem traceOver_of_sound {category : Category} {s : Span} {todo : List (Category × Span)}
    (h : x.fault? s = none) :
    x.traceOver ((category, s) :: todo) =
      .itemAll (piecesOf { x with spans := todo } category s).1
        ((piecesOf { x with spans := todo } category s).2.traceOver todo) := by
  change Slicer.fault? { x with spans := todo } s = none at h
  simp only [traceOver, h]

theorem error?_traceOver (h : x.edges = (lineEdges 1 text).toArray)
    (spans : List (Category × Span)) :
    (x.traceOver spans).error? = none ↔ AllPass text x.previous spans := by
  induction spans generalizing x with
  | nil => exact ⟨fun _ => trivial, fun _ => rfl⟩
  | cons cs todo ih =>
    obtain ⟨category, s⟩ := cs
    rw [AllPass, ← fault?_eq_none h]
    cases fault : x.fault? s with
    | some f => simp only [traceOver_of_fault fault, Trace.error?, reduceCtorEq, false_and]
    | none =>
      simp only [traceOver_of_sound fault, Trace.error?_itemAll, true_and]
      exact ih (x := (piecesOf { x with spans := todo } category s).2) h

theorem items_traceOver {spans : List (Category × Span)}
    (ok : (x.traceOver spans).error? = none) :
    (x.traceOver spans).items = x.cursor.cutAll spans := by
  induction spans generalizing x with
  | nil => rfl
  | cons cs todo ih =>
    obtain ⟨category, s⟩ := cs
    cases fault : x.fault? s with
    | some f =>
      rw [traceOver_of_fault fault] at ok
      cases ok
    | none =>
      rw [traceOver_of_sound fault, Trace.error?_itemAll] at ok
      obtain ⟨pieces, cursor⟩ := cut_of_piecesOf { x with spans := todo } category s
      rw [traceOver_of_sound fault, Trace.items_itemAll, ih ok, pieces, cursor]
      rfl

end Slicer

/-- What a tile gives to the slicer. -/
def Tile.spanned (t : Tile) : Category × Span := (t.lexeme.kind.category, t.lexeme.span)

theorem classifiedSpans_eq (tokens : List Token) :
    classifiedSpans tokens = (located tokens).map fun l => (l.kind.category, l.span) := by
  rw [located, ← List.filterMap_eq_map, ← List.filterMap_eq_filter, List.filterMap_filterMap,
    classifiedSpans]
  refine congrArg (List.filterMap · _) (funext fun l => ?_)
  by_cases h : l.kind = .endOfText
  · simp [h, Option.guard]
  · simp [h, Option.guard]

theorem passes_of_fits {text before behind : List Char} {t : Tile}
    (fits : t.Fits (Position.origin.after before)) (covers : text = before ++ (t.text ++ behind))
    {previous : Position} (apart : previous ≤ Position.origin.after before) :
    t.lexeme.span.Passes text previous where
  counted := by
    rw [fits.start]
    exact Position.counted_after ⟨Int.le_refl 1, Int.le_refl 1⟩ _
  ordered := by
    rw [fits.start, fits.stop, Tile.text, ← List.append_assoc,
      Position.after_append _ (before ++ t.gap)]
    exact Position.le_after _ _
  apart := by
    rw [fits.start, Position.after_append]
    exact le_trans apart (Position.le_after _ _)
  lastLine := by
    rw [← List.append_assoc] at covers
    rw [fits.stop]
    exact (line_of_append covers).1
  lineEnd := by
    rw [Tile.append_text] at covers
    rw [fits.start]
    exact (line_of_append covers).2

theorem allPass_of_tiled {text : List Char} (before : List Char) {tail : List Char}
    {tiles : List Tile} (tiled : Tiled (Position.origin.after before) tiles)
    (covers : text = before ++ (tiles.flatMap Tile.text ++ tail)) {previous : Position}
    (apart : previous ≤ Position.origin.after before) :
    AllPass text previous (tiles.map Tile.spanned) := by
  induction tiles generalizing before previous with
  | nil => trivial
  | cons t ts ih =>
    obtain ⟨fits, more⟩ := tiled
    rw [List.flatMap_cons, List.append_assoc] at covers
    refine ⟨passes_of_fits fits covers apart, ?_⟩
    rw [← Position.after_append] at more
    rw [← List.append_assoc] at covers
    exact ih _ more covers (le_of_eq fits.stop)

/-- What lexing and slicing a text come to, once it lexes. -/
theorem slices_of_lex {config : Config} {text : List Char} {tokens : List Token}
    (h : lex config text = .ok tokens) :
    ∃ tiles tail, located tokens = tiles.map Tile.lexeme ∧ Tiled .origin tiles ∧
      text = tiles.flatMap Tile.text ++ tail ∧ (∀ c ∈ tail, isBlank c = true) ∧
      (lexSpans config text).value = .ok (tiles.map Tile.spanned) ∧
      AllPass text .origin (tiles.map Tile.spanned) := by
  obtain ⟨body, tiles, tail, rfl, lexemes, tiled, covers, blankTail⟩ := tiled_of_lex h
  have located := located_of_tiled tiled lexemes text
  refine ⟨tiles, tail, located, tiled, covers, blankTail, ?_,
    allPass_of_tiled [] tiled covers (le_refl _)⟩
  have lexed : (lexLogged config text).value = _ := h
  simp only [lexSpans, lexed, classifiedSpans_eq, located, List.map_map]
  rfl

theorem lex_of_lexSpans {config : Config} {text : List Char} {spans : List (Category × Span)}
    (h : (lexSpans config text).value = .ok spans) : ∃ tokens, lex config text = .ok tokens := by
  cases lexed : lex config text with
  | ok tokens => exact ⟨tokens, rfl⟩
  | error e =>
    have logged : (lexLogged config text).value = _ := lexed
    simp only [lexSpans, logged, reduceCtorEq] at h

theorem highlightPieces_of_lexSpans {config : Config} {text : List Char}
    {spans : List (Category × Span)} (h : (lexSpans config text).value = .ok spans)
    (pass : AllPass text .origin spans) :
    (highlightPieces config text).value = .ok ((Cursor.start text).cutAll spans) := by
  have ok : (slice text spans).error? = none := (Slicer.error?_traceOver rfl _).2 pass
  have items : (slice text spans).items = (Cursor.start text).cutAll spans :=
    Slicer.items_traceOver ok
  simp only [highlightPieces, Logged.map, h, Trace.result, ok, items]
  rfl

theorem exists_pieces_of_lex {config : Config} {text : List Char} {tokens : List Token}
    (h : lex config text = .ok tokens) :
    ∃ pieces, (highlightPieces config text).value = .ok pieces := by
  obtain ⟨tiles, tail, -, -, -, -, spanned, pass⟩ := slices_of_lex h
  exact ⟨_, highlightPieces_of_lexSpans spanned pass⟩

theorem highlightPieces_of_error {config : Config} {text : List Char} {e : LexStop}
    (h : lex config text = .error e) :
    (highlightPieces config text).value = .error (.ofStop e) := by
  have logged : (lexLogged config text).value = .error e := h
  simp only [highlightPieces, Logged.map, lexSpans, logged]

/-- **Lexed spans are never refused.** Each span of a lexeme passes all checks
after the one before it, and so the text can be cut along them to the end. -/
theorem lexed_spans_pass {config : Config} {text : List Char}
    {spans : List (Category × Span)} (h : (lexSpans config text).value = .ok spans) :
    AllPass text .origin spans ∧ (slice text spans).error? = none := by
  obtain ⟨tokens, lexed⟩ := lex_of_lexSpans h
  obtain ⟨tiles, tail, -, -, -, -, spanned, pass⟩ := slices_of_lex lexed
  rw [spanned] at h
  cases h
  exact ⟨pass, (Slicer.error?_traceOver rfl _).2 pass⟩

/-- A comment over two lines, with tabs in it and behind it. The carriage return
ends no line. -/
theorem lexed_spans_pass_comment :
    let text := ['{', '-', '\n', '\t', '-', '}', '\r', '\t', 'x']
    let spans := [(.comment, ⟨⟨1, 1⟩, ⟨2, 11⟩⟩), (.variableName, ⟨⟨2, 17⟩, ⟨2, 18⟩⟩)]
    (lexSpans .permissive text).value = .ok spans ∧
      AllPass text .origin spans ∧ (slice text spans).error? = none := by
  intro text spans
  have h : (lexSpans .permissive text).value = .ok spans := by decide +kernel
  exact ⟨h, lexed_spans_pass h⟩

end HaskellLexis
