import HaskellLexis.Session
import HaskellLexis.Proofs.Coverage
import HaskellLexis.Proofs.LongNumerals

/-!
# What the HTML shows

Without its `span` tags the HTML of a text is the text, escaped. Escaping goes
character by character and leaves no `<`, so that every tag found is one that
was put there.

* `Html.strip`: a markup without its `span` tags;
* `Html.Whole`: a markup in which no tag is cut off, so that tags can be taken
  out of it part by part;
* `strip_renderLines`: line by line, the lines shown are those of the escaped text;
* `shown_text`: the whole text is shown, and nothing else.
-/

namespace HaskellLexis

namespace Html

def openMark : List Char := ['<', 's', 'p', 'a', 'n', ' ']

def closeMark : List Char := ['<', '/', 's', 'p', 'a', 'n', '>']

/-- The length of a `span` tag at the front of a markup. -/
def tagLength? (s : List Char) : Option Nat :=
  if closeMark.isPrefixOf s then some closeMark.length
  else if openMark.isPrefixOf s then (offsetOf? ['>'] s).map (· + 1)
  else none

/-- The first `n` characters are left out, and so is every tag from there on. -/
def stripFrom : Nat → List Char → List Char
  | _, [] => []
  | n + 1, _ :: r => stripFrom n r
  | 0, c :: r =>
    match tagLength? (c :: r) with
    | some n => stripFrom (n - 1) r
    | none => c :: stripFrom 0 r

/-- A markup without its tags `<span …>` and `</span>`. -/
def strip (s : List Char) : List Char := stripFrom 0 s

/-- All tags that begin in `m` end in it, whatever is put behind. -/
def Whole (m : List Char) : Prop := ∀ rest, strip (m ++ rest) = strip m ++ strip rest

variable {cls m m' s text : List Char}

/-! ## Tags -/

theorem stripFrom_drop (n : Nat) (s : List Char) : stripFrom n s = strip (s.drop n) := by
  induction n generalizing s with
  | zero => rfl
  | succ n ih =>
    cases s with
    | nil => rfl
    | cons c r => exact ih r

theorem strip_nil : strip [] = [] := rfl

theorem strip_tag {n : Nat} (h : tagLength? s = some (n + 1)) :
    strip s = strip (s.drop (n + 1)) := by
  cases s with
  | nil => rfl
  | cons c r =>
    rw [strip, stripFrom, h]
    exact stripFrom_drop n r

theorem strip_cons {c : Char} (h : c ≠ '<') (r : List Char) : strip (c :: r) = c :: strip r := by
  have none : tagLength? (c :: r) = none := by
    simp [tagLength?, openMark, closeMark, h.symm]
  rw [strip, stripFrom, none]
  rfl

theorem strip_close (r : List Char) : strip (closeMark ++ r) = strip r :=
  strip_tag (n := 6) (by simp [tagLength?, closeMark])

theorem offsetOf?_append {c : Char} (h : c ∉ s) (r : List Char) :
    offsetOf? [c] (s ++ c :: r) = some s.length := by
  induction s with
  | nil => simp [offsetOf?]
  | cons d s ih =>
    obtain ⟨ne, more⟩ := List.ne_and_not_mem_of_not_mem_cons h
    simp [offsetOf?, ne, ih more]

theorem strip_open (h : '>' ∉ s) (r : List Char) :
    strip (openMark ++ s ++ '>' :: r) = strip r := by
  have inside : '>' ∉ openMark ++ s := by simp [openMark, h]
  have tag : tagLength? (openMark ++ s ++ '>' :: r) = some ((openMark ++ s).length + 1) := by
    rw [tagLength?, offsetOf?_append inside]
    simp [openMark, closeMark]
  rw [strip_tag tag, ← List.drop_drop, List.drop_left]
  rfl

namespace Whole

theorem nil : Whole [] := fun _ => rfl

theorem append (h : Whole m) (h' : Whole m') : Whole (m ++ m') := by
  intro rest
  rw [List.append_assoc, h, h', h, List.append_assoc]

end Whole

/-- A text without `<` has no tags. -/
theorem strip_plain (h : '<' ∉ s) (rest : List Char) : strip (s ++ rest) = s ++ strip rest := by
  induction s with
  | nil => rfl
  | cons c s ih =>
    obtain ⟨ne, more⟩ := List.ne_and_not_mem_of_not_mem_cons h
    rw [List.cons_append, strip_cons ne.symm, ih more, List.cons_append]

theorem strip_of_plain (h : '<' ∉ s) : strip s = s := by
  have alone := strip_plain h []
  rwa [List.append_nil, strip_nil, List.append_nil] at alone

theorem whole_of_plain (h : '<' ∉ s) : Whole s := by
  intro rest
  rw [strip_plain h, strip_of_plain h]

/-- A text in an element is the text. -/
theorem strip_spanOf (h : '>' ∉ cls) (whole : Whole m) (rest : List Char) :
    strip (spanOf cls m ++ rest) = strip m ++ strip rest := by
  have shape : spanOf cls m ++ rest =
      openMark ++ (['c', 'l', 'a', 's', 's', '=', '"'] ++ cls ++ ['"']) ++
        '>' :: (m ++ (closeMark ++ rest)) := by
    have parts : spanOf cls m = openMark ++ ['c', 'l', 'a', 's', 's', '=', '"'] ++ cls ++
        ['"', '>'] ++ m ++ closeMark := rfl
    rw [parts]
    simp only [List.append_assoc, List.cons_append, List.nil_append]
  have inside : '>' ∉ ['c', 'l', 'a', 's', 's', '=', '"'] ++ cls ++ ['"'] := by simp [h]
  rw [shape, strip_open inside, whole, strip_close]

theorem whole_spanOf (h : '>' ∉ cls) (whole : Whole m) :
    Whole (spanOf cls m) ∧ strip (spanOf cls m) = strip m := by
  have same := strip_spanOf h whole []
  rw [strip_nil, List.append_nil, List.append_nil] at same
  refine ⟨?_, same⟩
  intro rest
  rw [strip_spanOf h whole, same]

/-! ## Escaped texts -/

theorem forall_of_spelled {l : List Char} (h : l.all (fun d => d ≠ '<' && d ≠ '\n') = true) :
    ∀ d ∈ l, d ≠ '<' ∧ d ≠ '\n' := by
  intro d hd
  simpa using List.all_eq_true.1 h d hd

/-- A character stands for itself, or is spelled out in others. -/
theorem escapeChar_cases (c : Char) :
    escapeChar c = [c] ∧ c ≠ '<' ∨ c ≠ '\n' ∧ ∀ d ∈ escapeChar c, d ≠ '<' ∧ d ≠ '\n' := by
  unfold escapeChar
  split
  · rename_i h
    subst h
    exact .inr ⟨by decide, forall_of_spelled (by decide)⟩
  split
  · rename_i h
    subst h
    exact .inr ⟨by decide, forall_of_spelled (by decide)⟩
  split
  · rename_i h
    subst h
    exact .inr ⟨by decide, forall_of_spelled (by decide)⟩
  split
  · rename_i h
    subst h
    exact .inr ⟨by decide, forall_of_spelled (by decide)⟩
  split
  · rename_i h
    subst h
    exact .inr ⟨by decide, forall_of_spelled (by decide)⟩
  · rename_i noLess _ _ _
    exact .inl ⟨rfl, noLess⟩

theorem escape_plain (s : List Char) : '<' ∉ escape s := by
  rw [escape, List.mem_flatMap]
  rintro ⟨c, -, mem⟩
  obtain ⟨eq, ne⟩ | ⟨-, others⟩ := escapeChar_cases c
  · rw [eq, List.mem_singleton] at mem
    exact ne mem.symm
  · exact (others _ mem).1 rfl

theorem escape_append (s s' : List Char) : escape (s ++ s') = escape s ++ escape s' :=
  List.flatMap_append

/-! ## Lines -/

theorem splitLines_ne_nil (s : List Char) : splitLines s ≠ [] := by
  unfold splitLines
  split
  · exact List.cons_ne_nil _ _
  split
  · exact List.cons_ne_nil _ _
  · split <;> exact List.cons_ne_nil _ _

theorem splitLines_feed (r : List Char) : splitLines ('\n' :: r) = [] :: splitLines r := rfl

theorem splitLines_cons {c : Char} (h : c ≠ '\n') (r : List Char) :
    splitLines (c :: r) = joinLines [[c]] (splitLines r) := by
  rw [splitLines, if_neg h]
  cases eq : splitLines r with
  | nil => rfl
  | cons l ls => rfl

theorem joinLines_cons {l : List Char} {ls : List (List Char)} (h : ls ≠ [])
    (ms : List (List Char)) : joinLines (l :: ls) ms = l :: joinLines ls ms := by
  cases ls with
  | nil => exact absurd rfl h
  | cons m ls => rfl

theorem joinLines_ne_nil {ls ms : List (List Char)} (h : ms ≠ []) : joinLines ls ms ≠ [] := by
  fun_cases joinLines ls ms
  · exact h
  all_goals exact List.cons_ne_nil _ _

theorem joinLines_assoc {ls ms ns : List (List Char)} (h : ms ≠ []) :
    joinLines (joinLines ls ms) ns = joinLines ls (joinLines ms ns) := by
  induction ls with
  | nil => rfl
  | cons l ls ih =>
    cases ls with
    | nil =>
      obtain ⟨m, ms, rfl⟩ := List.exists_cons_of_ne_nil h
      cases ms with
      | nil =>
        cases ns with
        | nil => rfl
        | cons n ns => exact congrArg (· :: ns) (List.append_assoc l m n)
      | cons m' ms =>
        rw [joinLines_cons (List.cons_ne_nil m' ms)]
        exact joinLines_cons (List.cons_ne_nil m' ms) ns
    | cons l' ls =>
      rw [joinLines_cons (List.cons_ne_nil l' ls), joinLines_cons (List.cons_ne_nil l' ls),
        joinLines_cons (joinLines_ne_nil h), ih]

theorem splitLines_append (s s' : List Char) :
    splitLines (s ++ s') = joinLines (splitLines s) (splitLines s') := by
  induction s with
  | nil =>
    cases eq : splitLines s' with
    | nil => exact absurd eq (splitLines_ne_nil s')
    | cons l ls => rw [List.nil_append, eq]; rfl
  | cons c s ih =>
    by_cases feed : c = '\n'
    · subst feed
      rw [List.cons_append, splitLines_feed, splitLines_feed, ih,
        joinLines_cons (splitLines_ne_nil s)]
    · rw [List.cons_append, splitLines_cons feed, splitLines_cons feed, ih,
        joinLines_assoc (splitLines_ne_nil s)]

theorem splitLines_plain (h : '\n' ∉ s) : splitLines s = [s] := by
  induction s with
  | nil => rfl
  | cons c s ih =>
    obtain ⟨ne, more⟩ := List.ne_and_not_mem_of_not_mem_cons h
    rw [splitLines_cons ne.symm, ih more]
    rfl

theorem map_joinLines (f : List Char → List Char) {ls ms : List (List Char)}
    (h : ∀ l ∈ ls, ∀ m, f (l ++ m) = f l ++ f m) :
    (joinLines ls ms).map f = joinLines (ls.map f) (ms.map f) := by
  induction ls with
  | nil => rfl
  | cons l ls ih =>
    cases ls with
    | nil =>
      cases ms with
      | nil => rfl
      | cons m ms => exact congrArg (· :: ms.map f) (h l List.mem_cons_self m)
    | cons l' ls =>
      have rest := ih fun k hk => h k (List.mem_cons_of_mem l hk)
      rw [joinLines_cons (List.cons_ne_nil l' ls), List.map_cons, rest]
      exact (joinLines_cons (List.cons_ne_nil (f l') (ls.map f)) (ms.map f)).symm

/-- Escaping spells out characters and makes no new lines. -/
theorem splitLines_escape (s : List Char) : splitLines (escape s) = (splitLines s).map escape := by
  induction s with
  | nil => rfl
  | cons c s ih =>
    rw [escape, List.flatMap_cons, splitLines_append, ← escape, ih]
    by_cases feed : c = '\n'
    · subst feed
      obtain ⟨l, ls, eq⟩ := List.exists_cons_of_ne_nil (splitLines_ne_nil s)
      rw [splitLines_feed, eq]
      rfl
    · have plain : '\n' ∉ escapeChar c := by
        obtain ⟨eq, -⟩ | ⟨-, others⟩ := escapeChar_cases c
        · rw [eq, List.mem_singleton]
          exact Ne.symm feed
        · exact fun mem => (others _ mem).2 rfl
      have line : [escapeChar c] = [[c]].map escape := by
        rw [List.map_singleton, escape, List.flatMap_singleton]
      rw [splitLines_plain plain, splitLines_cons feed, line,
        map_joinLines escape fun l _ m => escape_append l m]

theorem join_cons (l m : List Char) (ls : List (List Char)) :
    joinWithLineFeeds (l :: m :: ls) = l ++ '\n' :: joinWithLineFeeds (m :: ls) := rfl

theorem join_single (l : List Char) : joinWithLineFeeds [l] = l := List.intercalate_singleton

theorem join_joinLines {ls ms : List (List Char)} (h : ls ≠ []) (h' : ms ≠ []) :
    joinWithLineFeeds (joinLines ls ms) = joinWithLineFeeds ls ++ joinWithLineFeeds ms := by
  induction ls with
  | nil => exact absurd rfl h
  | cons l ls ih =>
    cases ls with
    | nil =>
      obtain ⟨m, ms, rfl⟩ := List.exists_cons_of_ne_nil h'
      cases ms with
      | nil =>
        rw [join_single, join_single]
        exact join_single (l ++ m)
      | cons m' ms =>
        rw [join_single, join_cons, ← List.append_assoc]
        exact join_cons (l ++ m) m' ms
    | cons l' ls =>
      have rest := ih (List.cons_ne_nil l' ls)
      have some : joinLines (l' :: ls) ms ≠ [] := joinLines_ne_nil h'
      obtain ⟨k, ks, eq⟩ := List.exists_cons_of_ne_nil some
      rw [joinLines_cons (List.cons_ne_nil l' ls), eq, join_cons, ← eq, rest, join_cons,
        List.append_assoc, List.cons_append]

/-- A text is its lines, with line feeds in between. -/
theorem join_splitLines (s : List Char) : joinWithLineFeeds (splitLines s) = s := by
  induction s with
  | nil => rfl
  | cons c s ih =>
    by_cases feed : c = '\n'
    · subst feed
      obtain ⟨l, ls, eq⟩ := List.exists_cons_of_ne_nil (splitLines_ne_nil s)
      rw [splitLines_feed, eq, join_cons, ← eq, ih]
      rfl
    · rw [splitLines_cons feed, join_joinLines (List.cons_ne_nil _ _) (splitLines_ne_nil s), ih]
      rfl

/-! ## Rendering -/

/-- What holds of all lines, and of two that are put together, holds of the
lines that come of it. -/
theorem mem_joinLines {P : List Char → Prop} (append : ∀ l m, P l → P m → P (l ++ m))
    {ls ms : List (List Char)} (h : ∀ l ∈ ls, P l) (h' : ∀ m ∈ ms, P m) :
    ∀ k ∈ joinLines ls ms, P k := by
  fun_induction joinLines ls ms with
  | case1 ms => exact h'
  | case2 l => exact h
  | case3 l m ms =>
    intro k hk
    obtain rfl | later := List.mem_cons.1 hk
    · exact append l m (h l List.mem_cons_self) (h' m List.mem_cons_self)
    · exact h' k (List.mem_cons_of_mem m later)
  | case4 l ls ms noOne noOther ih =>
    intro k hk
    obtain rfl | later := List.mem_cons.1 hk
    · exact h k List.mem_cons_self
    · exact ih (fun k hk => h k (List.mem_cons_of_mem l hk)) h' k later

theorem whole_markPart (category : Option Category) (part : List Char) :
    Whole (markPart category part) ∧ strip (markPart category part) = escape part := by
  have plain := escape_plain part
  have escaped := And.intro (whole_of_plain plain) (strip_of_plain plain)
  unfold markPart
  split
  · exact escaped
  · exact escaped
  split
  · rename_i none
    subst none
    exact ⟨.nil, rfl⟩
  · rename_i c _ _
    have cls : '>' ∉ ("hs-" ++ c.tag).toList := by cases c <;> decide
    have shown := whole_spanOf cls escaped.1
    exact ⟨shown.1, shown.2.trans escaped.2⟩

/-- Line by line, what is shown is the escaped text. -/
theorem strip_markLines (parts : List (Option Category × List Char)) :
    (∀ l ∈ markLines parts, Whole l) ∧
      (markLines parts).map strip = splitLines (escape (parts.flatMap Prod.snd)) := by
  induction parts with
  | nil =>
    refine ⟨?_, rfl⟩
    intro l hl
    obtain rfl := List.mem_singleton.1 hl
    exact .nil
  | cons part parts ih =>
    obtain ⟨category, text⟩ := part
    have whole : ∀ l ∈ (splitLines text).map (markPart category), Whole l := by
      intro l hl
      obtain ⟨k, -, rfl⟩ := List.mem_map.1 hl
      exact (whole_markPart category k).1
    have lines : ((splitLines text).map (markPart category)).map strip =
        splitLines (escape text) := by
      rw [splitLines_escape, List.map_map]
      exact List.map_congr_left fun l _ => (whole_markPart category l).2
    refine ⟨mem_joinLines (fun _ _ => Whole.append) whole ih.1, ?_⟩
    rw [markLines, map_joinLines strip fun l hl m => whole l hl m, lines, ih.2, List.flatMap_cons,
      escape_append, splitLines_append]

/-- The pieces and what they leave uncovered. -/
theorem strip_renderLines (text : List Char) (pieces : List Piece) :
    (∀ l ∈ renderLines text pieces, Whole l) ∧
      (renderLines text pieces).map strip =
        splitLines (escape (pieces.flatMap Piece.text ++ text.drop (coveredLength pieces))) := by
  unfold renderLines
  dsimp only
  have covered : (pieces.map fun p => (some p.category, p.text)).flatMap Prod.snd =
      pieces.flatMap Piece.text := by
    rw [List.flatMap_map]
  have rest (tail : List Char) :
      (if tail = [] then [] else [((none : Option Category), tail)]).flatMap Prod.snd = tail := by
    by_cases h : tail = []
    · rw [if_pos h, h]
      rfl
    · rw [if_neg h, List.flatMap_singleton]
  obtain ⟨whole, lines⟩ := strip_markLines (_ ++ if text.drop (coveredLength pieces) = [] then []
    else [(none, text.drop (coveredLength pieces))])
  rw [List.flatMap_append, covered, rest] at lines
  exact ⟨whole, lines⟩

theorem strip_emphasise (emphasised : List Int) (number : Nat) (h : Whole m) :
    Whole (emphasise emphasised number m) ∧ strip (emphasise emphasised number m) = strip m := by
  unfold emphasise
  split
  · exact whole_spanOf (by decide) h
  · exact ⟨h, rfl⟩

/-- Emphasis changes nothing in what a line shows. -/
theorem strip_decorate (emphasised : List Int) {lines : List (List Char)}
    (h : ∀ l ∈ lines, Whole l) :
    (∀ l ∈ decorate emphasised false lines, Whole l) ∧
      (decorate emphasised false lines).map strip = lines.map strip := by
  have shape : decorate emphasised false lines =
      lines.mapIdx fun i line => emphasise emphasised (i + 1) line := rfl
  rw [shape]
  constructor
  · intro l hl
    obtain ⟨i, bound, rfl⟩ := List.mem_mapIdx.1 hl
    exact (strip_emphasise emphasised (i + 1) (h _ (List.getElem_mem bound))).1
  · apply List.ext_getElem
    · simp
    · intro i bound bound'
      simp only [List.getElem_map, List.getElem_mapIdx]
      exact (strip_emphasise emphasised (i + 1) (h _ (List.getElem_mem _))).2

theorem strip_join {lines : List (List Char)} (h : ∀ l ∈ lines, Whole l) :
    strip (joinWithLineFeeds lines) = joinWithLineFeeds (lines.map strip) := by
  induction lines with
  | nil => rfl
  | cons l ls ih =>
    cases ls with
    | nil =>
      rw [join_single]
      exact (join_single (strip l)).symm
    | cons m ls =>
      have rest := ih fun k hk => h k (List.mem_cons_of_mem l hk)
      rw [join_cons, h l List.mem_cons_self, strip_cons (by decide), rest]
      rfl

/-- What is shown of a text that the pieces are a part of. -/
theorem strip_block {pieces : List Piece} {rest : List Char}
    (covers : text = pieces.flatMap Piece.text ++ rest) (emphasised : List Int) :
    strip (joinWithLineFeeds (decorate emphasised false (renderLines text pieces))) =
      escape text := by
  have tail : text.drop (coveredLength pieces) = rest := by
    rw [coveredLength, covers, List.drop_left]
  obtain ⟨whole, lines⟩ := strip_renderLines text pieces
  obtain ⟨decorated, same⟩ := strip_decorate emphasised whole
  rw [strip_join decorated, same, lines, join_splitLines, tail, ← covers]

end Html

/-- What highlighting a text comes to: pieces that the text begins with, a
lexical error, or a numeral that is too long. -/
theorem highlightPieces_cases (config : Config) (text : List Char) :
    (∃ pieces rest, (highlightPieces config text).value = .ok pieces ∧
      text = pieces.flatMap Piece.text ++ rest) ∨
    (∃ e, (highlightPieces config text).value = .error (.lexical e)) ∨
    ∃ o, lex config text = .error (.numeral o) := by
  cases lexed : lex config text with
  | ok tokens =>
    obtain ⟨tiles, tail, -, tiled, covers, -, spanned, pass⟩ := slices_of_lex lexed
    obtain ⟨⟨d, -, -, split⟩, -⟩ :=
      Cursor.cutAll_covers [] tiled covers (Cursor.lags_start text) (Nat.zero_le _)
    exact .inl ⟨_, d.rest, highlightPieces_of_lexSpans spanned pass, split.symm⟩
  | error e =>
    cases e with
    | lexical e => exact .inr (.inl ⟨e, highlightPieces_of_error lexed⟩)
    | numeral o => exact .inr (.inr ⟨o, rfl⟩)

theorem Session.haskellHtml_of_numeral {s : Session} {language : List Char} {o : NumeralError}
    (haskell : isHaskell language = true) (lexed : lex s.active text = .error (.numeral o))
    (emphasised : Option (List Int)) (numbered : Bool) :
    (s.haskellHtml text language emphasised numbered).2.value = .error (.numeral o) := by
  have value : (highlightPieces (s.configFor none) text).value = .error (.ofStop (.numeral o)) :=
    highlightPieces_of_error lexed
  simp only [haskellHtml, if_pos haskell, tokenizeOrNone, tokenize, value, HighlightError.ofStop]

/-- A block of Haskell is rendered from pieces that its text begins with, perhaps
none, if the lexer does not give the text up. -/
theorem Session.haskellHtml_cases (s : Session) (text : List Char) {language : List Char}
    (haskell : isHaskell language = true) :
    (∃ pieces rest, text = pieces.flatMap Piece.text ++ rest ∧
      ∀ (emphasised : Option (List Int)) (numbered : Bool),
        (s.haskellHtml text language emphasised numbered).2.value =
          .ok (Html.haskellBlock
            (Html.decorate (emphasised.getD []) numbered (Html.renderLines text pieces)))) ∨
    ∃ o, lex s.active text = .error (.numeral o) ∧
      ∀ (emphasised : Option (List Int)) (numbered : Bool),
        (s.haskellHtml text language emphasised numbered).2.value = .error (.numeral o) := by
  obtain ⟨pieces, rest, value, covers⟩ | ⟨e, value⟩ | ⟨o, lexed⟩ :=
    highlightPieces_cases (s.configFor none) text
  · refine .inl ⟨pieces, rest, covers, ?_⟩
    intro emphasised numbered
    simp only [haskellHtml, if_pos haskell, tokenizeOrNone, tokenize, value]
  · refine .inl ⟨[], text, rfl, ?_⟩
    intro emphasised numbered
    simp only [haskellHtml, if_pos haskell, tokenizeOrNone, tokenize, value]
  · exact .inr ⟨o, lexed, haskellHtml_of_numeral haskell lexed⟩

/-- **The HTML shows the text and nothing else.** Whatever pieces are rendered
with a text, the lines without their tags are the escaped texts of the pieces
and what is left of the text behind as many characters. So a block of Haskell,
whether it lexes or not and with any lines emphasised, is rendered without an
error and shows the text, escaped, just if the lexer does not give it up. If it
does, nobody catches that, and the numeral that is too long is in the text. -/
theorem shown_text (text : List Char) :
    (∀ pieces : List Piece,
      Html.strip (Html.joinWithLineFeeds (Html.renderLines text pieces)) =
        Html.escape (pieces.flatMap Piece.text ++
          text.drop (pieces.flatMap Piece.text).length)) ∧
    ∀ (s : Session) (emphasised : Option (List Int)),
      let value := (s.haskellHtml text "haskell".toList emphasised false).2.value
      ((∃ body, value =
          .ok ("<pre class=\"highlight\"><code class=\"language-haskell\">".toList ++ body ++
            "</code></pre>".toList) ∧
        Html.strip body = Html.escape text) ↔ ¬∃ o, lex s.active text = .error (.numeral o)) ∧
      ∀ o, lex s.active text = .error (.numeral o) →
        value = .error (.numeral o) ∧ Literal.HoldsOverlong o text := by
  constructor
  · intro pieces
    obtain ⟨whole, lines⟩ := Html.strip_renderLines text pieces
    rw [Html.strip_join whole, lines, Html.join_splitLines]
    rfl
  · intro s emphasised value
    have haskell : Session.isHaskell "haskell".toList = true := by decide
    have givenUp (o : NumeralError) (lexed : lex s.active text = .error (.numeral o)) :
        value = .error (.numeral o) :=
      Session.haskellHtml_of_numeral haskell lexed emphasised false
    refine ⟨⟨?_, ?_⟩, ?_⟩
    · rintro ⟨body, shown, -⟩ ⟨o, lexed⟩
      rw [givenUp o lexed] at shown
      cases shown
    · intro read
      obtain ⟨pieces, rest, covers, shown⟩ | ⟨o, lexed, -⟩ := s.haskellHtml_cases text haskell
      · refine ⟨_, shown emphasised false, ?_⟩
        exact Html.strip_block covers (emphasised.getD [])
      · exact absurd ⟨o, lexed⟩ read
    · intro o lexed
      exact ⟨givenUp o lexed, overlong_of_lex lexed⟩

/-- A string that begins with a numeral of more digits than can be read is not
shown at all. -/
theorem unshown_numeral :
    let text := '"' :: '\\' :: (List.replicate 4301 '1' ++ ['"'])
    (Session.fresh.haskellHtml text "haskell".toList none false).2.value =
      .error (.numeral ⟨4301⟩) := by
  intro text
  have long := Literal.overlong_ones (n := 4301) (s := ['"']) (by decide) rfl
  exact Session.haskellHtml_of_numeral (by decide) (lex_overlong .permissive long) none false

end HaskellLexis
