import Mathlib.Data.List.DropRight
import HaskellLexis.Proofs.Elements

/-!
# Lines are only decorated

A block has as many lines as its text, whatever pieces the text was cut into.
Numbers and emphasis go around the lines and change nothing in them, so that
they can be taken off again.

* `length_renderLines`: pieces and what they leave uncovered have the lines of
  the text, although a piece may go over the ends of lines;
* `Html.decorated`: what a line is to look like, by its number;
* `Html.undecorate`: a body without its decoration, read off the mark-up alone;
* `lines_decorated`: the body of a block, line by line.
-/

namespace HaskellLexis

namespace Html

variable {s t : List Char} {lines : List (List Char)}

/-! ## How many lines there are -/

theorem length_splitLines (s : List Char) : (splitLines s).length = 1 + s.count '\n' := by
  induction s with
  | nil => rfl
  | cons c s ih =>
    by_cases feed : c = '\n'
    · subst feed
      rw [splitLines_feed, List.length_cons, ih, List.count_cons_self]
      omega
    · obtain ⟨l, ls, eq⟩ := List.exists_cons_of_ne_nil (splitLines_ne_nil s)
      rw [eq] at ih
      rw [splitLines_cons feed, eq, List.count_cons_of_ne feed, ← ih]
      rfl

/-- The lines of pieces that the text begins with, and of the rest, are those of
the text. -/
theorem length_renderLines {text rest : List Char} {pieces : List Piece}
    (covers : text = pieces.flatMap Piece.text ++ rest) :
    (renderLines text pieces).length = 1 + text.count '\n' := by
  have tail : text.drop (coveredLength pieces) = rest := by
    rw [coveredLength, covers, List.drop_left]
  have shown := congrArg List.length (strip_renderLines text pieces).2
  rw [tail, ← covers, splitLines_escape, List.length_map, List.length_map] at shown
  rw [shown, length_splitLines]

/-! ## What is put around them -/

/-- Line `i` of a block with `n` lines: its number, aligned to the widest one, and
the line, with an element around it if it is to be emphasised. -/
def decorated (emphasised : List Int) (numbered : Bool) (n i : Nat) (line : List Char) :
    List Char :=
  (if numbered then
    spanOf "lineno".toList ((toString i).toList.leftpad (toString n).length ' ' ++ [' '])
  else []) ++
    if (i : Int) ∈ emphasised then spanOf "hll".toList line else line

theorem decorate_eq (emphasised : List Int) (numbered : Bool) (lines : List (List Char)) :
    decorate emphasised numbered lines =
      lines.mapIdx fun i => decorated emphasised numbered lines.length (i + 1) := by
  have emphasis (i : Nat) (line : List Char) : emphasise emphasised i line =
      if (i : Int) ∈ emphasised then spanOf "hll".toList line else line := by
    simp only [emphasise, List.contains_iff_mem]
  refine congrArg (List.mapIdx · lines) ?_
  funext i line
  cases numbered with
  | false => exact emphasis (i + 1) line
  | true =>
    rw [decorated, if_pos rfl, ← emphasis]
    rfl

/-- The second of ten lines. -/
example : decorated [2, 2, 0] true 10 2 ['x'] =
    "<span class=\"lineno\"> 2 </span><span class=\"hll\">x</span>".toList := by
  decide +kernel

theorem decorate_plain (lines : List (List Char)) : decorate [] false lines = lines := by
  rw [decorate_eq]
  apply List.ext_getElem
  · exact List.length_mapIdx
  · intro i bound bound'
    rw [List.getElem_mapIdx]
    rfl

/-- Entries that are the number of no line change nothing. -/
theorem decorate_congr {emphasised other : List Int}
    (same : ∀ i : Nat, 1 ≤ i → i ≤ lines.length → ((i : Int) ∈ emphasised ↔ (i : Int) ∈ other))
    (numbered : Bool) : decorate emphasised numbered lines = decorate other numbered lines := by
  rw [decorate_eq, decorate_eq]
  apply List.ext_getElem
  · simp only [List.length_mapIdx]
  · intro i bound _
    rw [List.length_mapIdx] at bound
    rw [List.getElem_mapIdx, List.getElem_mapIdx, decorated, decorated]
    simp only [same (i + 1) (Nat.succ_pos i) bound]

/-! ## How it is taken off again -/

/-- A line without the number in front of it. -/
def withoutNumber (line : List Char) : List Char :=
  if Element.lineNumber.openTag.isPrefixOf line then
    ((line.drop Element.lineNumber.openTag.length).dropWhile (· ≠ '<')).drop
      Element.lineNumber.closeTag.length
  else line

/-- A line without the element around all of it. -/
def withoutEmphasis (line : List Char) : List Char :=
  if Element.emphasis.openTag.isPrefixOf line then
    (line.drop Element.emphasis.openTag.length).rdrop Element.emphasis.closeTag.length
  else line

/-- A body without what was put around its lines. -/
def undecorate (body : List Char) : List Char :=
  joinWithLineFeeds ((body.splitOn '\n').map fun line => withoutEmphasis (withoutNumber line))

theorem withoutNumber_number {number : List Char} (plain : '<' ∉ number) (line : List Char) :
    withoutNumber (spanOf "lineno".toList number ++ line) = line := by
  have shape : spanOf "lineno".toList number ++ line = Element.lineNumber.openTag ++
      (number ++ (Element.lineNumber.closeTag ++ line)) := by
    simp only [← List.append_assoc]
    rfl
  have text : ∀ c ∈ number, decide (c ≠ '<') = true := by
    rintro c mem
    refine decide_eq_true ?_
    rintro rfl
    exact plain mem
  have close : (Element.lineNumber.closeTag ++ line).dropWhile (· ≠ '<') =
      Element.lineNumber.closeTag ++ line := rfl
  rw [shape, withoutNumber, if_pos (List.isPrefixOf_iff_prefix.2 (List.prefix_append _ _)),
    List.drop_left, List.dropWhile_append_of_pos text, close, List.drop_left]

theorem withoutNumber_emphasis (line : List Char) :
    withoutNumber (spanOf "hll".toList line) = spanOf "hll".toList line := rfl

theorem withoutEmphasis_emphasis (line : List Char) :
    withoutEmphasis (spanOf "hll".toList line) = line := by
  have shape : spanOf "hll".toList line =
      Element.emphasis.openTag ++ (line ++ Element.emphasis.closeTag) := by
    rw [← List.append_assoc]
    rfl
  rw [shape, withoutEmphasis, if_pos (List.isPrefixOf_iff_prefix.2 (List.prefix_append _ _)),
    List.drop_left, List.rdrop, List.length_append, Nat.add_sub_cancel, List.take_left]

/-- A line that has no decoration in front: it is empty, or begins with a character
of the text or with the element of a piece. -/
inductive Bare : List Char → Prop where
  | nil : Bare []
  | plain {c : Char} {s : List Char} (noTag : c ≠ '<') : Bare (c :: s)
  | category (c : Category) (s : List Char) : Bare ((Element.category c).openTag ++ s)

namespace Bare

theorem append (h : Bare s) (h' : Bare t) : Bare (s ++ t) := by
  cases h with
  | nil => exact h'
  | plain noTag => exact .plain noTag
  | category c s =>
    rw [List.append_assoc]
    exact .category c (s ++ t)

theorem escape (s : List Char) : Bare (escape s) := by
  have plain := escape_plain s
  cases shown : Html.escape s with
  | nil => exact .nil
  | cons c r =>
    rw [shown] at plain
    exact .plain (List.ne_and_not_mem_of_not_mem_cons plain).1.symm

theorem withoutNumber (h : Bare s) : withoutNumber s = s := by
  cases h with
  | nil => rfl
  | plain noTag => simp [Html.withoutNumber, Element.openTag, noTag.symm]
  | category c s => cases c <;> rfl

theorem withoutEmphasis (h : Bare s) : withoutEmphasis s = s := by
  cases h with
  | nil => rfl
  | plain noTag => simp [Html.withoutEmphasis, Element.openTag, noTag.symm]
  | category c s => cases c <;> rfl

end Bare

theorem bare_markPart (category : Option Category) (part : List Char) :
    Bare (markPart category part) := by
  unfold markPart
  split
  · exact .escape part
  · exact .escape part
  split
  · exact .nil
  · rw [spanOf_category, List.append_assoc]
    exact .category _ _

theorem bare_markLines (parts : List (Option Category × List Char)) :
    ∀ l ∈ markLines parts, Bare l := by
  induction parts with
  | nil =>
    intro l mem
    rw [List.mem_singleton.1 mem]
    exact .nil
  | cons part parts ih =>
    refine mem_joinLines (fun _ _ => Bare.append) ?_ ih
    intro l mem
    obtain ⟨text, -, rfl⟩ := List.mem_map.1 mem
    exact bare_markPart part.1 text

/-- Numbers consist of digits, and so a line number holds no tag. -/
theorem leftpad_plain (width number : Nat) :
    '<' ∉ (toString number).toList.leftpad width ' ' ++ [' '] := by
  intro mem
  obtain inside | last := List.mem_append.1 mem
  · obtain pad | digits := List.mem_append.1 inside
    · exact absurd (List.eq_of_mem_replicate pad) (by decide)
    · exact absurd (isDigit_of_mem_number digits) (by decide)
  · exact absurd (List.mem_singleton.1 last) (by decide)

theorem undecorate_line (h : Bare s) (emphasised : List Int) (numbered : Bool) (n i : Nat) :
    withoutEmphasis (withoutNumber (decorated emphasised numbered n i s)) = s := by
  have line : withoutEmphasis (withoutNumber
      (if (i : Int) ∈ emphasised then spanOf "hll".toList s else s)) = s := by
    split
    · rw [withoutNumber_emphasis, withoutEmphasis_emphasis]
    · rw [h.withoutNumber, h.withoutEmphasis]
  have unemphasised : withoutEmphasis
      (if (i : Int) ∈ emphasised then spanOf "hll".toList s else s) = s := by
    split
    · exact withoutEmphasis_emphasis s
    · exact h.withoutEmphasis
  unfold decorated
  cases numbered with
  | false => exact line
  | true => rw [if_pos rfl, withoutNumber_number (leftpad_plain _ _), unemphasised]

/-- The lines of a body are the lines that were joined. -/
theorem splitOn_decorate (some : lines ≠ []) (shown : ∀ l ∈ lines, IsLine l)
    (emphasised : List Int) (numbered : Bool) :
    (joinWithLineFeeds (decorate emphasised numbered lines)).splitOn '\n' =
      decorate emphasised numbered lines := by
  apply List.splitOn_intercalate
  · exact fun l mem => (isLine_decorate emphasised numbered shown l mem).noFeed
  · exact decorate_ne_nil emphasised numbered some

theorem undecorate_decorate (some : lines ≠ []) (shown : ∀ l ∈ lines, IsLine l)
    (bare : ∀ l ∈ lines, Bare l) (emphasised : List Int) (numbered : Bool) :
    undecorate (joinWithLineFeeds (decorate emphasised numbered lines)) =
      joinWithLineFeeds lines := by
  rw [undecorate, splitOn_decorate some shown, decorate_eq]
  congr 1
  apply List.ext_getElem
  · rw [List.length_map, List.length_mapIdx]
  · intro i _ bound
    rw [List.getElem_map, List.getElem_mapIdx]
    exact undecorate_line (bare _ (List.getElem_mem bound)) emphasised numbered _ _

/-- The page around the lines of a block of Haskell. -/
def blockAround (body : List Char) : List Char :=
  "<pre class=\"highlight\"><code class=\"language-haskell\">".toList ++ body ++
    "</code></pre>".toList

end Html

open Html in
/-- **Decoration changes no line.** The body of a block of Haskell has the lines of
its text, one more than the text has line feeds, whether it lexes or not. Each line
is the one that is shown without decoration, with its number in front if numbers
are asked for and in an element of its own exactly if its number is among those to
be emphasised; so other entries change nothing, and all that was put around the
lines can be taken off again. Only a text that the lexer gives up has no body,
whatever decoration is asked for. -/
theorem lines_decorated {language : List Char} (haskell : Session.isHaskell language = true)
    (s : Session) (text : List Char) :
    let count := 1 + text.count '\n'
    ((∃ plain, (s.haskellHtml text language none false).2.value = .ok (blockAround plain) ∧
      ∀ (emphasised : Option (List Int)) (numbered : Bool), ∃ body,
        (s.haskellHtml text language emphasised numbered).2.value = .ok (blockAround body) ∧
          (body.splitOn '\n').length = count ∧
          body.splitOn '\n' = ((plain.splitOn '\n').mapIdx fun i =>
            decorated (emphasised.getD []) numbered count (i + 1)) ∧
          undecorate body = plain ∧
          ∀ other : List Int, (∀ i : Nat, 1 ≤ i → i ≤ count →
              ((i : Int) ∈ emphasised.getD [] ↔ (i : Int) ∈ other)) →
            (s.haskellHtml text language (some other) numbered).2.value =
              .ok (blockAround body)) ↔ ¬∃ o, lex s.active text = .error (.numeral o)) ∧
    ∀ o, lex s.active text = .error (.numeral o) →
      ∀ (emphasised : Option (List Int)) (numbered : Bool),
        (s.haskellHtml text language emphasised numbered).2.value = .error (.numeral o) := by
  intro count
  refine ⟨⟨?_, ?_⟩, fun o lexed => Session.haskellHtml_of_numeral haskell lexed⟩
  · rintro ⟨plain, shown, -⟩ ⟨o, lexed⟩
    rw [Session.haskellHtml_of_numeral haskell lexed] at shown
    cases shown
  intro read
  obtain ⟨pieces, rest, covers, value⟩ | ⟨o, lexed, -⟩ := s.haskellHtml_cases text haskell
  case inr => exact absurd ⟨o, lexed⟩ read
  have length : (renderLines text pieces).length = count := length_renderLines covers
  have some : renderLines text pieces ≠ [] := markLines_ne_nil _
  have shown := isLine_renderLines text pieces
  have bare : ∀ l ∈ renderLines text pieces, Bare l := bare_markLines _
  have plain := splitOn_decorate some shown [] false
  rw [decorate_plain] at plain
  refine ⟨joinWithLineFeeds (renderLines text pieces), ?_, ?_⟩
  · rw [value, Option.getD_none, decorate_plain]
    rfl
  · intro emphasised numbered
    have body := splitOn_decorate some shown (emphasised.getD []) numbered
    refine ⟨_, value emphasised numbered, ?_, ?_, ?_, ?_⟩
    · rw [body, decorate_eq, List.length_mapIdx, length]
    · rw [body, plain, decorate_eq, length]
    · exact undecorate_decorate some shown bare _ _
    · intro other same
      rw [← length] at same
      rw [value, Option.getD_some, ← decorate_congr same]
      rfl

/-- The text ends in an open string and is shown without classes. Of the entries
only one is the number of a line. -/
theorem lines_decorated_unlexed :
    let text := ['x', '\n', '"', '<']
    Session.isHaskell "HS".toList = true ∧
      ∃ plain, (Session.fresh.haskellHtml text "HS".toList none false).2.value =
          .ok (Html.blockAround plain) ∧
        ∃ body, (Session.fresh.haskellHtml text "HS".toList (some [2, 0, 2, -1, 9]) true).2.value =
            .ok (Html.blockAround body) ∧
          (body.splitOn '\n').length = 2 ∧ Html.undecorate body = plain ∧
          (Session.fresh.haskellHtml text "HS".toList (some [2]) true).2.value =
            .ok (Html.blockAround body) := by
  intro text
  have haskell : Session.isHaskell "HS".toList = true := by decide
  have read : ¬∃ o, lex Session.fresh.active text = .error (.numeral o) := by
    rintro ⟨o, lexed⟩
    exact absurd (overlong_of_lex lexed).length_lt (by decide)
  obtain ⟨plain, value, shown⟩ := (lines_decorated haskell .fresh text).1.2 read
  obtain ⟨body, value', length, -, undecorated, other⟩ := shown (some [2, 0, 2, -1, 9]) true
  refine ⟨haskell, plain, value, body, value', length, undecorated, other [2] ?_⟩
  intro i first last
  have line : i = 1 ∨ i = 2 := by
    have count : 1 + text.count '\n' = 2 := rfl
    omega
  obtain rfl | rfl := line
  · decide
  · decide

/-- Numbers and emphasis do not help with a numeral that cannot be read. -/
theorem undecorated_numeral :
    let text := '"' :: '\\' :: (List.replicate 4301 '1' ++ ['"'])
    (Session.fresh.haskellHtml text "haskell".toList (some [1]) true).2.value =
      .error (.numeral ⟨4301⟩) := by
  intro text
  have long := Literal.overlong_ones (n := 4301) (s := ['"']) (by decide) rfl
  exact Session.haskellHtml_of_numeral (by decide) (lex_overlong .permissive long) (some [1]) true

end HaskellLexis
