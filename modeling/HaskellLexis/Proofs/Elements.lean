import HaskellLexis.Proofs.Markup

/-!
# What the HTML is made of

The text of a page comes from outside, and so does the name of its language.
Neither can put a tag, a quote or an entity of its own into the page.

* `Element`: the elements that a page is built from, and their tags;
* `Nested`: a grammar of mark-up in which all that is opened is closed;
* `Stands`: what a character that means something in HTML may be part of;
* `page_well_formed`: pages are in the grammar and hold no such character
  elsewhere, and of a Haskell block every line is in the grammar by itself.
-/

namespace HaskellLexis

namespace Html

/-! ## Elements -/

inductive Element where
  | plainBlock
  | haskellBlock
  | code (language : Option (List Char))
  | category (c : Category)
  | emphasis
  | lineNumber

namespace Element

def name : Element → List Char
  | plainBlock | haskellBlock => "pre".toList
  | code _ => "code".toList
  | category _ | emphasis | lineNumber => "span".toList

def class? : Element → Option (List Char)
  | plainBlock => none
  | haskellBlock => some "highlight".toList
  | code language => language.map ("language-".toList ++ ·)
  | category c => some ("hs-" ++ c.tag).toList
  | emphasis => some "hll".toList
  | lineNumber => some "lineno".toList

/-- What stands between the angle brackets of the tag that opens an element. -/
def heading (e : Element) : List Char :=
  e.name ++
    match e.class? with
    | none => []
    | some cls => " class=\"".toList ++ cls ++ ['"']

def openTag (e : Element) : List Char := '<' :: (e.heading ++ ['>'])

def closeTag (e : Element) : List Char := '<' :: ('/' :: e.name ++ ['>'])

example : (category .keyword).openTag = "<span class=\"hs-keyword\">".toList := rfl

/-- The elements of a line. -/
def InLine : Element → Prop
  | category _ | emphasis | lineNumber => True
  | _ => False

/-- The elements of a page. Where the language is named, it is the name of
Haskell or the language that was asked for, escaped. -/
def InPage (language : List Char) : Element → Prop
  | code (some named) =>
    named = if Session.isHaskell language then "haskell".toList else escape language
  | _ => True

end Element

/-- The characters that mean something in HTML. -/
def markCharacters : List Char := ['<', '>', '&', '"', '\'']

/-- How escaping spells them. -/
def entities : List (List Char) :=
  ["&amp;", "&lt;", "&gt;", "&quot;", "&#x27;"].map String.toList

variable {allowed : Element → Prop} {s t before behind : List Char} {c : Char}

/-- Mark-up: characters that mean nothing, entities, and elements around
mark-up. -/
inductive Nested (allowed : Element → Prop) : List Char → Prop where
  | nil : Nested allowed []
  | plain {c : Char} {s : List Char} (noMark : c ∉ markCharacters) (more : Nested allowed s) :
      Nested allowed (c :: s)
  | entity {e s : List Char} (known : e ∈ entities) (more : Nested allowed s) :
      Nested allowed (e ++ s)
  | element {e : Element} {body s : List Char} (ok : allowed e) (inner : Nested allowed body)
      (more : Nested allowed s) : Nested allowed (e.openTag ++ body ++ e.closeTag ++ s)

namespace Nested

theorem append (h : Nested allowed s) (h' : Nested allowed t) : Nested allowed (s ++ t) := by
  induction h with
  | nil => exact h'
  | plain noMark _ ih => exact .plain noMark ih
  | entity known _ ih =>
    rw [List.append_assoc]
    exact .entity known ih
  | element ok inner _ _ ih =>
    rw [List.append_assoc]
    exact .element ok inner ih

theorem wrap {e : Element} (ok : allowed e) (h : Nested allowed s) :
    Nested allowed (e.openTag ++ s ++ e.closeTag) := by
  have whole := Nested.element ok h .nil
  rwa [List.append_nil] at whole

theorem of_plain (h : ∀ c ∈ s, c ∉ markCharacters) : Nested allowed s := by
  induction s with
  | nil => exact .nil
  | cons c s ih =>
    obtain ⟨noMark, more⟩ := List.forall_mem_cons.1 h
    exact .plain noMark (ih more)

theorem mono {wider : Element → Prop} (h : Nested allowed s)
    (widens : ∀ e, allowed e → wider e) : Nested wider s := by
  induction h with
  | nil => exact .nil
  | plain noMark _ ih => exact .plain noMark ih
  | entity known _ ih => exact .entity known ih
  | element ok _ _ inner ih => exact .element (widens _ ok) inner ih

end Nested

/-! ## Escaped texts -/

theorem escapeChar_entity (c : Char) :
    escapeChar c = [c] ∧ c ∉ markCharacters ∨ escapeChar c ∈ entities := by
  unfold escapeChar
  split
  · exact .inr (by decide)
  split
  · exact .inr (by decide)
  split
  · exact .inr (by decide)
  split
  · exact .inr (by decide)
  split
  · exact .inr (by decide)
  · rename_i amp less greater double single
    refine .inl ⟨rfl, ?_⟩
    simp [markCharacters, amp, less, greater, double, single]

theorem nested_escape (s : List Char) : Nested allowed (escape s) := by
  induction s with
  | nil => exact .nil
  | cons c s ih =>
    rw [escape, List.flatMap_cons]
    obtain ⟨eq, noMark⟩ | known := escapeChar_entity c
    · rw [eq]
      exact .plain noMark ih
    · exact .entity known ih

/-! ## Where a character may stand -/

/-- What holds of every character of a text, with the parts on both sides of it. -/
def Everywhere (P : List Char → Char → List Char → Prop) (s : List Char) : Prop :=
  ∀ before c behind, s = before ++ c :: behind → P before c behind

/-- More text on either side changes nothing. -/
def Extends (P : List Char → Char → List Char → Prop) : Prop :=
  ∀ before c behind, P before c behind → ∀ s t, P (s ++ before) c (behind ++ t)

/-- An entity is a `&` and characters that mean nothing. -/
theorem entity_shape {e : List Char} (known : e ∈ entities) :
    ∃ rest, e = '&' :: rest ∧ ∀ c ∈ rest, c ∉ markCharacters := by
  have all : entities.all (fun e => e.head? = some '&' &&
      e.tail.all (fun c => !markCharacters.contains c)) = true := by decide
  have one := List.all_eq_true.1 all e known
  simp only [Bool.and_eq_true, decide_eq_true_eq, List.all_eq_true, Bool.not_eq_true',
    List.contains_eq_mem, decide_eq_false_iff_not] at one
  obtain ⟨front, noMarks⟩ := one
  cases e with
  | nil => cases front
  | cons c rest =>
    cases front
    exact ⟨rest, rfl, noMarks⟩

namespace Everywhere

variable {P : List Char → Char → List Char → Prop}

theorem append (ext : Extends P) (h : Everywhere P s) (h' : Everywhere P t) :
    Everywhere P (s ++ t) := by
  intro before c behind split
  obtain ⟨middle, rfl, rest⟩ | ⟨middle, rfl, rest⟩ := List.append_eq_append_iff.1 split
  · have later := ext _ _ _ (h' middle c behind rest) s []
    rwa [List.append_nil] at later
  · cases middle with
    | nil =>
      have later := ext _ _ _ (h' [] c behind rest.symm) before []
      rwa [List.append_nil, List.append_nil] at later
    | cons d middle =>
      cases rest
      exact ext _ _ _ (h before c middle rfl) [] t

theorem of_forall (h : ∀ c ∈ s, ∀ before behind, P before c behind) : Everywhere P s := by
  intro before c behind split
  apply h
  rw [split]
  exact List.mem_append_right before List.mem_cons_self

theorem of_entity {e : List Char} (known : e ∈ entities)
    (begins : ∀ behind, e = '&' :: behind → P [] '&' behind)
    (plain : ∀ before c behind, c ∉ markCharacters → P before c behind) : Everywhere P e := by
  obtain ⟨rest, rfl, noMarks⟩ := entity_shape known
  intro before c behind split
  cases before with
  | nil =>
    cases split
    exact begins rest rfl
  | cons d before =>
    cases split
    exact plain _ c behind (noMarks c (by simp))

end Everywhere

/-- What stands between the angle brackets of a tag. -/
structure Inside (before : List Char) (c : Char) (behind : List Char) : Prop where
  noLess : c ≠ '<'
  noGreater : c ≠ '>'
  ampersand : c = '&' → ∃ e ∈ entities, e <+: c :: behind

def IsTag (allowed : Element → Prop) (tag : List Char) : Prop :=
  ∃ e, allowed e ∧ (tag = e.openTag ∨ tag = e.closeTag)

/-- A character that means something means what the page says: a `<` begins a
tag, a `>` ends one, a quote is inside of one, and a `&` begins an entity. -/
structure Stands (allowed : Element → Prop) (before : List Char) (c : Char) (behind : List Char) :
    Prop where
  less : c = '<' → ∃ tag, IsTag allowed tag ∧ tag <+: c :: behind
  greater : c = '>' → ∃ tag, IsTag allowed tag ∧ tag <:+ before ++ [c]
  quote : c = '"' ∨ c = '\'' → ∃ left right, IsTag allowed (left ++ c :: right) ∧
    left <:+ before ∧ right <+: behind
  ampersand : c = '&' → ∃ e ∈ entities, e <+: c :: behind

theorem inside_extends : Extends Inside := by
  intro before c behind h s t
  refine ⟨h.noLess, h.noGreater, ?_⟩
  intro same
  obtain ⟨e, known, front⟩ := h.ampersand same
  exact ⟨e, known, front.trans (List.prefix_append (c :: behind) t)⟩

theorem stands_extends : Extends (Stands allowed) := by
  intro before c behind h s t
  constructor
  · intro same
    obtain ⟨tag, isTag, front⟩ := h.less same
    exact ⟨tag, isTag, front.trans (List.prefix_append (c :: behind) t)⟩
  · intro same
    obtain ⟨tag, isTag, back⟩ := h.greater same
    rw [List.append_assoc]
    exact ⟨tag, isTag, back.trans (List.suffix_append s (before ++ [c]))⟩
  · intro same
    obtain ⟨left, right, isTag, back, front⟩ := h.quote same
    exact ⟨left, right, isTag, back.trans (List.suffix_append s before),
      front.trans (List.prefix_append behind t)⟩
  · intro same
    obtain ⟨e, known, front⟩ := h.ampersand same
    exact ⟨e, known, front.trans (List.prefix_append (c :: behind) t)⟩

theorem inside_of_ne (less : c ≠ '<') (greater : c ≠ '>') (ampersand : c ≠ '&')
    (before behind : List Char) : Inside before c behind :=
  ⟨less, greater, fun same => absurd same ampersand⟩

theorem ne_of_noMark {d : Char} (noMark : c ∉ markCharacters) (mark : d ∈ markCharacters) :
    c ≠ d := by
  rintro rfl
  exact noMark mark

theorem inside_of_plain (noMark : c ∉ markCharacters) : Inside before c behind :=
  inside_of_ne (ne_of_noMark noMark (by decide)) (ne_of_noMark noMark (by decide))
    (ne_of_noMark noMark (by decide)) before behind

theorem stands_of_plain (noMark : c ∉ markCharacters) : Stands allowed before c behind where
  less same := absurd same (ne_of_noMark noMark (by decide))
  greater same := absurd same (ne_of_noMark noMark (by decide))
  quote := by
    rintro (same | same)
    · exact absurd same (ne_of_noMark noMark (by decide))
    · exact absurd same (ne_of_noMark noMark (by decide))
  ampersand same := absurd same (ne_of_noMark noMark (by decide))

theorem stands_of_ampersand {e : List Char} (known : e ∈ entities) (spells : e = '&' :: behind) :
    Stands allowed before '&' behind where
  less := nofun
  greater := nofun
  quote := nofun
  ampersand _ := ⟨e, known, spells ▸ List.prefix_refl e⟩

/-- Inside a tag nothing ends it, so that it is one tag as a whole. -/
theorem everywhere_tag (isTag : IsTag allowed ('<' :: (s ++ ['>']))) (h : Everywhere Inside s) :
    Everywhere (Stands allowed) ('<' :: (s ++ ['>'])) := by
  intro before c behind split
  cases before with
  | nil =>
    cases split
    exact ⟨fun _ => ⟨_, isTag, List.prefix_refl _⟩, nofun, nofun, nofun⟩
  | cons d before =>
    obtain ⟨rfl, tail⟩ := List.cons.inj split
    obtain ⟨middle, rfl, rest⟩ | ⟨middle, rfl, rest⟩ := List.append_eq_append_iff.1 tail
    · cases middle with
      | nil =>
        cases rest
        refine ⟨nofun, fun _ => ⟨_, isTag, ?_⟩, nofun, nofun⟩
        simp
      | cons d middle => simp at rest
    · cases middle with
      | nil =>
        cases rest
        refine ⟨nofun, fun _ => ⟨_, isTag, ?_⟩, nofun, nofun⟩
        simp
      | cons d middle =>
        obtain ⟨rfl, rfl⟩ := List.cons.inj rest
        have inside := inside_extends _ _ _ (h before c middle rfl) [] ['>']
        refine ⟨fun same => absurd same inside.noLess, fun same => absurd same inside.noGreater,
          fun _ => ⟨'<' :: before, middle ++ ['>'], ?_, List.suffix_refl _, List.prefix_refl _⟩,
          inside.ampersand⟩
        rwa [List.append_assoc] at isTag

/-! ## Tags hold no tags -/

theorem inside_of_all
    (h : s.all (fun c => c ≠ '<' && c ≠ '>' && c ≠ '&') = true) : Everywhere Inside s := by
  apply Everywhere.of_forall
  intro c mem
  have ne := List.all_eq_true.1 h c mem
  simp only [ne_eq, decide_not, Bool.and_eq_true, Bool.not_eq_true', decide_eq_false_iff_not] at ne
  exact inside_of_ne ne.1.1 ne.1.2 ne.2

theorem inside_escape (s : List Char) : Everywhere Inside (escape s) := by
  induction s with
  | nil => exact inside_of_all rfl
  | cons c s ih =>
    rw [escape, List.flatMap_cons]
    apply Everywhere.append inside_extends _ ih
    obtain ⟨eq, noMark⟩ | known := escapeChar_entity c
    · rw [eq]
      apply Everywhere.of_forall
      intro d mem before behind
      rw [List.mem_singleton.1 mem]
      exact inside_of_plain noMark
    · refine Everywhere.of_entity known ?_ ?_
      · intro behind spells
        exact ⟨by decide, by decide, fun _ => ⟨_, known, spells ▸ List.prefix_refl _⟩⟩
      · intro before d behind noMark
        exact inside_of_plain noMark

namespace Element

variable {language : List Char} {e : Element}

theorem inside_class (ok : e.InPage language) {cls : List Char} (h : e.class? = some cls) :
    Everywhere Inside cls := by
  cases e with
  | plainBlock => cases h
  | haskellBlock | emphasis | lineNumber =>
    cases h
    exact inside_of_all (by decide)
  | category c =>
    cases h
    exact inside_of_all (by cases c <;> decide)
  | code named =>
    cases named with
    | none => cases h
    | some named =>
      cases h
      apply Everywhere.append inside_extends (inside_of_all (by decide))
      change named = _ at ok
      rw [ok]
      split
      · exact inside_of_all (by decide)
      · exact inside_escape language

theorem inside_name (e : Element) : Everywhere Inside e.name := by
  cases e <;> exact inside_of_all rfl

theorem inside_heading (ok : e.InPage language) : Everywhere Inside e.heading := by
  apply Everywhere.append inside_extends e.inside_name
  split
  · exact inside_of_all rfl
  · rename_i cls named
    apply Everywhere.append inside_extends _ (inside_of_all (by decide))
    exact Everywhere.append inside_extends (inside_of_all (by decide)) (inside_class ok named)

theorem everywhere_openTag (ok : e.InPage language) :
    Everywhere (Stands (InPage language)) e.openTag :=
  everywhere_tag ⟨e, ok, .inl rfl⟩ (inside_heading ok)

theorem everywhere_closeTag (ok : e.InPage language) :
    Everywhere (Stands (InPage language)) e.closeTag := by
  apply everywhere_tag ⟨e, ok, .inr rfl⟩
  exact Everywhere.append (s := ['/']) inside_extends (inside_of_all (by decide)) e.inside_name

end Element

/-- In mark-up everything that means something is part of a tag or an entity. -/
theorem everywhere_of_nested {language : List Char} (h : Nested (Element.InPage language) s) :
    Everywhere (Stands (Element.InPage language)) s := by
  induction h with
  | nil => exact Everywhere.of_forall (List.forall_mem_nil _)
  | @plain c s noMark _ ih =>
    apply Everywhere.append (s := [c]) stands_extends _ ih
    apply Everywhere.of_forall
    intro d mem before behind
    rw [List.mem_singleton.1 mem]
    exact stands_of_plain noMark
  | entity known _ ih =>
    apply Everywhere.append stands_extends _ ih
    refine Everywhere.of_entity known ?_ ?_
    · intro behind spells
      exact stands_of_ampersand known spells
    · intro before d behind noMark
      exact stands_of_plain noMark
  | element ok _ _ inner ih =>
    apply Everywhere.append stands_extends _ ih
    apply Everywhere.append stands_extends _ (Element.everywhere_closeTag ok)
    exact Everywhere.append stands_extends (Element.everywhere_openTag ok) inner

/-! ## Lines -/

/-- Mark-up of one line, without a line feed. -/
structure IsLine (s : List Char) : Prop where
  noFeed : '\n' ∉ s
  nested : Nested Element.InLine s

namespace IsLine

theorem nil : IsLine [] := ⟨List.not_mem_nil, .nil⟩

theorem append (h : IsLine s) (h' : IsLine t) : IsLine (s ++ t) := by
  refine ⟨?_, h.nested.append h'.nested⟩
  rw [List.mem_append]
  rintro (first | second)
  · exact h.noFeed first
  · exact h'.noFeed second

theorem of_plain (noFeed : '\n' ∉ s) (noMarks : ∀ c ∈ s, c ∉ markCharacters) : IsLine s :=
  ⟨noFeed, .of_plain noMarks⟩

theorem escape (noFeed : '\n' ∉ s) : IsLine (escape s) := by
  refine ⟨?_, nested_escape s⟩
  rw [Html.escape, List.mem_flatMap]
  rintro ⟨c, mem, feed⟩
  obtain ⟨eq, -⟩ | ⟨-, others⟩ := escapeChar_cases c
  · rw [eq, List.mem_singleton] at feed
    rw [feed] at noFeed
    exact noFeed mem
  · exact (others _ feed).2 rfl

theorem wrap {e : Element} (inLine : e.InLine) (h : IsLine s) :
    IsLine (e.openTag ++ s ++ e.closeTag) := by
  have noFeed : '\n' ∉ e.openTag ∧ '\n' ∉ e.closeTag := by
    cases e with
    | category c => cases c <;> decide
    | emphasis | lineNumber => decide
    | plainBlock | haskellBlock | code => cases inLine
  refine ⟨?_, h.nested.wrap inLine⟩
  simp only [List.mem_append, not_or]
  exact ⟨⟨noFeed.1, h.noFeed⟩, noFeed.2⟩

end IsLine

theorem noFeed_splitLines (s : List Char) : ∀ l ∈ splitLines s, '\n' ∉ l := by
  induction s with
  | nil => simp [splitLines]
  | cons c s ih =>
    by_cases feed : c = '\n'
    · subst feed
      rw [splitLines_feed, List.forall_mem_cons]
      exact ⟨List.not_mem_nil, ih⟩
    · rw [splitLines_cons feed]
      apply mem_joinLines _ _ ih
      · intro l m first second both
        exact (List.mem_append.1 both).elim first second
      · simpa using Ne.symm feed

theorem spanOf_category (c : Category) (body : List Char) :
    spanOf ("hs-" ++ c.tag).toList body =
      (Element.category c).openTag ++ body ++ (Element.category c).closeTag := by
  cases c <;> rfl

theorem isLine_markPart (category : Option Category) {part : List Char} (noFeed : '\n' ∉ part) :
    IsLine (markPart category part) := by
  unfold markPart
  split
  · exact .escape noFeed
  · exact .escape noFeed
  split
  · exact .nil
  · rename_i c _ _
    rw [spanOf_category]
    exact (IsLine.escape noFeed).wrap trivial

theorem isLine_markLines (parts : List (Option Category × List Char)) :
    ∀ l ∈ markLines parts, IsLine l := by
  induction parts with
  | nil =>
    intro l mem
    rw [List.mem_singleton.1 mem]
    exact .nil
  | cons part parts ih =>
    obtain ⟨category, text⟩ := part
    apply mem_joinLines _ _ ih
    · intro l m
      exact IsLine.append
    · intro l mem
      obtain ⟨part, among, rfl⟩ := List.mem_map.1 mem
      exact isLine_markPart category (noFeed_splitLines text part among)

theorem markLines_ne_nil (parts : List (Option Category × List Char)) : markLines parts ≠ [] := by
  cases parts with
  | nil => exact List.cons_ne_nil _ _
  | cons part parts => exact joinLines_ne_nil (markLines_ne_nil parts)

theorem isLine_renderLines (text : List Char) (pieces : List Piece) :
    ∀ l ∈ renderLines text pieces, IsLine l :=
  isLine_markLines _

theorem isLine_emphasise (emphasised : List Int) (number : Nat) (h : IsLine s) :
    IsLine (emphasise emphasised number s) := by
  unfold emphasise
  split
  · exact h.wrap (e := .emphasis) trivial
  · exact h

theorem isDigit_of_mem_number {number : Nat} {c : Char} (mem : c ∈ (toString number).toList) :
    c.isDigit = true := by
  change c ∈ number.repr.toList at mem
  rw [Nat.toList_repr] at mem
  exact Nat.isDigit_of_mem_toDigits (by decide) (by decide) mem

theorem isLine_number (number : Nat) : IsLine (toString number).toList := by
  apply IsLine.of_plain
  · intro feed
    exact absurd (isDigit_of_mem_number feed) (by decide)
  · intro c mem mark
    have digit := isDigit_of_mem_number mem
    simp only [markCharacters, List.mem_cons, List.not_mem_nil, or_false] at mark
    obtain rfl | rfl | rfl | rfl | rfl := mark
    all_goals exact absurd digit (by decide)

theorem isLine_enumerateLine (width number : Nat) (h : IsLine s) :
    IsLine (enumerateLine width number s) := by
  have blanks (n : Nat) : IsLine (List.replicate n ' ') := by
    apply IsLine.of_plain
    · intro feed
      exact absurd (List.eq_of_mem_replicate feed) (by decide)
    · intro c mem
      rw [List.eq_of_mem_replicate mem]
      decide
  have shown := ((blanks (width - (toString number).toList.length)).append
    (isLine_number number)).append (blanks 1)
  exact (shown.wrap (e := .lineNumber) trivial).append h

theorem isLine_decorate (emphasised : List Int) (numbered : Bool) {lines : List (List Char)}
    (h : ∀ l ∈ lines, IsLine l) : ∀ l ∈ decorate emphasised numbered lines, IsLine l := by
  intro l mem
  obtain ⟨i, bound, rfl⟩ := List.mem_mapIdx.1 mem
  have line := isLine_emphasise emphasised (i + 1) (h _ (List.getElem_mem bound))
  dsimp only
  split
  · exact isLine_enumerateLine _ _ line
  · exact line

theorem nested_join {lines : List (List Char)} (h : ∀ l ∈ lines, IsLine l) :
    Nested Element.InLine (joinWithLineFeeds lines) := by
  induction lines with
  | nil => exact .nil
  | cons l ls ih =>
    obtain ⟨first, others⟩ := List.forall_mem_cons.1 h
    cases ls with
    | nil =>
      rw [join_single]
      exact first.nested
    | cons m ls =>
      rw [join_cons]
      exact first.nested.append (.plain (by decide) (ih others))

/-! ## Pages -/

theorem inPage_of_inLine (language : List Char) (e : Element) (h : e.InLine) :
    e.InPage language := by
  cases e with
  | category | emphasis | lineNumber => trivial
  | plainBlock | haskellBlock | code => cases h

/-- A block of Haskell, as one element in another one. -/
theorem haskellBlock_eq (lines : List (List Char)) :
    haskellBlock lines =
      Element.haskellBlock.openTag ++
        ((Element.code (some "haskell".toList)).openTag ++ joinWithLineFeeds lines ++
          (Element.code (some "haskell".toList)).closeTag) ++
        Element.haskellBlock.closeTag := by
  simp only [List.append_assoc]
  rfl

theorem decorate_ne_nil (emphasised : List Int) (numbered : Bool) {lines : List (List Char)}
    (some : lines ≠ []) : decorate emphasised numbered lines ≠ [] := by
  intro none
  have empty := congrArg List.length none
  simp only [decorate, List.length_mapIdx, List.length_nil, List.length_eq_zero_iff] at empty
  exact some empty

theorem haskellBlock_nested {lines : List (List Char)} {language : List Char}
    (haskell : Session.isHaskell language = true) (h : ∀ l ∈ lines, IsLine l) :
    Nested (Element.InPage language) (haskellBlock lines) := by
  have outer : Element.haskellBlock.InPage language := trivial
  have named : (Element.code (some "haskell".toList)).InPage language := by
    simp only [Element.InPage, haskell, if_true]
  rw [haskellBlock_eq]
  apply Nested.wrap outer
  apply Nested.wrap named
  exact (nested_join h).mono (inPage_of_inLine language)

/-- The lines of the body are the lines that were joined. -/
theorem nested_of_mem_splitOn {lines : List (List Char)} {line : List Char} (some : lines ≠ [])
    (h : ∀ l ∈ lines, IsLine l) (mem : line ∈ (joinWithLineFeeds lines).splitOn '\n') :
    Nested Element.InLine line := by
  have noFeeds : ∀ l ∈ lines, '\n' ∉ l := fun l among => (h l among).noFeed
  rw [joinWithLineFeeds, List.splitOn_intercalate '\n' noFeeds some] at mem
  exact (h line mem).nested

/-- The language that the class of a block names. -/
def shownLanguage (language : List Char) : Option (List Char) :=
  if language = [] then none else some (escape language)

/-- A block that is not highlighted, as one element in another one. -/
theorem plainBlock_eq (text language : List Char) :
    plainBlock text language =
      Element.plainBlock.openTag ++
        ((Element.code (shownLanguage language)).openTag ++ escape text ++
          (Element.code (shownLanguage language)).closeTag) ++
        Element.plainBlock.closeTag := by
  unfold plainBlock shownLanguage
  by_cases unnamed : language = []
  · simp only [if_pos unnamed, List.append_assoc]
    rfl
  · simp only [if_neg unnamed, Element.openTag, Element.heading, Element.class?, Option.map_some,
      List.append_assoc, List.cons_append]
    rfl

theorem inPage_shownLanguage {language : List Char} (other : Session.isHaskell language = false) :
    (Element.code (shownLanguage language)).InPage language := by
  unfold shownLanguage
  split
  · trivial
  · simp only [Element.InPage, other]
    rfl

theorem plainBlock_nested (text : List Char) {language : List Char}
    (other : Session.isHaskell language = false) :
    Nested (Element.InPage language) (plainBlock text language) := by
  have outer : Element.plainBlock.InPage language := trivial
  rw [plainBlock_eq]
  apply Nested.wrap outer
  apply Nested.wrap (inPage_shownLanguage other)
  exact nested_escape text

end Html

open Html in
/-- **Nothing is injected.** A page is mark-up with nothing but the elements
that pages are built from, each closed where the one around it still is open.
Whatever the text and the language are, a `<` begins one of their tags, a `>`
ends one, a quote stands in one and a `&` begins an entity. Between the tags
around a block of Haskell each line closes what it opens. There is a page unless
the lexer gives up a block of Haskell. -/
theorem page_well_formed (s : Session) (text language : List Char)
    (emphasised : Option (List Int)) (numbered : Bool) :
    (∃ html, (s.haskellHtml text language emphasised numbered).2.value = .ok html ∧
      Nested (Element.InPage language) html ∧
      Everywhere (Stands (Element.InPage language)) html ∧
      (Session.isHaskell language = true →
        ∃ body, html =
            Element.haskellBlock.openTag ++
              ((Element.code (some "haskell".toList)).openTag ++ body ++
                (Element.code (some "haskell".toList)).closeTag) ++
              Element.haskellBlock.closeTag ∧
          ∀ line ∈ body.splitOn '\n', Nested Element.InLine line)) ∨
    Session.isHaskell language = true ∧ ∃ o, lex s.active text = .error (.numeral o) ∧
      (s.haskellHtml text language emphasised numbered).2.value = .error (.numeral o) := by
  cases haskell : Session.isHaskell language with
  | true =>
    obtain ⟨pieces, -, -, value⟩ | ⟨o, lexed, value⟩ := s.haskellHtml_cases text haskell
    · left
      have lines := isLine_decorate (emphasised.getD []) numbered (isLine_renderLines text pieces)
      have some : decorate (emphasised.getD []) numbered (renderLines text pieces) ≠ [] :=
        decorate_ne_nil _ _ (markLines_ne_nil _)
      have nested := haskellBlock_nested haskell lines
      refine ⟨_, value emphasised numbered, nested, everywhere_of_nested nested, ?_⟩
      intro _
      refine ⟨_, haskellBlock_eq _, ?_⟩
      intro line mem
      exact nested_of_mem_splitOn some lines mem
    · exact .inr ⟨rfl, o, lexed, value emphasised numbered⟩
  | false =>
    left
    have value : (s.haskellHtml text language emphasised numbered).2.value =
        .ok (plainBlock text language) := by
      simp [Session.haskellHtml, haskell]
    have nested := plainBlock_nested text haskell
    refine ⟨_, value, nested, everywhere_of_nested nested, ?_⟩
    intro isHaskell
    cases isHaskell

end HaskellLexis
