import HaskellLexis.Proofs.Braces

/-!
# The offside rule

Implicit blocks lie one to the right of the other, as far as no explicit one is
between them. So it is enough to look at the innermost block to know which ones
a line closes.

* `Rising`: each implicit block is right of the block around it;
* `Layout.passed`: the layouts on the way to a lexeme, all rising;
* `Layout.place_cases`: why each brace before a lexeme is there;
* `rising_of_run`, `line_of_run`: what holds wherever the lexer stands;
* `offside_rule`: which blocks indentation closes, and which are left.
-/

namespace HaskellLexis

/-- The column that the innermost block asks of a new one. -/
def brink (bs : List Block) : Int := (bs.head?.map Block.edge).getD 0

/-- Each implicit block lies further right than the block around it. -/
def Rising : List Block → Prop
  | [] => True
  | b :: bs => (b.isImplicit = true → brink bs < b.edge) ∧ Rising bs

/-- No block since the innermost explicit one lies to the right of the column. -/
def Within (col : Int) (bs : List Block) : Prop :=
  ∀ b ∈ bs.takeWhile Block.isImplicit, b.edge ≤ col

instance (col : Int) (bs : List Block) : Decidable (Within col bs) :=
  inferInstanceAs (Decidable (∀ b ∈ bs.takeWhile Block.isImplicit, b.edge ≤ col))

namespace Rising

variable {bs cs : List Block} {b : Block} {col : Int}

theorem suffix (h : Rising bs) (part : cs <:+ bs) : Rising cs := by
  induction bs with
  | nil =>
    rw [List.suffix_nil.1 part]
    exact h
  | cons b bs ih =>
    obtain rfl | inner := List.suffix_cons_iff.1 part
    · exact h
    · exact ih h.2 inner

/-- The innermost block bounds those around it. -/
theorem within (h : Rising bs) (top : ∀ b, bs.head? = some b → b.isRightOf col = false) :
    Within col bs := by
  induction bs with
  | nil =>
    intro b hb
    cases hb
  | cons c bs ih =>
    intro b hb
    cases c with
    | explicit => cases hb
    | implicit edge opener =>
      have bound : edge ≤ col := by
        have notRight := top _ rfl
        simpa [Block.isRightOf] using notRight
      obtain rfl | inner := List.mem_cons.1 hb
      · exact bound
      · apply ih h.2 _ b inner
        intro d first
        have below := h.1 rfl
        rw [brink, first] at below
        cases d with
        | explicit => rfl
        | implicit e o =>
          change e < edge at below
          simp only [Block.isRightOf, decide_eq_false_iff_not]
          omega

end Rising

namespace Placing

/-- The layouts in which the braces are delivered, and the one after them. -/
def layouts (p : Placing) : List Layout := p.braces.map Prod.snd ++ [p.layout]

def Rises (p : Placing) : Prop := ∀ l ∈ p.layouts, Rising l.blocks

/-- Blocks are only closed, from the innermost on. -/
def Shrinks (l : Layout) (p : Placing) : Prop := ∀ l' ∈ p.layouts, l'.blocks <:+ l.blocks

variable {p : Placing} {l : Layout} {f : Layout → Placing}

theorem mem_layouts {l : Layout} : l ∈ p.layouts ↔ l ∈ p.braces.map Prod.snd ∨ l = p.layout := by
  rw [layouts, List.mem_append, List.mem_singleton]

theorem layout_mem (p : Placing) : p.layout ∈ p.layouts := mem_layouts.2 (.inr rfl)

theorem Shrinks.rises (h : p.Shrinks l) (rising : Rising l.blocks) : p.Rises :=
  fun l' hl => rising.suffix (h l' hl)

theorem Rises.layout (h : p.Rises) : Rising p.layout.blocks := h p.layout p.layout_mem

theorem Rises.andThen (h : p.Rises) (h' : (f p.layout).Rises) : (p.andThen f).Rises := by
  intro l' hl
  obtain inner | rfl := mem_layouts.1 hl
  · rw [Placing.andThen, List.map_append, List.mem_append] at inner
    obtain first | more := inner
    · exact h l' (mem_layouts.2 (.inl first))
    · exact h' l' (mem_layouts.2 (.inl more))
  · exact h'.layout

end Placing

namespace Layout

variable {kind : Kind} {start : Position} {l : Layout}

/-- All layouts on the way to the one in which a lexeme is delivered. -/
def passed (kind : Kind) (start : Position) (l : Layout) : List Layout :=
  let opened := l.openPending kind start.col
  let kept := (if l.opens kind start.col then stay else dedent start) opened.layout
  let left := kept.layout.closeLet kind
  [opened, kept, left, left.layout.explicitBrace kind].flatMap Placing.layouts

theorem stay_shrinks (l : Layout) : l.stay.Shrinks l := by
  intro l' hl
  obtain none | rfl := Placing.mem_layouts.1 hl
  · cases none
  · exact List.suffix_refl _

theorem stay_rises (rising : Rising l.blocks) : l.stay.Rises := (stay_shrinks l).rises rising

theorem shrinks_of_closings {bss : List (List Block)} {bs : List Block}
    (inner : ∀ cs ∈ bss, cs <:+ l.blocks) (last : bs <:+ l.blocks) :
    Placing.Shrinks l ⟨bss.map fun cs => (.closing, l.withBlocks cs), l.withBlocks bs⟩ := by
  intro l' hl
  obtain closed | rfl := Placing.mem_layouts.1 hl
  · rw [List.map_map] at closed
    obtain ⟨cs, hcs, rfl⟩ := List.mem_map.1 closed
    exact inner cs hcs
  · exact last

theorem closings_suffix {p : Block → Bool} {bs : List Block} :
    ∀ cs ∈ closings p bs, cs <:+ bs := by
  induction bs with
  | nil =>
    intro cs none
    cases none
  | cons b bs ih =>
    intro cs hcs
    rw [closings] at hcs
    split at hcs
    · obtain rfl | inner := List.mem_cons.1 hcs
      · exact List.suffix_cons _ _
      · exact (ih cs inner).trans (List.suffix_cons _ _)
    · cases hcs

theorem allClosings_suffix {bs : List Block} : ∀ cs ∈ allClosings bs, cs <:+ bs := by
  induction bs with
  | nil =>
    intro cs none
    cases none
  | cons b bs ih =>
    intro cs hcs
    rw [allClosings] at hcs
    split at hcs
    · obtain rfl | inner := List.mem_cons.1 hcs
      · exact List.suffix_cons _ _
      · exact (ih cs inner).trans (List.suffix_cons _ _)
    · exact (ih cs hcs).trans (List.suffix_cons _ _)

theorem closeWhile_shrinks (p : Block → Bool) (l : Layout) : (l.closeWhile p).Shrinks l :=
  shrinks_of_closings closings_suffix (List.dropWhile_suffix p)

theorem closeAll_shrinks (l : Layout) : l.closeAll.Shrinks l :=
  shrinks_of_closings allClosings_suffix List.nil_suffix

theorem dedent_shrinks (start : Position) (l : Layout) : (l.dedent start).Shrinks l := by
  unfold dedent
  split
  · exact closeWhile_shrinks _ l
  · exact stay_shrinks l

theorem closeLet_shrinks (kind : Kind) (l : Layout) : (l.closeLet kind).Shrinks l := by
  unfold closeLet
  split
  · rename_i b bs blocks
    split
    · have inner : bs <:+ l.blocks := by
        rw [blocks]
        exact List.suffix_cons b bs
      have one : ∀ cs ∈ [bs], cs <:+ l.blocks := by
        intro cs hcs
        rwa [List.mem_singleton.1 hcs]
      exact shrinks_of_closings one inner
    · exact stay_shrinks l
  · exact stay_shrinks l

/-- A block opens to the right of all that are open, or none does. -/
theorem openPending_blocks (kind : Kind) (col : Int) (l : Layout) :
    (l.opens kind col = true ∧ brink l.blocks < col ∧ ∃ opener,
      (l.openPending kind col).layout.blocks = .implicit col opener :: l.blocks) ∨
    (l.opens kind col = false ∧ (l.openPending kind col).layout.blocks = l.blocks) := by
  cases opens : l.opens kind col with
  | true =>
    left
    have test := opens
    simp only [Layout.opens, Bool.and_eq_true, decide_eq_true_eq] at test
    obtain ⟨⟨waits, noBrace⟩, right⟩ := test
    obtain ⟨opener, pending⟩ := Option.isSome_iff_exists.1 waits
    refine ⟨rfl, right, opener, ?_⟩
    simp only [openPending, pending, opens, if_neg noBrace, if_true]
    rfl
  | false =>
    right
    refine ⟨rfl, ?_⟩
    unfold openPending
    split
    · rfl
    · split
      · rfl
      · rw [opens]
        rfl

theorem openPending_line (kind : Kind) (col : Int) (l : Layout) :
    (l.openPending kind col).layout.lastLine = l.lastLine := by
  unfold openPending
  split
  · rfl
  · split
    · rfl
    · split <;> rfl

theorem openPending_rises (kind : Kind) (col : Int) (rising : Rising l.blocks) :
    (l.openPending kind col).Rises := by
  intro l' hl
  obtain inner | rfl := Placing.mem_layouts.1 hl
  · -- the braces of a block are delivered before it is entered
    have same : l'.blocks = l.blocks := by
      unfold openPending at inner
      split at inner
      · cases inner
      · split at inner
        · cases inner
        · split at inner
          · rw [List.mem_singleton.1 inner]
          · obtain rfl | again := List.mem_cons.1 inner
            · rfl
            · rw [List.mem_singleton.1 again]
    rw [same]
    exact rising
  · obtain ⟨-, right, opener, blocks⟩ | ⟨-, blocks⟩ := openPending_blocks kind col l
    · rw [blocks]
      exact ⟨fun _ => right, rising⟩
    · rw [blocks]
      exact rising

theorem explicitBrace_rises (kind : Kind) (rising : Rising l.blocks) :
    (l.explicitBrace kind).Rises := by
  unfold explicitBrace
  split
  · have entered : Rising (.explicit :: l.blocks) :=
      ⟨fun explicit => (Bool.false_ne_true explicit).elim, rising⟩
    exact stay_rises entered
  · split
    · have closed := (closeWhile_shrinks Block.isImplicit l).rises rising
      have left := closed.layout.suffix (List.tail_suffix _)
      exact closed.andThen (stay_rises left)
    · exact stay_rises rising

theorem passed_rises (kind : Kind) (start : Position) (rising : Rising l.blocks) :
    ∀ l' ∈ l.passed kind start, Rising l'.blocks := by
  have opened := openPending_rises kind start.col rising
  have kept : ((if l.opens kind start.col then stay else dedent start)
      (l.openPending kind start.col).layout).Rises := by
    split
    · exact stay_rises opened.layout
    · exact (dedent_shrinks start _).rises opened.layout
  have left := (closeLet_shrinks kind _).rises kept.layout
  have braced := explicitBrace_rises kind left.layout
  intro l' hl
  obtain ⟨p, hp, stage⟩ := List.mem_flatMap.1 hl
  simp only [List.mem_cons, List.not_mem_nil, or_false] at hp
  obtain rfl | rfl | rfl | rfl := hp
  · exact opened l' stage
  · exact kept l' stage
  · exact left l' stage
  · exact braced l' stage

/-- What a reader sees on the way to a lexeme is passed on the way. -/
theorem layouts_place (kind : Kind) (start : Position) (l : Layout) :
    (l.place kind start).layouts ⊆ l.passed kind start := by
  intro l' hl
  simp only [Placing.layouts, place, Placing.andThen, passed, List.map_append, List.mem_append,
    List.flatMap_cons] at hl ⊢
  grind

theorem finish_rises (rising : Rising l.blocks) : l.finish.Rises := by
  have closed : { l with pending := none }.closeAll.Rises :=
    (closeAll_shrinks { l with pending := none }).rises rising
  unfold finish
  split
  · have empty : (Placing.mk [(.opening, { l with pending := none }),
        (.closing, { l with pending := none })] { l with pending := none }).Rises := by
      intro l' hl
      have same : l' = { l with pending := none } := by simpa [Placing.layouts] using hl
      rw [same]
      exact rising
    exact empty.andThen closed
  · exact closed

/-! ## Which blocks a line closes -/

/-- Of the blocks `before`, a lexeme closes some by where it starts: those that
lie to the right of it, and only at the start of a line. -/
structure Dedents (line : Int) (start : Position) (before closed kept : List Block) : Prop where
  split : before = closed ++ kept
  right : ∀ b ∈ closed, b.isImplicit = true ∧ start.col < b.edge
  newLine : closed ≠ [] → line < start.line

theorem Dedents.none (line : Int) (start : Position) (bs : List Block) :
    Dedents line start bs [] bs :=
  ⟨rfl, fun _ hb => (List.not_mem_nil hb).elim, fun some => absurd rfl some⟩

theorem length_closings (p : Block → Bool) (bs : List Block) :
    (closings p bs).length = (bs.takeWhile p).length := by
  induction bs with
  | nil => rfl
  | cons b bs ih =>
    by_cases h : p b = true
    · rw [closings, if_pos h, List.takeWhile_cons_of_pos h, List.length_cons, List.length_cons, ih]
    · rw [closings, if_neg h, List.takeWhile_cons_of_neg h]
      rfl

theorem tokens_closeWhile (p : Block → Bool) (l : Layout) :
    (l.closeWhile p).tokens =
      List.replicate (l.blocks.takeWhile p).length (.virtual .closing) := by
  rw [Placing.tokens, closeWhile, List.map_map, ← length_closings]
  exact (List.map_const' : (closings p l.blocks).map (fun _ => Token.virtual .closing) = _)

theorem dedent_cases (start : Position) (l : Layout) :
    ∃ closed kept, Dedents l.lastLine start l.blocks closed kept ∧
      (l.lastLine < start.line → ∀ b, kept.head? = some b → b.isRightOf start.col = false) ∧
      (l.dedent start).tokens = List.replicate closed.length (.virtual .closing) ∧
      (l.dedent start).layout = l.withBlocks kept := by
  unfold dedent
  split
  · rename_i newLine
    refine ⟨l.blocks.takeWhile (Block.isRightOf start.col),
      l.blocks.dropWhile (Block.isRightOf start.col),
      ⟨List.takeWhile_append_dropWhile.symm, ?_, fun _ => newLine⟩, ?_, tokens_closeWhile _ l, rfl⟩
    · intro b hb
      have right := List.mem_takeWhile_imp hb
      cases b with
      | explicit => cases right
      | implicit col opener => exact ⟨rfl, of_decide_eq_true right⟩
    · intro _ b first
      have stop := List.head?_dropWhile_not (Block.isRightOf start.col) l.blocks
      rw [first] at stop
      simpa using stop
  · rename_i sameLine
    exact ⟨[], l.blocks, .none _ _ _, fun newLine => absurd newLine sameLine, rfl, rfl⟩

theorem andThen_assoc (p : Placing) (f g : Layout → Placing) :
    (p.andThen f).andThen g = p.andThen fun l => (f l).andThen g := by
  simp only [Placing.andThen, List.append_assoc]

/-- What a lexeme itself asks for: `in` ends a block, and braces of the text
begin and end some. -/
def asked (kind : Kind) (l : Layout) : Placing := (l.closeLet kind).andThen (explicitBrace kind)

/-- The braces before a lexeme: those of a block that opens or is empty, those
of the blocks that indentation closes, and those that the lexeme itself asks
for. Of the blocks that indentation leaves, none since the innermost explicit
one lies to the right of a lexeme that starts a line. -/
theorem place_cases (kind : Kind) (start : Position) (rising : Rising l.blocks) :
    let opened := l.openPending kind start.col
    ∃ closed kept, Dedents l.lastLine start opened.layout.blocks closed kept ∧
      (l.lastLine < start.line → Within start.col kept) ∧
      (l.place kind start).tokens = opened.tokens ++
        List.replicate closed.length (.virtual .closing) ++
        ((opened.layout.withBlocks kept).asked kind).tokens ∧
      (l.place kind start).layout = ((opened.layout.withBlocks kept).asked kind).layout := by
  intro opened
  have entered : Rising opened.layout.blocks :=
    (openPending_rises kind start.col rising).layout
  have assembled {f : Layout → Placing} {closed kept : List Block}
      (tokens : (f opened.layout).tokens = List.replicate closed.length (.virtual .closing))
      (layout : (f opened.layout).layout = opened.layout.withBlocks kept) :
      (((opened.andThen f).andThen (closeLet kind)).andThen (explicitBrace kind)).tokens =
          opened.tokens ++ List.replicate closed.length (.virtual .closing) ++
            ((opened.layout.withBlocks kept).asked kind).tokens ∧
        (((opened.andThen f).andThen (closeLet kind)).andThen (explicitBrace kind)).layout =
          ((opened.layout.withBlocks kept).asked kind).layout := by
    have left : (opened.andThen f).layout = opened.layout.withBlocks kept := layout
    rw [andThen_assoc, Placing.tokens_andThen, Placing.tokens_andThen, tokens, left]
    refine ⟨rfl, ?_⟩
    rw [← left]
    rfl
  obtain ⟨opens, -, opener, blocks⟩ | ⟨opens, -⟩ := openPending_blocks kind start.col l
  · rw [place, opens, if_pos rfl]
    refine ⟨[], opened.layout.blocks, .none _ _ _, ?_, assembled rfl rfl⟩
    intro _
    apply entered.within
    intro b first
    rw [blocks] at first
    cases first
    simp [Block.isRightOf]
  · rw [place, opens, if_neg Bool.false_ne_true]
    obtain ⟨closed, kept, dedents, top, tokens, layout⟩ := dedent_cases start opened.layout
    rw [openPending_line] at dedents top
    refine ⟨closed, kept, dedents, ?_, assembled tokens layout⟩
    intro newLine
    exact (entered.suffix ⟨closed, dedents.split.symm⟩).within (top newLine)

theorem closeLet_within {col : Int} (kind : Kind) (h : Within col l.blocks) :
    Within col (l.closeLet kind).layout.blocks := by
  unfold closeLet
  split
  · rename_i b bs blocks
    split
    · rename_i closes
      have implicit : b.isImplicit = true :=
        Block.isImplicit_of_isLet (Bool.and_eq_true_iff.1 closes).2
      rw [blocks] at h
      intro c hc
      apply h c
      rw [List.takeWhile_cons_of_pos implicit]
      exact List.mem_cons_of_mem b hc
    · exact h
  · exact h

/-- A closing brace of the text that has no partner ends all blocks. -/
theorem explicitBrace_within {col : Int} (h : Within col l.blocks)
    (alone : kind = .punctuation .closeBrace → .explicit ∉ l.blocks) :
    Within col (l.explicitBrace kind).layout.blocks := by
  unfold explicitBrace
  split
  · intro b hb
    cases hb
  · split
    · rename_i closes
      have all : l.blocks.dropWhile Block.isImplicit = [] := by
        rw [List.dropWhile_eq_nil_iff]
        intro b hb
        cases b with
        | explicit => exact absurd hb (alone closes)
        | implicit col opener => rfl
      change Within col (l.blocks.dropWhile Block.isImplicit).tail
      rw [all]
      intro b hb
      cases hb
    · exact h

/-- Behind a lexeme that starts a line no block since the innermost explicit
one lies to the right of it, unless the lexeme is what ended an explicit one. -/
theorem place_within (rising : Rising l.blocks) (newLine : l.lastLine < start.line)
    (alone : kind = .punctuation .closeBrace → .explicit ∉ l.blocks) :
    Within start.col (l.place kind start).layout.blocks := by
  obtain ⟨closed, kept, dedents, within, -, layout⟩ := place_cases kind start rising
  rw [layout]
  apply explicitBrace_within (closeLet_within kind (within newLine))
  intro closes explicit
  have inKept : Block.explicit ∈ kept :=
    (closeLet_shrinks kind _ _ (Placing.layout_mem _)).subset explicit
  have before : Block.explicit ∈ (l.openPending kind start.col).layout.blocks := by
    rw [dedents.split]
    exact List.mem_append_right closed inKept
  obtain ⟨-, -, opener, blocks⟩ | ⟨-, blocks⟩ := openPending_blocks kind start.col l
  · rw [blocks] at before
    obtain same | inner := List.mem_cons.1 before
    · cases same
    · exact alone closes inner
  · rw [blocks] at before
    exact alone closes before

end Layout

/-! ## Wherever the lexer stands -/

/-- The lexeme counts for layout: no pragma is open before or behind it, and it
is no comment and no part of a pragma. -/
def Lexeme.counts (inside : Bool) (l : Lexeme) : Bool :=
  !inside && !(Token.lexeme l).pragmaAfter inside && !l.kind.isTransparent

/-- Whether a pragma is open behind the tokens of a text. -/
def insidePragma (tokens : List Token) : Bool := tokens.foldl Token.pragmaAfter false

def Token.lineAfter (line : Int) : Token → Int
  | .lexeme l => if l.kind.isTransparent then line else l.span.stop.line
  | .virtual _ => line

/-- The line on which the last lexeme ends that counts for layout, and 0 where
there is none. -/
def endLine (tokens : List Token) : Int := (outside false tokens).foldl Token.lineAfter 0

namespace Lexer

variable {x y : Lexer} {l : Lexeme} {ls : List Lexeme} {out : List (Token × Lexer)}

/-- An open pragma ends by a lexeme that does not count. -/
theorem counts_eq (x : Lexer) (l : Lexeme) :
    l.counts x.pragma.isSome = (!l.kind.isTransparent && (x.pragmaAfter l.kind).isNone) := by
  rw [Lexeme.counts, pragmaAfter_isSome]
  cases transparent : l.kind.isTransparent with
  | true => simp
  | false =>
    cases after : x.pragmaAfter l.kind with
    | some p => simp
    | none =>
      simp [pragma_of_pragmaAfter transparent after]

/-- What a step does to the layout, and in which layouts it delivers. -/
theorem layout_of_step (h : Step x l out y) :
    (l.counts x.pragma.isSome = true ∧
      out.map Prod.fst = (x.layout.place l.kind l.span.start).tokens ++ [.lexeme l] ∧
      out.map (·.2.layout) = (x.layout.place l.kind l.span.start).layouts ∧
      y.layout = (x.layout.place l.kind l.span.start).layout.settle l.kind l.span.stop) ∨
    (l.counts x.pragma.isSome = false ∧ out.map Prod.fst = [.lexeme l] ∧
      out.map (·.2.layout) = [x.layout] ∧ y.layout = x.layout) := by
  obtain ⟨front, scanned, cut⟩ := h
  rename_i c r k n y
  obtain ⟨rfl, rfl⟩ := Prod.mk.inj cut
  have seen := counts_eq x.skipBlanks (x.skipBlanks.cut k (n + 1)).1
  unfold emit
  split
  · rename_i sees
    refine .inl ⟨seen.trans sees, ?_, ?_, rfl⟩
    · rw [List.map_append, map_braceItems]
      rfl
    · rw [List.map_append, braceItems, List.map_map]
      rfl
  · rename_i unseen
    exact .inr ⟨seen.trans (Bool.eq_false_iff.2 unseen), rfl, rfl, rfl⟩

/-- A step keeps blocks rising, whenever it delivers and behind it. -/
theorem rising_of_step (h : Step x l out y) (rising : Rising x.layout.blocks) :
    (∀ p ∈ out, Rising p.2.layout.blocks) ∧ Rising y.layout.blocks := by
  obtain ⟨-, -, layouts, layout⟩ | ⟨-, -, layouts, layout⟩ := layout_of_step h
  · have placed : (x.layout.place l.kind l.span.start).Rises := fun m hm =>
      Layout.passed_rises _ _ rising m (Layout.layouts_place _ _ _ hm)
    constructor
    · intro p hp
      apply placed
      rw [← layouts]
      exact List.mem_map_of_mem hp
    · rw [layout]
      exact placed.layout
  · constructor
    · intro p hp
      have same := List.mem_map_of_mem (f := (·.2.layout)) hp
      rw [layouts, List.mem_singleton] at same
      rw [same]
      exact rising
    · rw [layout]
      exact rising

theorem rising_of_run (h : Run x ls out y) (rising : Rising x.layout.blocks) :
    Rising y.layout.blocks := by
  induction h with
  | stay => exact rising
  | step s _ ih => exact ih (rising_of_step s rising).2

/-- Braces that the layout makes are on no line. -/
theorem foldl_lineAfter_tokens (line : Int) (p : Placing) :
    p.tokens.foldl Token.lineAfter line = line := by
  rw [Placing.tokens]
  induction p.braces with
  | nil => rfl
  | cons b bs ih => exact ih

theorem line_of_step (h : Step x l out y) :
    (outside x.pragma.isSome (out.map Prod.fst)).foldl Token.lineAfter x.layout.lastLine =
      y.layout.lastLine := by
  obtain ⟨counts, tokens, -, layout⟩ | ⟨counts, tokens, -, layout⟩ := layout_of_step h
  · simp only [Lexeme.counts, Bool.and_eq_true, Bool.not_eq_true'] at counts
    obtain ⟨⟨closed, past⟩, solid⟩ := counts
    rw [closed] at past ⊢
    have quiet := outside_tokens false (x.layout.place l.kind l.span.start)
    rw [tokens, layout, outside_append, quiet.1, quiet.2, outside_lexeme, past, List.foldl_append,
      foldl_lineAfter_tokens]
    simp [Token.lineAfter, solid, Layout.settle]
  · rw [tokens, layout, outside_lexeme]
    split
    · rfl
    · rename_i seen
      have transparent : l.kind.isTransparent = true := by
        rw [Bool.not_eq_true, Bool.or_eq_false_iff] at seen
        rw [Lexeme.counts, seen.2, seen.1] at counts
        simpa using counts
      exact if_pos transparent

/-- The layout knows the line on which the last lexeme ends that counts. -/
theorem line_of_run (h : Run x ls out y) :
    (outside x.pragma.isSome (out.map Prod.fst)).foldl Token.lineAfter x.layout.lastLine =
      y.layout.lastLine := by
  induction h with
  | stay => rfl
  | step s _ ih =>
    rw [List.map_append, outside_append, (mirrors_of_step s).pragma, List.foldl_append,
      line_of_step s, ih]

end Lexer

/-- What the lexeme `T` makes of the layout `l`, when the last lexeme before it
that counts ends on `line`, and with which braces. Indentation closes the blocks
`closed`; the others that end are an empty one and those that `T` asks for. -/
structure Layout.Obeys (l l' : Layout) (line : Int) (T : Lexeme) (braces : List Token) : Prop where
  rising : ∀ m ∈ l.passed T.kind T.span.start, Rising m.blocks
  within : line < T.span.start.line →
    ¬(T.kind = .punctuation .closeBrace ∧ .explicit ∈ l.blocks) →
      Within T.span.start.col l'.blocks
  dedents : let opened := l.openPending T.kind T.span.start.col
    ∃ closed kept, Layout.Dedents line T.span.start opened.layout.blocks closed kept ∧
      braces = opened.tokens ++ List.replicate closed.length (.virtual .closing) ++
        ((opened.layout.withBlocks kept).asked T.kind).tokens ∧
      l'.blocks = ((opened.layout.withBlocks kept).asked T.kind).layout.blocks

open Lexer in
/-- **The offside rule.** Wherever the lexer stands in a text, and in between,
each implicit block lies to the right of the block around it. A lexeme closes
by where it starts only blocks to the right of it, and only at the start of a
line; then none to the right of it is left since the innermost explicit one,
unless the lexeme is the brace that ends an explicit one. -/
theorem offside_rule {config : Config} {text : List Char} {ls : List Lexeme}
    {out : List (Token × Lexer)} {x : Lexer} (run : Run (start config text) ls out x) :
    Rising x.layout.blocks ∧ x.layout.finish.Rises ∧ x.layout.finish.layout.blocks = [] ∧
      ∀ T more y, Step x T more y → (∀ p ∈ more, Rising p.2.layout.blocks) ∧
        if T.counts (insidePragma (out.map Prod.fst)) then
          ∃ braces, more.map Prod.fst = braces ++ [.lexeme T] ∧
            x.layout.Obeys y.layout (endLine (out.map Prod.fst)) T braces
        else more.map Prod.fst = [.lexeme T] ∧ y.layout = x.layout := by
  have inside : insidePragma (out.map Prod.fst) = x.pragma.isSome := (mirrors_of_run run).pragma
  have line : endLine (out.map Prod.fst) = x.layout.lastLine := line_of_run run
  have rising : Rising x.layout.blocks := rising_of_run run trivial
  refine ⟨rising, Layout.finish_rises rising, ?_, ?_⟩
  · unfold Layout.finish
    split <;> rfl
  · intro T more y step
    refine ⟨(rising_of_step step rising).1, ?_⟩
    rw [inside, line]
    obtain ⟨counts, tokens, -, layout⟩ | ⟨counts, tokens, -, layout⟩ := layout_of_step step
    · rw [if_pos counts]
      refine ⟨_, tokens, Layout.passed_rises _ _ rising, ?_, ?_⟩
      · intro newLine partner
        rw [layout]
        exact Layout.place_within rising newLine fun closes explicit => partner ⟨closes, explicit⟩
      · obtain ⟨closed, kept, dedents, -, tokens, placed⟩ :=
          Layout.place_cases T.kind T.span.start rising
        refine ⟨closed, kept, dedents, tokens, ?_⟩
        rw [layout, ← placed]
        rfl
    · rw [if_neg (by simp [counts])]
      exact ⟨tokens, layout⟩

open Lexer in
/-- The second line ends the block of the first. -/
theorem offside_rule_line :
    let text := ['d', 'o', ' ', 'x', '\n', 'y']
    ∃ ls out x T more y, Run (start .permissive text) ls out x ∧ Step x T more y ∧
      T.counts (insidePragma (out.map Prod.fst)) = true ∧
      endLine (out.map Prod.fst) < T.span.start.line ∧
      x.layout.blocks = [.implicit 4 (.keyword .doKw)] ∧
      more.map Prod.fst = [.virtual .closing, .lexeme T] ∧
      Rising x.layout.blocks ∧ Within T.span.start.col y.layout.blocks := by
  intro text
  have reached : ∃ ls out x T more y, Run (start .permissive text) ls out x ∧ Step x T more y ∧
      T.counts (insidePragma (out.map Prod.fst)) = true ∧
      endLine (out.map Prod.fst) < T.span.start.line ∧
      x.layout.blocks = [.implicit 4 (.keyword .doKw)] ∧
      more.map Prod.fst = [.virtual .closing, .lexeme T] := by
    refine ⟨_, _, _, _, _, _,
      .step (.take (c := 'd') (r := text.tail) (k := .keyword .doKw) (n := 1) ?_ ?_ rfl)
        (.step (.take (c := 'x') (r := ['\n', 'y']) (k := .name .varid) (n := 0) ?_ ?_ rfl)
          (.stay _)),
      .take (c := 'y') (r := []) (k := .name .varid) (n := 0) ?_ ?_ rfl, ?_, ?_, ?_, ?_⟩
    all_goals decide +kernel
  obtain ⟨ls, out, x, T, more, y, run, step, counts, newLine, blocks, tokens⟩ := reached
  obtain ⟨rising, -, -, rule⟩ := offside_rule run
  have obeys := (rule T more y step).2
  rw [if_pos counts] at obeys
  obtain ⟨braces, -, obeys⟩ := obeys
  have within := obeys.within newLine (by simp [blocks])
  exact ⟨ls, out, x, T, more, y, run, step, counts, newLine, blocks, tokens, rising, within⟩

open Lexer in
/-- The brace ends an explicit block at the start of a line, and uncovers an
implicit one to the right of it, which stays open. -/
theorem offside_uncovered :
    let text := ['d', 'o', ' ', 'x', ' ', '{', '\n', '}', 'y']
    ∃ ls out x T more y, Run (start .permissive text) ls out x ∧ Step x T more y ∧
      T.counts (insidePragma (out.map Prod.fst)) = true ∧
      endLine (out.map Prod.fst) < T.span.start.line ∧
      T.text = ['}'] ∧ T.span.start = ⟨2, 1⟩ ∧ more.map Prod.fst = [.lexeme T] ∧
      y.layout.blocks = [.implicit 4 (.keyword .doKw)] ∧
      ¬Within T.span.start.col y.layout.blocks := by
  intro text
  refine ⟨_, _, _, _, _, _,
    .step (.take (c := 'd') (r := text.tail) (k := .keyword .doKw) (n := 1) ?_ ?_ rfl)
      (.step (.take (c := 'x') (r := [' ', '{', '\n', '}', 'y']) (k := .name .varid) (n := 0)
          ?_ ?_ rfl)
        (.step (.take (c := '{') (r := ['\n', '}', 'y']) (k := .punctuation .openBrace) (n := 0)
            ?_ ?_ rfl)
          (.stay _))),
    .take (c := '}') (r := ['y']) (k := .punctuation .closeBrace) (n := 0) ?_ ?_ rfl,
    ?_, ?_, ?_, ?_, ?_, ?_, ?_⟩
  all_goals decide +kernel

end HaskellLexis
