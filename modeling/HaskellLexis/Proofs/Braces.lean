import HaskellLexis.Proofs.Tiling

/-!
# Virtual braces balance

Read with a stack of open braces, a token stream never closes a brace of the
one sort by a brace of the other. What stands in pragmas is passed over.

* `Nest.read`: what a token does to the open braces;
* `outside`: the tokens that stand in no pragma;
* `awaits`: whether a word is still waiting for its block;
* `reads_of_step`, `reads_of_run`: the open blocks of the layout are the open
  braces of what it has delivered;
* `braces_nest`: the stream of a text, up to its last lexeme and behind it.
-/

namespace HaskellLexis

/-- An open brace: one that indentation implies, or one of the text. -/
inductive Nest where
  | implied
  | written
  deriving DecidableEq

namespace Nest

/-- The open braces after a token, the innermost first. A virtual brace closes
only its own sort. A brace of the text does too, but may also close nothing. -/
def read (nests : List Nest) : Token → Option (List Nest)
  | .virtual .opening => some (implied :: nests)
  | .virtual .closing =>
    match nests with
    | implied :: outer => some outer
    | _ => none
  | .lexeme l =>
    if l.kind = .punctuation .openBrace then some (written :: nests)
    else if l.kind = .punctuation .closeBrace then
      match nests with
      | written :: outer => some outer
      | [] => some []
      | implied :: _ => none
    else some nests

theorem read_transparent {nests : List Nest} {l : Lexeme} (h : l.kind.isTransparent = true) :
    read nests (.lexeme l) = some nests := by
  have noOpen : l.kind ≠ .punctuation .openBrace := by
    intro same
    rw [same] at h
    cases h
  have noClose : l.kind ≠ .punctuation .closeBrace := by
    intro same
    rw [same] at h
    cases h
  simp only [read, noOpen, noClose, if_false]

end Nest

namespace Token

/-- Whether a pragma is open after a token. -/
def pragmaAfter (inside : Bool) (t : Token) : Bool :=
  match t.kind with
  | .openPragma _ => true
  | .closePragma => false
  | _ => inside

/-- Whether a word is waiting for its block after a token: the last lexeme
that counts for layout opens one. -/
def waitsAfter (waiting : Bool) : Token → Bool
  | .lexeme l => if l.kind.isTransparent then waiting else l.kind.opensBlock
  | .virtual _ => waiting

end Token

/-- The tokens from an opening lexeme of a pragma up to the next closing one
are left out; `inside` says whether a pragma is open at the beginning. -/
def outside (inside : Bool) : List Token → List Token
  | [] => []
  | t :: ts =>
    let after := t.pragmaAfter inside
    if inside || after then outside after ts else t :: outside after ts

def awaits (tokens : List Token) : Bool := tokens.foldl Token.waitsAfter false

def Block.nest : Block → Nest
  | explicit => .written
  | implicit _ _ => .implied

def Layout.nests (l : Layout) : List Nest := l.blocks.map Block.nest

namespace Block

variable {b : Block}

theorem isImplicit_of_isRightOf {col : Int} (h : b.isRightOf col = true) : b.isImplicit = true := by
  cases b with
  | explicit => cases h
  | implicit col opener => rfl

theorem isImplicit_of_isLet (h : b.isLet = true) : b.isImplicit = true := by
  cases b with
  | explicit => cases h
  | implicit col opener => rfl

theorem nest_of_isImplicit (h : b.isImplicit = true) : b.nest = .implied := by
  cases b with
  | explicit => cases h
  | implicit col opener => rfl

end Block

namespace Placing

def tokens (p : Placing) : List Token := p.braces.map fun b => .virtual b.1

/-- The braces take the open braces of one layout to those of the next. -/
def Reads (l : Layout) (p : Placing) : Prop :=
  p.tokens.foldlM Nest.read l.nests = some p.layout.nests

theorem tokens_andThen (p : Placing) (f : Layout → Placing) :
    (p.andThen f).tokens = p.tokens ++ (f p.layout).tokens :=
  List.map_append

theorem Reads.andThen {l : Layout} {p : Placing} {f : Layout → Placing} (h : p.Reads l)
    (hf : (f p.layout).Reads p.layout) : (p.andThen f).Reads l := by
  rw [Reads, tokens_andThen, List.foldlM_append, h]
  exact hf

end Placing

namespace Layout

variable {kind : Kind} {l : Layout}

theorem stay_reads (l : Layout) : l.stay.Reads l := rfl

theorem closings_read {p : Block → Bool} (implicit : ∀ b, p b = true → b.nest = .implied)
    (bs : List Block) :
    ((closings p bs).map fun _ => Token.virtual .closing).foldlM Nest.read (bs.map Block.nest) =
      some ((bs.dropWhile p).map Block.nest) := by
  induction bs with
  | nil => rfl
  | cons b bs ih =>
    by_cases h : p b = true
    · rw [closings, if_pos h, List.dropWhile_cons_of_pos h, List.map_cons, List.map_cons,
        implicit b h]
      exact ih
    · rw [closings, if_neg h, List.dropWhile_cons_of_neg h]
      rfl

theorem closeWhile_reads {p : Block → Bool} (implicit : ∀ b, p b = true → b.nest = .implied)
    (l : Layout) : (l.closeWhile p).Reads l := by
  have h := closings_read implicit l.blocks
  rw [Placing.Reads, Placing.tokens, closeWhile, List.map_map]
  exact h

theorem openPending_reads (kind : Kind) (col : Int) (l : Layout) :
    (l.openPending kind col).Reads l := by
  unfold openPending
  split
  · exact stay_reads l
  · split
    · exact stay_reads l
    · split <;> rfl

theorem dedent_reads (start : Position) (l : Layout) : (l.dedent start).Reads l := by
  unfold dedent
  split
  · exact closeWhile_reads
      (fun _ right => Block.nest_of_isImplicit (Block.isImplicit_of_isRightOf right)) l
  · exact stay_reads l

theorem closeLet_reads (kind : Kind) (l : Layout) : (l.closeLet kind).Reads l := by
  unfold closeLet
  split
  · rename_i b bs blocks
    split
    · rename_i closes
      have implicit : b.nest = .implied :=
        Block.nest_of_isImplicit (Block.isImplicit_of_isLet (Bool.and_eq_true_iff.1 closes).2)
      rw [Placing.Reads, nests, blocks, List.map_cons, implicit]
      rfl
    · exact stay_reads l
  · exact stay_reads l

/-- Once the implicit blocks are closed, the innermost one is explicit. -/
theorem read_closeBrace (bs : List Block) {x : Lexeme} (hx : x.kind = .punctuation .closeBrace) :
    Nest.read ((bs.dropWhile Block.isImplicit).map Block.nest) (.lexeme x) =
      some ((bs.dropWhile Block.isImplicit).tail.map Block.nest) := by
  have top := List.head?_dropWhile_not Block.isImplicit bs
  cases left : bs.dropWhile Block.isImplicit with
  | nil => simp [Nest.read, hx]
  | cons b rest =>
    rw [left] at top
    cases b with
    | explicit => simp [Nest.read, hx, Block.nest]
    | implicit col opener => cases top

/-- A brace of the text counts among the open braces once it is delivered. -/
theorem explicitBrace_reads (l : Layout) {x : Lexeme} (hx : x.kind = kind) :
    ((l.explicitBrace kind).tokens ++ [Token.lexeme x]).foldlM Nest.read l.nests =
      some (l.explicitBrace kind).layout.nests := by
  unfold explicitBrace
  split
  · rename_i opens
    change Nest.read l.nests (.lexeme x) >>= pure = _
    simp only [Nest.read, hx, opens, if_true]
    rfl
  · rename_i noOpen
    split
    · rename_i closes
      have closed := closeWhile_reads (fun _ => Block.nest_of_isImplicit) l
      rw [Placing.tokens_andThen, List.append_assoc, List.foldlM_append, closed]
      change Nest.read ((l.blocks.dropWhile Block.isImplicit).map Block.nest) (.lexeme x) >>=
        pure = _
      rw [read_closeBrace l.blocks (hx.trans closes)]
      rfl
    · rename_i noClose
      change Nest.read l.nests (.lexeme x) >>= pure = _
      simp only [Nest.read, hx, noOpen, noClose, if_false]
      rfl

/-- The braces before a lexeme, and the lexeme. -/
theorem place_reads (l : Layout) (x : Lexeme) :
    ((l.place x.kind x.span.start).tokens ++ [Token.lexeme x]).foldlM Nest.read l.nests =
      some (l.place x.kind x.span.start).layout.nests := by
  have before : (((l.openPending x.kind x.span.start.col).andThen
      (if l.opens x.kind x.span.start.col then stay else dedent x.span.start)).andThen
      (closeLet x.kind)).Reads l := by
    refine ((openPending_reads _ _ l).andThen ?_).andThen (closeLet_reads _ _)
    split
    · exact stay_reads _
    · exact dedent_reads _ _
  rw [place, Placing.tokens_andThen, List.append_assoc, List.foldlM_append, before]
  exact explicitBrace_reads _ rfl

/-- At the end each implicit block is closed, and no other. -/
theorem tokens_closeAll (l : Layout) :
    l.closeAll.tokens = List.replicate (l.nests.count .implied) (.virtual .closing) := by
  have closings (bs : List Block) :
      (allClosings bs).length = (bs.map Block.nest).count .implied := by
    induction bs with
    | nil => rfl
    | cons b bs ih => cases b <;> simp [allClosings, Block.isImplicit, Block.nest, ih]
  rw [closeAll, Placing.tokens, List.map_map, nests, ← closings]
  exact (List.map_const' : (allClosings l.blocks).map (fun _ => Token.virtual .closing) = _)

theorem tokens_finish (l : Layout) :
    l.finish.tokens =
      (if l.pending.isSome then [.virtual .opening, .virtual .closing] else []) ++
        List.replicate (l.nests.count .implied) (.virtual .closing) := by
  unfold finish
  split
  · rw [Placing.tokens_andThen, tokens_closeAll]
    rfl
  · exact tokens_closeAll _

theorem pending_place (kind : Kind) (start : Position) (l : Layout) :
    (l.place kind start).layout.pending = none := by
  have opened : (l.openPending kind start.col).layout.pending = none := by
    unfold openPending
    split
    · assumption
    · split
      · rfl
      · split <;> rfl
  have closed : ∀ l' : Layout, (l'.closeLet kind).layout.pending = l'.pending := by
    intro l'
    unfold closeLet
    split
    · split <;> rfl
    · rfl
  have braced : ∀ l' : Layout, (l'.explicitBrace kind).layout.pending = l'.pending := by
    intro l'
    unfold explicitBrace
    split
    · rfl
    · split <;> rfl
  rw [place]
  change (explicitBrace kind _).layout.pending = none
  rw [braced]
  change (closeLet kind _).layout.pending = none
  rw [closed]
  change ((if l.opens kind start.col then stay else dedent start) _).layout.pending = none
  split
  · exact opened
  · unfold dedent
    split <;> exact opened

end Layout

theorem outside_append (inside : Bool) (xs ys : List Token) :
    outside inside (xs ++ ys) =
      outside inside xs ++ outside (xs.foldl Token.pragmaAfter inside) ys := by
  induction xs generalizing inside with
  | nil => rfl
  | cons t xs ih =>
    simp only [List.cons_append, outside, List.foldl_cons, ih]
    split <;> rfl

/-- Braces that the layout makes say nothing of pragmas. -/
theorem outside_tokens (inside : Bool) (p : Placing) :
    p.tokens.foldl Token.pragmaAfter inside = inside ∧
      outside false p.tokens = p.tokens := by
  rw [Placing.tokens]
  induction p.braces generalizing inside with
  | nil => exact ⟨rfl, rfl⟩
  | cons b bs ih =>
    obtain ⟨b, l⟩ := b
    have same : (Token.virtual b).pragmaAfter inside = inside := by cases b <;> rfl
    have kept : (Token.virtual b).pragmaAfter false = false := by cases b <;> rfl
    constructor
    · rw [List.map_cons, List.foldl_cons, same, (ih inside).1]
    · rw [List.map_cons, outside, kept, (ih inside).2]
      rfl

theorem outside_lexeme (inside : Bool) (l : Lexeme) :
    outside inside [.lexeme l] =
      if inside || (Token.lexeme l).pragmaAfter inside then [] else [.lexeme l] := by
  simp only [outside]

namespace Lexer

variable {x y z : Lexer} {l : Lexeme} {ls : List Lexeme} {out more : List (Token × Lexer)}

/-- From `x` to `y` the tokens `ts` do to the open braces, to an open pragma
and to a word that waits just what the lexer does. No brace that it makes is
in a pragma, and after a lexeme it makes none. -/
structure Mirrors (x : Lexer) (ts : List Token) (y : Lexer) : Prop where
  pragma : ts.foldl Token.pragmaAfter x.pragma.isSome = y.pragma.isSome
  reads : (outside x.pragma.isSome ts).foldlM Nest.read x.layout.nests = some y.layout.nests
  waits : (outside x.pragma.isSome ts).foldl Token.waitsAfter x.layout.pending.isSome =
    y.layout.pending.isSome
  count : ∀ b, (outside x.pragma.isSome ts).count (.virtual b) = ts.count (.virtual b)
  stops : ∀ t, ts.getLast? = some t → t.isLocated = true

theorem Mirrors.refl (x : Lexer) : x.Mirrors [] x := by
  refine ⟨rfl, rfl, rfl, fun _ => rfl, ?_⟩
  intro t last
  cases last

/-- Blanks change neither layout nor pragmas. -/
theorem Mirrors.of_skipBlanks {ts : List Token} (h : x.skipBlanks.Mirrors ts y) :
    x.Mirrors ts y := by
  obtain ⟨pragma, reads, waits, count, stops⟩ := h
  rw [pragma_skipBlanks] at pragma reads waits
  rw [layout_skipBlanks] at reads waits
  simp only [pragma_skipBlanks] at count
  exact ⟨pragma, reads, waits, count, stops⟩

theorem Mirrors.trans {ts us : List Token} (h : x.Mirrors ts y) (h' : y.Mirrors us z) :
    x.Mirrors (ts ++ us) z := by
  refine ⟨?_, ?_, ?_, ?_, ?_⟩
  · rw [List.foldl_append, h.pragma, h'.pragma]
  · rw [outside_append, h.pragma, List.foldlM_append, h.reads]
    exact h'.reads
  · rw [outside_append, h.pragma, List.foldl_append, h.waits, h'.waits]
  · intro b
    rw [outside_append, h.pragma, List.count_append, List.count_append, h.count, h'.count]
  · intro t last
    cases more : us.getLast? with
    | none =>
      rw [List.getLast?_eq_none_iff.1 more, List.append_nil] at last
      exact h.stops t last
    | some u =>
      rw [List.getLast?_append, more] at last
      exact h'.stops t (more.trans last)

theorem pragmaAfter_isSome (x : Lexer) (l : Lexeme) :
    (Token.lexeme l).pragmaAfter x.pragma.isSome = (x.pragmaAfter l.kind).isSome := by
  obtain ⟨kind, span, text⟩ := l
  unfold Token.pragmaAfter pragmaAfter
  cases kind <;> rfl

/-- Only a lexeme that indentation looks through ends a pragma. -/
theorem pragma_of_pragmaAfter {kind : Kind} (solid : kind.isTransparent = false)
    (after : x.pragmaAfter kind = none) : x.pragma = none := by
  unfold pragmaAfter at after
  split at after
  · cases after
  · cases solid
  · exact after

/-- Outside pragmas a lexeme that counts for layout comes behind its braces. -/
theorem mirrors_placed (x : Lexer) (l : Lexeme) (solid : l.kind.isTransparent = false)
    (after : x.pragmaAfter l.kind = none)
    (kept : y.pragma = none)
    (placed : y.layout =
      (x.layout.place l.kind l.span.start).layout.settle l.kind l.span.stop) :
    x.Mirrors ((x.layout.place l.kind l.span.start).tokens ++ [.lexeme l]) y := by
  have closed : x.pragma = none := pragma_of_pragmaAfter solid after
  have past : (Token.lexeme l).pragmaAfter false = false := by
    have past := pragmaAfter_isSome x l
    rwa [closed, after] at past
  have quiet := outside_tokens false (x.layout.place l.kind l.span.start)
  have whole : outside x.pragma.isSome
      ((x.layout.place l.kind l.span.start).tokens ++ [Token.lexeme l]) =
        (x.layout.place l.kind l.span.start).tokens ++ [Token.lexeme l] := by
    rw [closed, outside_append, Option.isSome_none, quiet.1, quiet.2, outside_lexeme, past]
    rfl
  refine ⟨?_, ?_, ?_, ?_, ?_⟩
  · rw [closed, List.foldl_append, Option.isSome_none, quiet.1, kept]
    exact past
  · rw [whole, placed]
    exact Layout.place_reads x.layout l
  · rw [whole, List.foldl_append, placed, Layout.settle, Layout.pending_place]
    simp only [List.foldl_cons, List.foldl_nil, Token.waitsAfter, solid]
    cases l.kind.opensBlock <;> rfl
  · intro b
    rw [whole]
  · intro t last
    rw [List.getLast?_append] at last
    cases last
    rfl

/-- Every other lexeme comes alone, and changes nothing but an open pragma. -/
theorem mirrors_alone (x : Lexer) (l : Lexeme) (kept : y.pragma = x.pragmaAfter l.kind)
    (same : y.layout = x.layout)
    (unseen : l.kind.isTransparent = true ∨ (x.pragmaAfter l.kind).isSome = true) :
    x.Mirrors [.lexeme l] y := by
  have past := pragmaAfter_isSome x l
  refine ⟨?_, ?_, ?_, ?_, ?_⟩
  · rw [kept]
    exact past
  · rw [outside_lexeme, past, same]
    split
    · rfl
    · rename_i seen
      simp only [Bool.or_eq_true, not_or] at seen
      have transparent := unseen.resolve_right seen.2
      change Nest.read x.layout.nests (.lexeme l) >>= pure = _
      rw [Nest.read_transparent transparent]
      rfl
  · rw [outside_lexeme, past, same]
    split
    · rfl
    · rename_i seen
      simp only [Bool.or_eq_true, not_or] at seen
      have transparent := unseen.resolve_right seen.2
      exact if_pos transparent
  · intro b
    rw [outside_lexeme]
    split <;> simp
  · intro t last
    cases last
    rfl

theorem mirrors_of_step (h : Step x l out y) : x.Mirrors (out.map Prod.fst) y := by
  obtain ⟨front, scanned, cut⟩ := h
  rename_i c r k n y
  obtain ⟨rfl, rfl⟩ := Prod.mk.inj cut
  apply Mirrors.of_skipBlanks
  unfold emit
  split
  · rename_i sees
    simp only [seesLayout, Bool.and_eq_true, Bool.not_eq_true', Option.isNone_iff_eq_none] at sees
    rw [List.map_append, map_braceItems]
    exact mirrors_placed x.skipBlanks _ sees.1 sees.2 sees.2 rfl
  · rename_i unseen
    simp only [seesLayout, Bool.and_eq_true, Bool.not_eq_true', not_and] at unseen
    refine mirrors_alone x.skipBlanks _ rfl rfl ?_
    by_cases transparent : k.isTransparent = true
    · exact .inl transparent
    · have inside := unseen (by simpa using transparent)
      exact .inr (by simpa [Option.isSome_iff_ne_none] using inside)

theorem mirrors_of_run (h : Run x ls out y) : x.Mirrors (out.map Prod.fst) y := by
  induction h with
  | stay x => exact .refl x
  | step s _ ih =>
    rw [List.map_append]
    exact (mirrors_of_step s).trans ih

end Lexer

/-- Between the open braces before and after, the braces of layout add up. -/
theorem count_of_read {ns ms : List Nest} {t : Token} (h : Nest.read ns t = some ms) :
    [t].count (.virtual .opening) + ns.count .implied =
      [t].count (.virtual .closing) + ms.count .implied := by
  cases t with
  | virtual b =>
    cases b with
    | opening =>
      cases h
      simp [Nat.add_comm]
    | closing =>
      cases ns with
      | nil => cases h
      | cons n ns =>
        cases n with
        | implied =>
          cases h
          simp [Nat.add_comm]
        | written => cases h
  | lexeme l =>
    simp only [Nest.read] at h
    split at h
    · cases h
      simp
    · split at h
      · split at h <;> cases h <;> simp
      · cases h
        simp

theorem count_of_reads {ts : List Token} {ns ms : List Nest}
    (h : ts.foldlM Nest.read ns = some ms) :
    ts.count (.virtual .opening) + ns.count .implied =
      ts.count (.virtual .closing) + ms.count .implied := by
  induction ts generalizing ns with
  | nil =>
    cases h
    rfl
  | cons t ts ih =>
    rw [List.foldlM_cons] at h
    obtain ⟨next, first, rest⟩ := Option.bind_eq_some_iff.1 h
    have one := count_of_read first
    have more := ih rest
    rw [← List.singleton_append, List.count_append, List.count_append]
    omega

/-- **Virtual braces balance and nest.** Outside pragmas, and up to the last
lexeme of the text, every brace that layout closes is the innermost open one,
and no brace of the text closes it in its stead. Behind that lexeme a word that
is still waiting gets an empty block, and every implicit block that is open is
closed once; the open braces of the text get nothing. -/
theorem braces_nest {config : Config} {text : List Char} {tokens : List Token}
    (h : lex config text = .ok tokens) :
    ∃ body closing nests stop, tokens = body ++ closing ++ [.lexeme stop] ∧
      stop.kind = .endOfText ∧ (∀ t, body.getLast? = some t → t.isLocated = true) ∧
      (outside false body).foldlM Nest.read [] = some nests ∧
      closing = (if awaits (outside false body) then [.virtual .opening, .virtual .closing] else [])
        ++ List.replicate (nests.count .implied) (.virtual .closing) ∧
      tokens.count (.virtual .opening) = tokens.count (.virtual .closing) := by
  obtain ⟨ls, out, y, run, -, -, rfl⟩ := run_of_lex h
  have mirrors := Lexer.mirrors_of_run run
  have closing : y.layout.finish.braces.map (fun b => Token.virtual b.1) =
      (if awaits (outside false (out.map Prod.fst)) then [.virtual .opening, .virtual .closing]
        else []) ++ List.replicate (y.layout.nests.count .implied) (.virtual .closing) := by
    have waits := mirrors.waits
    change awaits (outside false (out.map Prod.fst)) = _ at waits
    rw [waits]
    exact Layout.tokens_finish y.layout
  refine ⟨out.map Prod.fst, _, y.layout.nests, _, rfl, rfl, mirrors.stops, mirrors.reads,
    closing, ?_⟩
  have balance := count_of_reads mirrors.reads
  rw [mirrors.count, mirrors.count] at balance
  change _ + 0 = _ at balance
  rw [closing]
  generalize y.layout.nests.count .implied = depth at balance ⊢
  cases awaits (outside false (out.map Prod.fst)) <;>
    simp only [List.count_append, List.count_replicate, if_true, if_false, Bool.false_eq_true,
      List.count_cons, List.count_nil, reduceCtorEq, beq_iff_eq, Token.virtual.injEq] <;>
    omega

/-- Two blocks are open at the end, one of them inside a brace of the text, and
the last word still waits for its own. -/
theorem braces_nest_waiting :
    let word (k : Kind) (line start stop : Int) (text : List Char) : Token :=
      .lexeme ⟨k, ⟨⟨line, start⟩, ⟨line, stop⟩⟩, text⟩
    let text := ['d', 'o', ' ', 'x', ' ', '{', ' ', 'd', 'o', ' ', 'y', ' ', 'o', 'f']
    let body := [word (.keyword .doKw) 1 1 3 ['d', 'o'], .virtual .opening,
      word (.name .varid) 1 4 5 ['x'], word (.punctuation .openBrace) 1 6 7 ['{'],
      word (.keyword .doKw) 1 8 10 ['d', 'o'], .virtual .opening,
      word (.name .varid) 1 11 12 ['y'], word (.keyword .ofKw) 1 13 15 ['o', 'f']]
    let tokens := body ++ [.virtual .opening, .virtual .closing, .virtual .closing,
      .virtual .closing] ++ [.lexeme (Lexeme.atEnd text)]
    lex .permissive text = .ok tokens ∧
      ((outside false body).foldlM Nest.read [] = some [.implied, .written, .implied]) ∧
      tokens.count (.virtual .opening) = tokens.count (.virtual .closing) := by
  intro word text body tokens
  have h : lex .permissive text = .ok tokens := by decide +kernel
  obtain ⟨-, -, -, -, -, -, -, -, -, balance⟩ := braces_nest h
  exact ⟨h, by decide +kernel, balance⟩

end HaskellLexis
