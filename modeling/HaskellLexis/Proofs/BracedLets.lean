import HaskellLexis.Proofs.Deliveries
import HaskellLexis.Proofs.Openings

/-!
# Behind a `let` with braces

An `in` ends the innermost block if that is an implicit one of a `let`. Braces
that a `let` has in the text are closed by then and have left nothing behind, so
that the `in` of that `let` ends a block of another one, if such a block is
directly around the braces.

* `Fence`, `Fencing.read`, `fences`: the braces that are open in a stream, with
  the words of the implied ones;
* `Paired`, `BracedLet`, `MeetsIn`: a `let` with braces, and an `in` right
  behind, by their places in the stream;
* `agrees_of_step`, `agrees_of_run`: the open blocks of the layout are the open
  braces of what it has delivered;
* `layout_of_quiet`: what does not count leaves the layout alone;
* `braced_lets`: which block the `in` ends.
-/

namespace HaskellLexis

/-- An open brace: one of the text, or one that begins the block of a word. -/
inductive Fence where
  | written
  | implied (word : Option Kind)
  deriving DecidableEq

/-- What a lexeme does to the open braces, the innermost first. -/
def Fence.behind (kind : Kind) (fences : List Fence) : List Fence :=
  if kind = .punctuation .openBrace then .written :: fences
  else if kind = .punctuation .closeBrace then fences.tail
  else fences

/-- The open braces, and the last lexeme that counts for layout. -/
structure Fencing where
  fences : List Fence
  word : Option Kind

namespace Fencing

def start : Fencing := ⟨[], none⟩

/-- A virtual brace begins the block of the last word, and a brace that closes
takes the innermost one along. -/
def read (s : Fencing) : Token → Fencing
  | .virtual .opening => { s with fences := .implied s.word :: s.fences }
  | .virtual .closing => { s with fences := s.fences.tail }
  | .lexeme l =>
    if l.kind.isTransparent then s else ⟨Fence.behind l.kind s.fences, some l.kind⟩

end Fencing

/-- The braces that are open behind the tokens of a text. -/
def fences (tokens : List Token) : List Fence :=
  ((outside false tokens).foldl Fencing.read .start).fences

/-- The brace of the text at `k` closes the one at `j`, which is open up to
there. -/
structure Paired (tokens : List Token) (j k : ℕ) : Prop where
  opens : ∃ l, Visible tokens j l ∧ l.kind = .punctuation .openBrace
  closes : ∃ l, Visible tokens k l ∧ l.kind = .punctuation .closeBrace
  before : j < k
  inside : ∀ m, j < m → m ≤ k → .written :: fences (tokens.take j) <:+ fences (tokens.take m)
  behind : fences (tokens.take (k + 1)) = fences (tokens.take j)

/-- A `let` has the braces at `j` and `k` right behind it. -/
def BracedLet (tokens : List Token) (j k : ℕ) : Prop :=
  Paired tokens j k ∧
    ∃ i l, Visible tokens i l ∧ l.kind = .keyword .letKw ∧ Clear tokens i j

/-- Behind the lexeme at `k` the next visible one is an `in`, on the line on
which the first ends. -/
def MeetsIn (tokens : List Token) (k n : ℕ) : Prop :=
  Clear tokens k n ∧ ∃ l m, tokens[k]? = some (.lexeme l) ∧ Visible tokens n m ∧
    m.kind = .keyword .inKw ∧ m.span.start.line = l.span.stop.line

/-! ## The open blocks are the open braces -/

def Block.fence : Block → Fence
  | explicit => .written
  | implicit _ opener => .implied (some opener)

def Layout.fences (l : Layout) : List Fence := l.blocks.map Block.fence

/-- The reader knows the blocks that are open and the word that waits. -/
structure Fencing.Agrees (s : Fencing) (l : Layout) : Prop where
  fences : s.fences = l.fences
  word : ∀ opener, l.pending = some opener → s.word = some opener

/-- The reader goes over the braces, and then knows the blocks that are open. -/
def Placing.ReadBy (s : Fencing) (p : Placing) : Prop :=
  (p.tokens.foldl Fencing.read s).fences = p.layout.fences

theorem Placing.ReadBy.andThen {s : Fencing} {p : Placing} {f : Layout → Placing}
    (h : p.ReadBy s) (hf : ∀ t : Fencing, t.fences = p.layout.fences → (f p.layout).ReadBy t) :
    (p.andThen f).ReadBy s := by
  rw [ReadBy, tokens_andThen, List.foldl_append]
  exact hf _ h

theorem Fencing.foldl_closings (n : ℕ) (s : Fencing) :
    (List.replicate n (Token.virtual .closing)).foldl read s =
      { s with fences := s.fences.drop n } := by
  induction n generalizing s with
  | zero => rfl
  | succ n ih =>
    rw [List.replicate_succ, List.foldl_cons, ih]
    simp only [read, List.drop_tail]

namespace Layout

variable {kind : Kind} {l : Layout} {s : Fencing}

theorem closeWhile_readBy (p : Block → Bool) (same : s.fences = l.fences) :
    (l.closeWhile p).ReadBy s := by
  have left : l.blocks.drop (l.blocks.takeWhile p).length = l.blocks.dropWhile p := by
    have whole := List.takeWhile_append_dropWhile (p := p) (l := l.blocks)
    exact List.append_cancel_left ((List.prefix_iff_eq_append.1 (List.takeWhile_prefix p)).trans
      whole.symm)
  rw [Placing.ReadBy, tokens_closeWhile, Fencing.foldl_closings]
  change s.fences.drop _ = (l.blocks.dropWhile p).map Block.fence
  rw [same, fences, ← List.map_drop, left]

theorem dedent_readBy (start : Position) (same : s.fences = l.fences) :
    (l.dedent start).ReadBy s := by
  unfold dedent
  split
  · exact closeWhile_readBy _ same
  · exact same

theorem closeLet_readBy (kind : Kind) (same : s.fences = l.fences) :
    (l.closeLet kind).ReadBy s := by
  unfold closeLet
  split
  · rename_i b bs blocks
    split
    · rw [fences, blocks] at same
      change s.fences.tail = bs.map Block.fence
      rw [same]
      rfl
    · exact same
  · exact same

theorem openPending_readBy (kind : Kind) (col : Int) (agrees : s.Agrees l) :
    (l.openPending kind col).ReadBy s := by
  unfold openPending
  split
  · exact agrees.fences
  · rename_i opener waits
    split
    · exact agrees.fences
    · split
      · change .implied s.word :: s.fences = .implied (some opener) :: l.fences
        rw [agrees.fences, agrees.word opener waits]
      · exact agrees.fences

/-- A brace of the text counts once it is delivered. -/
theorem explicitBrace_fences (kind : Kind) (same : s.fences = l.fences) :
    Fence.behind kind ((l.explicitBrace kind).tokens.foldl Fencing.read s).fences =
      (l.explicitBrace kind).layout.fences := by
  unfold explicitBrace Fence.behind
  split
  · exact congrArg (.written :: ·) same
  · split
    · have closed := closeWhile_readBy Block.isImplicit same
      rw [Placing.ReadBy] at closed
      rw [Placing.tokens_andThen, List.foldl_append]
      change ((l.closeWhile Block.isImplicit).tokens.foldl Fencing.read s).fences.tail = _
      rw [closed]
      exact List.map_tail.symm
    · exact same

/-- A lexeme that counts, behind its braces. -/
theorem place_agrees {x : Lexeme} (solid : x.kind.isTransparent = false) (agrees : s.Agrees l) :
    (((l.place x.kind x.span.start).tokens ++ [Token.lexeme x]).foldl Fencing.read s).Agrees
      ((l.place x.kind x.span.start).layout.settle x.kind x.span.stop) := by
  have opened := openPending_readBy x.kind x.span.start.col agrees
  have kept (t : Fencing)
      (same : t.fences = (l.openPending x.kind x.span.start.col).layout.fences) :
      ((if l.opens x.kind x.span.start.col then stay else dedent x.span.start)
        (l.openPending x.kind x.span.start.col).layout).ReadBy t := by
    split
    · exact same
    · exact dedent_readBy _ same
  have before := (opened.andThen kept).andThen fun _ => closeLet_readBy x.kind
  have read (t : Fencing) : t.read (.lexeme x) = ⟨Fence.behind x.kind t.fences, some x.kind⟩ :=
    if_neg (by simp [solid])
  rw [List.foldl_append, List.foldl_cons, List.foldl_nil, read]
  refine ⟨?_, ?_⟩
  · rw [place, Placing.tokens_andThen, List.foldl_append]
    exact explicitBrace_fences x.kind before
  · intro opener waits
    rw [settle, pending_place] at waits
    dsimp only at waits
    split at waits
    · exact waits
    · cases waits

end Layout

namespace Lexer

variable {x y : Lexer} {l : Lexeme} {ls : List Lexeme} {out : List (Token × Lexer)} {s : Fencing}

theorem agrees_of_step (h : Step x l out y) (agrees : s.Agrees x.layout) :
    ((outside x.pragma.isSome (out.map Prod.fst)).foldl Fencing.read s).Agrees y.layout := by
  obtain ⟨counts, tokens, -, layout⟩ | ⟨counts, tokens, -, layout⟩ := layout_of_step h
  · simp only [Lexeme.counts, Bool.and_eq_true, Bool.not_eq_true'] at counts
    obtain ⟨⟨closed, past⟩, solid⟩ := counts
    rw [closed] at past ⊢
    have quiet := outside_tokens false (x.layout.place l.kind l.span.start)
    rw [tokens, layout, outside_append, quiet.1, quiet.2, outside_lexeme, past]
    exact Layout.place_agrees solid agrees
  · rw [tokens, layout, outside_lexeme]
    split
    · exact agrees
    · rename_i seen
      have transparent : l.kind.isTransparent = true := by
        rw [Bool.not_eq_true, Bool.or_eq_false_iff] at seen
        rw [Lexeme.counts, seen.2, seen.1] at counts
        simpa using counts
      have same : s.read (.lexeme l) = s := if_pos transparent
      rwa [List.foldl_cons, List.foldl_nil, same]

theorem agrees_of_run (h : Run x ls out y) (agrees : s.Agrees x.layout) :
    ((outside x.pragma.isSome (out.map Prod.fst)).foldl Fencing.read s).Agrees y.layout := by
  induction h generalizing s with
  | stay => exact agrees
  | step step _ ih =>
    rw [List.map_append, outside_append, (mirrors_of_step step).pragma, List.foldl_append]
    exact ih (agrees_of_step step agrees)

theorem fences_of_run {config : Config} {text : List Char} (h : Run (start config text) ls out x) :
    fences (out.map Prod.fst) = x.layout.fences :=
  (agrees_of_run (s := .start) h ⟨rfl, fun _ => nofun⟩).fences

/-- Where nothing counts, only lexemes are delivered, and the layout stays. -/
theorem layout_of_quiet (h : Run x ls out y)
    (quiet : ∀ before T after, out.map Prod.fst = before ++ .lexeme T :: after →
      T.counts (before.foldl Token.pragmaAfter x.pragma.isSome) = false) :
    y.layout = x.layout ∧ ∀ t ∈ out.map Prod.fst, t.lexeme?.isSome = true := by
  induction h with
  | stay => exact ⟨rfl, List.forall_mem_nil _⟩
  | @step x y z l ls out more step _ ih =>
    obtain ⟨counts, tokens, -⟩ | ⟨-, tokens, -, layout⟩ := layout_of_step step
    · have here := quiet _ l (more.map Prod.fst) (by rw [List.map_append, tokens,
        List.append_assoc, List.singleton_append])
      rw [(outside_tokens _ _).1, counts] at here
      cases here
    · have later : ∀ before T after, more.map Prod.fst = before ++ .lexeme T :: after →
          T.counts (before.foldl Token.pragmaAfter y.pragma.isSome) = false := by
        intro before T after split
        have there := quiet (.lexeme l :: before) T after (by rw [List.map_append, tokens, split,
          List.singleton_append, List.cons_append])
        have pragma := (mirrors_of_step step).pragma
        rw [tokens, List.foldl_cons, List.foldl_nil] at pragma
        rwa [List.foldl_cons, pragma] at there
      obtain ⟨same, lexemes⟩ := ih later
      refine ⟨same.trans layout, ?_⟩
      rw [List.map_append, tokens]
      exact List.forall_mem_cons.2 ⟨rfl, lexemes⟩

end Lexer

/-! ## The `in` -/

theorem Block.isLet_iff {b : Block} :
    b.isLet = true ↔ b.fence = .implied (some (.keyword .letKw)) := by
  unfold isLet
  split
  · exact iff_of_true rfl rfl
  · rename_i other
    apply iff_of_false nofun
    intro same
    cases b with
    | explicit => cases same
    | implicit col opener =>
      cases same
      exact other col rfl

/-- On the same line an `in` ends the innermost block just if a `let` has begun it. -/
theorem Layout.tokens_place_in {l : Layout} {start : Position} (settled : l.pending = none)
    (sameLine : start.line = l.lastLine) :
    (l.place (.keyword .inKw) start).tokens =
      if l.fences.head? = some (.implied (some (.keyword .letKw))) then [.virtual .closing]
      else [] := by
  have noBlock : l.openPending (.keyword .inKw) start.col = l.stay := by
    rw [openPending, settled]
  have noOpening : l.opens (.keyword .inKw) start.col = false := by
    rw [opens, settled]
    rfl
  have noDedent : l.dedent start = l.stay := if_neg (by omega)
  have tokens : (l.place (.keyword .inKw) start).tokens =
      (l.closeLet (.keyword .inKw)).tokens := by
    have noBrace (m : Layout) : m.explicitBrace (.keyword .inKw) = m.stay := rfl
    simp only [place, noBlock, noOpening, Placing.tokens_andThen, noBrace, Bool.false_eq_true,
      if_false]
    simp [stay, noDedent, Placing.tokens, Placing.andThen]
  rw [tokens, closeLet, fences]
  cases l.blocks with
  | nil => rfl
  | cons b bs =>
    rw [List.map_cons, List.head?_cons]
    dsimp only
    by_cases own : b.isLet = true
    · rw [if_pos (congrArg some (Block.isLet_iff.1 own)), own]
      rfl
    · rw [if_neg fun same => own (Block.isLet_iff.2 (Option.some.inj same)),
        Bool.eq_false_iff.2 own]
      rfl

theorem split_of_place {tokens : List Token} {k : ℕ} {t : Token} (h : tokens[k]? = some t) :
    tokens = tokens.take k ++ t :: tokens.drop (k + 1) := by
  obtain ⟨bound, here⟩ := List.getElem?_eq_some_iff.1 h
  rw [← here, ← List.drop_eq_getElem_cons bound, List.take_append_drop]

section

variable {config : Config} {text : List Char} {tokens : List Token} {k n : ℕ} {C T : Lexeme}
  {x y : Lexer} {ls ls' : List Lexeme} {out out' : List (Token × Lexer)}

theorem unseen_of_clear {S : Lexeme} {before after : List Token} (clear : Clear tokens k n)
    (whole : tokens = before ++ .lexeme S :: after) (inner : S.kind ≠ .endOfText)
    (low : k < before.length) (high : before.length < n) :
    S.counts (insidePragma before) = false := by
  have found : tokens[before.length]? = some (.lexeme S) := by
    rw [whole, List.getElem?_append_right le_rfl, Nat.sub_self, List.getElem?_cons_zero]
  have front : tokens.take before.length = before := by rw [whole, List.take_left]
  apply Bool.eq_false_iff.2
  intro counts
  rw [← front] at counts
  exact clear.2 before.length S low high ⟨⟨found, counts⟩, inner⟩

open Lexer in
/-- What a run delivers between two places counts only if it is visible there. -/
theorem quiet_of_clear (run : Run (start config text) ls out x) (run' : Run x ls' out' y)
    (passed : tokens.take (k + 1) = out.map Prod.fst) {q : List Token}
    (between : (tokens.drop (k + 1)).take (n - (k + 1)) = out'.map Prod.fst ++ q)
    (clear : Clear tokens k n) (bound : n < tokens.length) :
    ∀ before S after, out'.map Prod.fst = before ++ .lexeme S :: after →
      S.counts (before.foldl Token.pragmaAfter x.pragma.isSome) = false := by
  intro before S after split
  rw [split, List.append_assoc, List.cons_append] at between
  have whole : tokens = (out.map Prod.fst ++ before) ++ .lexeme S ::
      (after ++ q ++ (tokens.drop (k + 1)).drop (n - (k + 1))) := by
    rw [← passed]
    calc tokens = tokens.take (k + 1) ++ tokens.drop (k + 1) := (List.take_append_drop _ _).symm
      _ = tokens.take (k + 1) ++ ((before ++ .lexeme S :: (after ++ q)) ++
          (tokens.drop (k + 1)).drop (n - (k + 1))) := by
        rw [← between, List.take_append_drop (n - (k + 1))]
      _ = _ := by simp only [List.append_assoc, List.cons_append]
  have inner : S.kind ≠ .endOfText := by
    apply inner_of_run run'
    rw [← run_lexemes run', split]
    simp [Token.lexeme?]
  have place : (out.map Prod.fst ++ before).length = k + 1 + before.length := by
    rw [List.length_append, ← passed, List.length_take_of_le (Nat.le_trans clear.1 bound.le)]
  have size := congrArg List.length between
  rw [List.length_take, List.length_append, List.length_cons, List.length_drop] at size
  have unseen := unseen_of_clear clear whole inner (by omega) (by omega)
  have delivered : (out.map Prod.fst).foldl Token.pragmaAfter false = x.pragma.isSome :=
    (mirrors_of_run run).pragma
  rwa [insidePragma, List.foldl_append, delivered] at unseen

open Lexer in
/-- Between two visible lexemes next to one another are lexemes that do not
count, and then the braces that the layout behind the first one makes before the
second. -/
theorem between_of_clear (h : (start config text).trace.items = tokens) (clear : Clear tokens k n)
    (first : Visible tokens k C) (next : Visible tokens n T) :
    ∃ l : Layout, l.fences = fences (tokens.take (k + 1)) ∧ l.lastLine = C.span.stop.line ∧
      l.pending = (if C.kind.opensBlock then some C.kind else none) ∧
      ∃ lexemes, (∀ t ∈ lexemes, t.lexeme?.isSome = true) ∧
        (tokens.drop (k + 1)).take (n - (k + 1)) =
          lexemes ++ (l.place T.kind T.span.start).tokens := by
  obtain ⟨⟨here, counts⟩, inner⟩ := first
  obtain ⟨⟨there, counts'⟩, inner'⟩ := next
  -- the steps that take the two lexemes
  obtain ⟨ls, out, x, more, y, p, run, step, before, made, left⟩ :=
    step_of_items (h.trans (split_of_place here)) inner
  have ahead : (tokens.drop (k + 1))[n - (k + 1)]? = some (.lexeme T) := by
    rw [List.getElem?_drop, Nat.add_sub_cancel' clear.1]
    exact there
  obtain ⟨ls', out', z, more', w, q, run', step', between, made', -⟩ :=
    step_of_items (left.trans (split_of_place ahead)) inner'
  have passed : tokens.take (k + 1) = (out ++ more).map Prod.fst := by
    rw [List.take_add_one, here, List.map_append, made, ← List.append_assoc, ← before]
    rfl
  have whole := run.trans (run_of_step step)
  -- nothing that counts is between them
  obtain ⟨bound, -⟩ := List.getElem?_eq_some_iff.1 there
  obtain ⟨same, lexemes⟩ :=
    layout_of_quiet run' (quiet_of_clear whole run' passed between clear bound)
  have upTo : tokens.take n = (out ++ more ++ out').map Prod.fst ++ q.tokens := by
    rw [← Nat.add_sub_cancel' clear.1, List.take_add, passed, between, ← List.append_assoc,
      ← List.map_append]
  rw [before, insidePragma_of_run run p] at counts
  rw [upTo, insidePragma_of_run (whole.trans run') q] at counts'
  obtain ⟨-, -, -, layout⟩ | ⟨unseen, -⟩ := layout_of_step step
  · obtain ⟨-, placed, -⟩ | ⟨unseen, -⟩ := layout_of_step step'
    · rw [made', same] at placed
      refine ⟨y.layout, (passed ▸ fences_of_run whole).symm, ?_, ?_, out'.map Prod.fst, lexemes, ?_⟩
      · rw [layout]
        rfl
      · rw [layout, Layout.settle, Layout.pending_place]
      · rw [between, List.append_cancel_right placed]
    · rw [counts'] at unseen
      cases unseen
  · rw [counts] at unseen
    cases unseen

/-- Where lexemes and then braces are between two places, a virtual brace there is
one of these. -/
theorem virtual_between {lexemes braces : List Token} {m : ℕ} {b : Brace}
    (plain : ∀ t ∈ lexemes, t.lexeme?.isSome = true)
    (between : (tokens.drop (k + 1)).take (n - (k + 1)) = lexemes ++ braces) (low : k < m)
    (high : m < n) :
    tokens[m]? = some (.virtual b) ↔
      ∃ i, m = k + 1 + lexemes.length + i ∧ braces[i]? = some (.virtual b) := by
  have here : (lexemes ++ braces)[m - (k + 1)]? = tokens[m]? := by
    rw [← between, List.getElem?_take_of_lt (by omega), List.getElem?_drop,
      Nat.add_sub_cancel' low]
  rw [← here]
  by_cases early : m - (k + 1) < lexemes.length
  · rw [List.getElem?_append_left early]
    apply iff_of_false
    · intro found
      cases plain _ (List.mem_of_getElem? found)
    · rintro ⟨i, place, -⟩
      omega
  · rw [Nat.not_lt] at early
    rw [List.getElem?_append_right early]
    constructor
    · intro found
      exact ⟨m - (k + 1) - lexemes.length, by omega, found⟩
    · rintro ⟨i, rfl, found⟩
      have same : k + 1 + lexemes.length + i - (k + 1) - lexemes.length = i := by omega
      rwa [same]

/-- **The `in` of a `let` with braces.** Behind the braces of a `let` let the next
visible lexeme be an `in`, on the line on which they end. A block ends in between
just if the innermost one around the braces is that of another `let`, and then it
ends right before the `in`. -/
theorem braced_lets {j : ℕ} (h : lex config text = .ok tokens) (braced : BracedLet tokens j k)
    (meets : MeetsIn tokens k n) :
    ((∃ m, k < m ∧ m < n ∧ tokens[m]? = some (.virtual .closing)) ↔
      (fences (tokens.take j)).head? = some (.implied (some (.keyword .letKw)))) ∧
    ∀ m b, k < m → m < n → tokens[m]? = some (.virtual b) → b = .closing ∧ m + 1 = n := by
  obtain ⟨clear, C, T, here, next, isIn, sameLine⟩ := meets
  obtain ⟨C', visible, closes⟩ := braced.1.closes
  cases here.symm.trans visible.1.1
  obtain ⟨l, blocks, line, settled, lexemes, plain, between⟩ :=
    between_of_clear (lex_iff.1 h).1 clear visible next
  have noWord : l.pending = none := by
    rw [settled, closes]
    rfl
  rw [isIn, Layout.tokens_place_in noWord (sameLine.trans line.symm), blocks,
    braced.1.behind] at between
  have virtual {m : ℕ} {b : Brace} := virtual_between (m := m) (b := b) plain between
  by_cases own : (fences (tokens.take j)).head? = some (.implied (some (.keyword .letKw)))
  · rw [if_pos own] at between virtual
    obtain ⟨bound, -⟩ := List.getElem?_eq_some_iff.1 next.1.1
    have size := congrArg List.length between
    rw [List.length_take, List.length_drop, List.length_append, List.length_singleton] at size
    have last : n = k + 1 + lexemes.length + 1 := by
      have := clear.1
      omega
    constructor
    · refine iff_of_true ⟨k + 1 + lexemes.length, by omega, by omega, ?_⟩ own
      exact (virtual (by omega) (by omega)).2 ⟨0, rfl, rfl⟩
    · intro m b low high found
      obtain ⟨i, rfl, brace⟩ := (virtual low high).1 found
      cases i with
      | zero =>
        cases brace
        exact ⟨rfl, last.symm⟩
      | succ i => cases brace
  · rw [if_neg own] at virtual
    have none {m : ℕ} {b : Brace} (low : k < m) (high : m < n) :
        tokens[m]? ≠ some (.virtual b) := by
      intro found
      obtain ⟨i, -, brace⟩ := (virtual low high).1 found
      cases brace
    refine ⟨iff_of_false ?_ own, fun m b low high found => absurd found (none low high)⟩
    rintro ⟨m, low, high, found⟩
    exact none low high found

end

/-- The braces of the inner `let` are in the block of the outer one, which the
`in` of the inner one ends. -/
theorem braced_lets_nested :
    let word (k : Kind) (start stop : Int) (text : List Char) : Token :=
      .lexeme ⟨k, ⟨⟨1, start⟩, ⟨1, stop⟩⟩, text⟩
    let text := ['l', 'e', 't', ' ', 'l', 'e', 't', '{', '}', 'i', 'n']
    let tokens := [word (.keyword .letKw) 1 4 ['l', 'e', 't'], .virtual .opening,
      word (.keyword .letKw) 5 8 ['l', 'e', 't'], word (.punctuation .openBrace) 8 9 ['{'],
      word (.punctuation .closeBrace) 9 10 ['}'], .virtual .closing,
      word (.keyword .inKw) 10 12 ['i', 'n'], .lexeme (Lexeme.atEnd text)]
    lex .permissive text = .ok tokens ∧ BracedLet tokens 3 4 ∧ MeetsIn tokens 4 6 ∧
      ∃ m, 4 < m ∧ m < 6 ∧ tokens[m]? = some (.virtual .closing) := by
  intro word text tokens
  have h : lex .permissive text = .ok tokens := by decide +kernel
  have braced : BracedLet tokens 3 4 := by
    constructor
    · refine ⟨⟨_, ⟨⟨rfl, by decide⟩, by decide⟩, rfl⟩, ⟨_, ⟨⟨rfl, by decide⟩, by decide⟩, rfl⟩,
        by decide, ?_, by decide⟩
      intro m low high
      obtain rfl : m = 4 := by omega
      decide
    · exact ⟨2, _, ⟨⟨rfl, by decide⟩, by decide⟩, rfl, by decide, fun m l low high => by omega⟩
  have meets : MeetsIn tokens 4 6 := by
    refine ⟨⟨by decide, ?_⟩, _, _, rfl, ⟨⟨rfl, by decide⟩, by decide⟩, rfl, rfl⟩
    intro m l low high visible
    obtain rfl : m = 5 := by omega
    cases visible.1.1
  exact ⟨h, braced, meets, (braced_lets h braced meets).1.2 (by decide)⟩

end HaskellLexis
