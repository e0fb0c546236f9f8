import HaskellLexis.Proofs.Offside
import Mathlib.Data.Nat.Find
import Mathlib.Order.Hom.Set

/-!
# Where blocks begin

A word that opens a block waits for the next lexeme that counts for layout.
Unless that is a brace of the text, a virtual brace begins the block just
before it, behind whatever comments and pragmas stand in between.

* `Visible`, `Clear`, `Calls`, `Opens`: the words that call for a virtual brace,
  and the braces that answer them, by their places in the stream;
* `Phase`, `Phase.Move`: a reader of the stream with three states;
* `Lexer.moves_of_step`, `Lexer.moves_of_run`: what the lexer delivers takes the
  reader along with its own layout;
* `openings_correspond`: each such word has its brace, in the same order.
-/

namespace HaskellLexis

/-- At place `i` stands a lexeme that counts for layout. -/
def Shown (tokens : List Token) (i : ℕ) (l : Lexeme) : Prop :=
  tokens[i]? = some (.lexeme l) ∧ l.counts (insidePragma (tokens.take i)) = true

/-- The end of the text counts for layout too, but is not visible. -/
def Visible (tokens : List Token) (i : ℕ) (l : Lexeme) : Prop :=
  Shown tokens i l ∧ l.kind ≠ .endOfText

/-- The second place is behind the first, and nothing visible between them. -/
def Clear (tokens : List Token) (i j : ℕ) : Prop :=
  i < j ∧ ∀ k l, i < k → k < j → ¬Visible tokens k l

/-- A visible word opens a block, and what comes next is no brace of the text. -/
def Calls (tokens : List Token) (i : ℕ) : Prop :=
  ∃ l, Visible tokens i l ∧ l.kind.opensBlock = true ∧
    ∀ j m, Clear tokens i j → Visible tokens j m → m.kind ≠ .punctuation .openBrace

/-- The last token, which is the end of the text. -/
def Ends (tokens : List Token) (k : ℕ) : Prop :=
  k + 1 = tokens.length ∧ ∃ l, tokens[k]? = some (.lexeme l) ∧ l.kind = .endOfText

/-- From the word at `i` nothing visible is on the way to `j`, and from there to
the next visible lexeme or to the end only blocks are closed. -/
structure Opens (tokens : List Token) (i j : ℕ) : Prop where
  clear : Clear tokens i j
  closings : ∃ k, j < k ∧ ((∃ l, Visible tokens k l) ∨ Ends tokens k) ∧
    ∀ m, j < m → m < k → tokens[m]? = some (.virtual .closing)

/-- What a stream has come to: nothing in particular, a word whose block has not
begun, or the beginning of a block whose first lexeme has not come. -/
inductive Phase where
  | idle
  | waiting
  | opened
  deriving DecidableEq

namespace Phase

def behind (kind : Kind) : Phase := if kind.opensBlock then waiting else idle

/-- One token, in a pragma or not. A block begins only where one is waited for,
and only braces that close others come between that and its first lexeme. -/
inductive Move (inside : Bool) : Phase → Token → Phase → Prop
  | opening : Move inside .waiting (.virtual .opening) .opened
  | closing (p : Phase) : Move inside p (.virtual .closing) p
  | seen {p : Phase} {l : Lexeme} (counts : l.counts inside = true)
      (written : p = .waiting → l.kind = .punctuation .openBrace)
      (implied : p = .opened → l.kind ≠ .punctuation .openBrace) :
      Move inside p (.lexeme l) (behind l.kind)
  | unseen {p : Phase} {l : Lexeme} (counts : l.counts inside = false) (early : p ≠ .opened) :
      Move inside p (.lexeme l) p

inductive Moves : Bool → Phase → List Token → Phase → Prop
  | nil (inside : Bool) (p : Phase) : Moves inside p [] p
  | cons {inside : Bool} {p q r : Phase} {t : Token} {ts : List Token} (first : Move inside p t q)
      (rest : Moves (t.pragmaAfter inside) q ts r) : Moves inside p (t :: ts) r

variable {inside : Bool} {p q r : Phase} {t : Token} {ts us : List Token}

theorem Moves.append (h : Moves inside p ts q)
    (h' : Moves (ts.foldl Token.pragmaAfter inside) q us r) : Moves inside p (ts ++ us) r := by
  induction h with
  | nil => exact h'
  | cons first _ ih => exact .cons first (ih h')

theorem Move.moves (h : Move inside p t q) : Moves inside p [t] q := .cons h (.nil _ q)

theorem Move.of_opening (h : Move inside p (.virtual .opening) q) :
    p = .waiting ∧ q = .opened := by
  cases h
  exact ⟨rfl, rfl⟩

theorem Move.of_lexeme {l : Lexeme} (h : Move inside p (.lexeme l) q)
    (counts : l.counts inside = true) :
    q = behind l.kind ∧ (p = .waiting → l.kind = .punctuation .openBrace) ∧
      (p = .opened → l.kind ≠ .punctuation .openBrace) := by
  cases h with
  | seen _ written implied => exact ⟨rfl, written, implied⟩
  | unseen unseen =>
    rw [counts] at unseen
    cases unseen

theorem behind_eq_waiting {kind : Kind} : behind kind = .waiting ↔ kind.opensBlock = true := by
  unfold behind
  cases kind.opensBlock <;> decide

theorem moves_closings (inside : Bool) (p : Phase) (closing : ∀ t ∈ ts, t = .virtual .closing) :
    Moves inside p ts p := by
  induction ts generalizing inside with
  | nil => exact .nil inside p
  | cons t ts ih =>
    obtain rfl := closing t List.mem_cons_self
    apply Moves.cons (.closing p)
    apply ih
    intro u hu
    exact closing u (List.mem_cons_of_mem _ hu)

/-- The phases between the tokens, by place. -/
theorem Moves.exists_phases (h : Moves inside p ts q) :
    ∃ phases : ℕ → Phase, phases 0 = p ∧ ∀ n t, ts[n]? = some t →
      Move ((ts.take n).foldl Token.pragmaAfter inside) (phases n) t (phases (n + 1)) := by
  induction h with
  | nil inside p =>
    refine ⟨fun _ => p, rfl, ?_⟩
    intro n t none
    cases none
  | @cons inside p q r u us first rest ih =>
    -- the phases behind the first token, one place later
    obtain ⟨phases, start, moves⟩ := ih
    refine ⟨fun n => n.casesOn p phases, rfl, ?_⟩
    intro n t found
    cases n with
    | zero =>
      cases found
      rw [← start] at first
      exact first
    | succ n => exact moves n t found

end Phase

/-! ## The lexer moves the phase -/

def Layout.phase (l : Layout) : Phase := if l.pending.isSome then .waiting else .idle

/-- The braces all close blocks. -/
def Placing.Closes (p : Placing) : Prop := ∀ t ∈ p.tokens, t = .virtual .closing

theorem Placing.Closes.andThen {p : Placing} {f : Layout → Placing} (h : p.Closes)
    (hf : (f p.layout).Closes) : (p.andThen f).Closes := by
  intro t mem
  rw [Placing.tokens_andThen, List.mem_append] at mem
  obtain first | more := mem
  · exact h t first
  · exact hf t more

namespace Layout

theorem stay_closes (l : Layout) : l.stay.Closes := by
  intro t none
  cases none

theorem closeWhile_closes (p : Block → Bool) (l : Layout) : (l.closeWhile p).Closes := by
  intro t mem
  rw [tokens_closeWhile] at mem
  exact List.eq_of_mem_replicate mem

theorem dedent_closes (start : Position) (l : Layout) : (l.dedent start).Closes := by
  unfold dedent
  split
  · exact closeWhile_closes _ l
  · exact stay_closes l

theorem closeLet_closes (kind : Kind) (l : Layout) : (l.closeLet kind).Closes := by
  unfold closeLet
  split
  · split
    · intro t mem
      exact List.mem_singleton.1 mem
    · exact stay_closes l
  · exact stay_closes l

theorem explicitBrace_closes (kind : Kind) (l : Layout) : (l.explicitBrace kind).Closes := by
  unfold explicitBrace
  split
  · exact stay_closes _
  · split
    · exact (closeWhile_closes _ l).andThen (stay_closes _)
    · exact stay_closes l

/-- The braces before a lexeme: once a block that waits has begun, others end. -/
theorem tokens_place (kind : Kind) (start : Position) (l : Layout) :
    ∃ closings, (l.place kind start).tokens = (l.openPending kind start.col).tokens ++ closings ∧
      ∀ t ∈ closings, t = .virtual .closing := by
  have kept (l' : Layout) :
      ((if l.opens kind start.col then stay else dedent start) l').Closes := by
    split
    · exact stay_closes l'
    · exact dedent_closes start l'
  have closes : ((((if l.opens kind start.col then stay else dedent start)
      (l.openPending kind start.col).layout).andThen (closeLet kind)).andThen
        (explicitBrace kind)).Closes :=
    ((kept _).andThen (closeLet_closes kind _)).andThen (explicitBrace_closes kind _)
  refine ⟨_, ?_, closes⟩
  rw [place, andThen_assoc, andThen_assoc, Placing.tokens_andThen, andThen_assoc]

/-- Before a brace of the text the word goes on to wait. -/
theorem moves_openPending (inside : Bool) (kind : Kind) (col : Int) (l : Layout) :
    ∃ p, Phase.Moves inside l.phase (l.openPending kind col).tokens p ∧
      (p = .waiting → kind = .punctuation .openBrace) ∧
      (p = .opened → kind ≠ .punctuation .openBrace) := by
  cases pending : l.pending with
  | none =>
    have idle : l.phase = .idle := by rw [phase, pending]; rfl
    rw [idle, openPending, pending]
    refine ⟨.idle, .nil _ _, ?_, ?_⟩
    all_goals
      intro other
      cases other
  | some opener =>
    have waiting : l.phase = .waiting := by rw [phase, pending]; rfl
    simp only [waiting, openPending, pending]
    split
    · rename_i written
      refine ⟨.waiting, .nil _ _, fun _ => written, ?_⟩
      intro other
      cases other
    · rename_i implied
      refine ⟨.opened, ?_, ?_, fun _ => implied⟩
      · split
        · exact .cons .opening (.nil _ _)
        · exact .cons .opening (.cons (.closing _) (.nil _ _))
      · intro other
        cases other

/-- A lexeme that counts, behind its braces. -/
theorem moves_place {inside : Bool} {x : Lexeme} (counts : x.counts inside = true) (l : Layout) :
    Phase.Moves inside l.phase ((l.place x.kind x.span.start).tokens ++ [.lexeme x])
      (.behind x.kind) := by
  obtain ⟨closings, tokens, closing⟩ := tokens_place x.kind x.span.start l
  obtain ⟨p, opened, written, implied⟩ := moves_openPending inside x.kind x.span.start.col l
  have braces : Phase.Moves inside l.phase (l.place x.kind x.span.start).tokens p := by
    rw [tokens]
    exact opened.append (Phase.moves_closings _ p closing)
  apply braces.append
  rw [(outside_tokens inside _).1]
  exact (Phase.Move.seen counts written implied).moves

theorem phase_settle (kind : Kind) (start stop : Position) (l : Layout) :
    ((l.place kind start).layout.settle kind stop).phase = .behind kind := by
  rw [phase, settle, pending_place, Phase.behind]
  cases kind.opensBlock <;> rfl

theorem phase_ne_opened (l : Layout) : l.phase ≠ .opened := by
  unfold phase
  split <;> decide

/-- At the end of the text no word is left that waits. -/
theorem moves_finish (l : Layout) :
    ∃ p, Phase.Moves false l.phase l.finish.tokens p ∧ p ≠ .waiting := by
  have closing : ∀ t ∈ List.replicate (l.nests.count .implied) (Token.virtual .closing),
      t = .virtual .closing := fun _ mem => List.eq_of_mem_replicate mem
  rw [tokens_finish, phase]
  split
  · refine ⟨.opened, ?_, by decide⟩
    exact .cons .opening (.cons (.closing _) (Phase.moves_closings _ _ closing))
  · exact ⟨.idle, Phase.moves_closings _ _ closing, by decide⟩

end Layout

namespace Lexer

variable {x y : Lexer} {l : Lexeme} {ls : List Lexeme} {out : List (Token × Lexer)}

theorem moves_of_step (h : Step x l out y) :
    Phase.Moves x.pragma.isSome x.layout.phase (out.map Prod.fst) y.layout.phase := by
  obtain ⟨counts, tokens, -, layout⟩ | ⟨counts, tokens, -, layout⟩ := layout_of_step h
  · rw [tokens, layout, Layout.phase_settle]
    exact Layout.moves_place counts x.layout
  · rw [tokens, layout]
    exact (Phase.Move.unseen counts x.layout.phase_ne_opened).moves

theorem moves_of_run (h : Run x ls out y) :
    Phase.Moves x.pragma.isSome x.layout.phase (out.map Prod.fst) y.layout.phase := by
  induction h with
  | stay => exact .nil _ _
  | step s _ ih =>
    rw [List.map_append]
    apply (moves_of_step s).append
    rw [(mirrors_of_step s).pragma]
    exact ih

end Lexer

/-! ## From word to brace, and back -/

/-- A whole stream with its phases between the tokens. -/
structure Staged (tokens : List Token) (phases : ℕ → Phase) : Prop where
  start : phases 0 = .idle
  moves : ∀ n t, tokens[n]? = some t →
    Phase.Move (insidePragma (tokens.take n)) (phases n) t (phases (n + 1))
  last : ∃ l, Shown tokens (tokens.length - 1) l ∧ l.kind = .endOfText
  ends : ∀ n l, tokens[n]? = some (.lexeme l) → l.kind = .endOfText → n + 1 = tokens.length

/-- Neither a block begins at the place nor counts what stands there. -/
def Quiet (tokens : List Token) (n : ℕ) : Prop :=
  tokens[n]? ≠ some (.virtual .opening) ∧ ∀ l, ¬Shown tokens n l

theorem staged_of_moves {body : List Token} {stop : Lexeme} {p : Phase}
    (moves : Phase.Moves false .idle body p) (settled : p ≠ .waiting)
    (outer : insidePragma body = false) (stops : stop.kind = .endOfText)
    (inner : ∀ l, .lexeme l ∈ body → l.kind ≠ .endOfText) :
    ∃ phases, Staged (body ++ [.lexeme stop]) phases := by
  have counts : stop.counts (insidePragma body) = true := by
    simp [outer, Lexeme.counts, Token.pragmaAfter, Token.kind, stops, Kind.isTransparent]
  have implied : p = .opened → stop.kind ≠ .punctuation .openBrace := by
    intro _ brace
    rw [stops] at brace
    cases brace
  have whole := moves.append
    (Phase.Move.seen counts (fun waits => absurd waits settled) implied).moves
  obtain ⟨phases, start, moves⟩ := whole.exists_phases
  refine ⟨phases, start, moves, ⟨stop, ?_, stops⟩, ?_⟩
  · rw [Shown, List.length_append, List.length_singleton, Nat.add_sub_cancel, List.take_left]
    exact ⟨List.getElem?_concat_length, counts⟩
  · intro n l found ends
    rw [List.length_append, List.length_singleton]
    by_contra early
    obtain ⟨bound, -⟩ := List.getElem?_eq_some_iff.1 found
    rw [List.length_append, List.length_singleton] at bound
    rw [List.getElem?_append_left (by omega)] at found
    exact inner l (List.mem_of_getElem? found) ends

open Lexer in
theorem exists_staged {config : Config} {text : List Char} {tokens : List Token}
    (h : lex config text = .ok tokens) : ∃ phases, Staged tokens phases := by
  obtain ⟨ls, out, y, run, -, closed, rfl⟩ := run_of_lex h
  have outer : (out.map Prod.fst).foldl Token.pragmaAfter false = false := by
    have mirrored := (mirrors_of_run run).pragma
    rwa [← pragma_skipBlanks y, closed] at mirrored
  obtain ⟨p, finished, settled⟩ := Layout.moves_finish y.layout
  rw [← outer] at finished
  apply staged_of_moves ((moves_of_run run).append finished) settled
  · rw [insidePragma, List.foldl_append, outer]
    exact (outside_tokens false y.layout.finish).1
  · rfl
  · intro l mem
    apply inner_of_run run
    rw [← run_lexemes run]
    obtain delivered | brace := List.mem_append.1 mem
    · exact List.mem_filterMap.2 ⟨_, delivered, rfl⟩
    · obtain ⟨b, -, same⟩ := List.mem_map.1 brace
      cases same

namespace Staged

variable {tokens : List Token} {phases : ℕ → Phase} {i j n a b : ℕ}

theorem quiet_succ (h : Staged tokens phases) (bound : n < tokens.length)
    (quiet : Quiet tokens n) : phases (n + 1) = phases n ∧
      (phases n = .opened → tokens[n]? = some (.virtual .closing)) := by
  obtain ⟨t, found⟩ : ∃ t, tokens[n]? = some t := ⟨_, List.getElem?_eq_getElem bound⟩
  have move := h.moves n t found
  obtain ⟨noOpening, unseen⟩ := quiet
  generalize before : phases n = p, phases (n + 1) = q at move
  cases move with
  | opening => exact absurd found noOpening
  | closing => exact ⟨rfl, fun _ => found⟩
  | seen counts => exact absurd ⟨found, counts⟩ (unseen _)
  | unseen counts early => exact ⟨rfl, fun late => absurd late early⟩

theorem quiet_until (h : Staged tokens phases) (le : a ≤ b) (bound : b ≤ tokens.length)
    (quiet : ∀ k, a ≤ k → k < b → Quiet tokens k) : phases b = phases a := by
  induction b, le using Nat.le_induction with
  | base => rfl
  | succ b le ih =>
    have before : phases b = phases a := by
      apply ih (by omega)
      intro k low high
      exact quiet k low (by omega)
    rw [← before]
    exact (h.quiet_succ (by omega) (quiet b le (by omega))).1

theorem exists_loud (h : Staged tokens phases) (bound : a < tokens.length) :
    ∃ k, a ≤ k ∧ k < tokens.length ∧ ¬Quiet tokens k ∧ ∀ m, a ≤ m → m < k → Quiet tokens m := by
  classical
  obtain ⟨l, shown, -⟩ := h.last
  have loud : ∃ k, a ≤ k ∧ k < tokens.length ∧ ¬Quiet tokens k :=
    ⟨tokens.length - 1, by omega, by omega, fun quiet => quiet.2 l shown⟩
  obtain ⟨low, high, here⟩ := Nat.find_spec loud
  refine ⟨Nat.find loud, low, high, here, ?_⟩
  intro m behind before
  by_contra there
  exact Nat.find_min loud before ⟨behind, by omega, there⟩

/-- A place that is not quiet holds a lexeme that counts, or a block begins. -/
theorem opening_or_shown (loud : ¬Quiet tokens n) :
    tokens[n]? = some (.virtual .opening) ∨ ∃ l, Shown tokens n l := by
  by_contra neither
  rw [not_or, not_exists] at neither
  exact loud neither

/-- The first lexeme of a block is no brace of the text, and comes behind those
that close other blocks. -/
theorem exists_first (h : Staged tokens phases) (opening : tokens[j]? = some (.virtual .opening)) :
    ∃ k l, j < k ∧ Shown tokens k l ∧ l.kind ≠ .punctuation .openBrace ∧
      ∀ m, j < m → m < k → tokens[m]? = some (.virtual .closing) := by
  obtain ⟨-, opened⟩ := (h.moves j _ opening).of_opening
  have inner : j + 1 < tokens.length := by
    obtain ⟨bound, -⟩ := List.getElem?_eq_some_iff.1 opening
    obtain ⟨l, shown, -⟩ := h.last
    by_contra late
    have same : tokens.length - 1 = j := by omega
    rw [Shown, same, opening] at shown
    cases shown.1
  obtain ⟨k, low, high, loud, quiet⟩ := h.exists_loud inner
  have still (m : ℕ) (behind : j + 1 ≤ m) (before : m ≤ k) : phases m = .opened := by
    rw [h.quiet_until behind (by omega) fun n low high => quiet n low (by omega)]
    exact opened
  obtain again | ⟨l, shown⟩ := opening_or_shown loud
  · obtain ⟨waiting, -⟩ := (h.moves k _ again).of_opening
    rw [still k low le_rfl] at waiting
    cases waiting
  · obtain ⟨-, -, implied⟩ := (h.moves k _ shown.1).of_lexeme shown.2
    refine ⟨k, l, by omega, shown, implied (still k low le_rfl), ?_⟩
    intro m behind before
    exact (h.quiet_succ (by omega) (quiet m behind before)).2 (still m behind (by omega))

/-- A word waits as long as nothing behind it counts. By induction on the place,
back to that word. -/
theorem exists_word (h : Staged tokens phases) (bound : n ≤ tokens.length)
    (waiting : phases n = .waiting) :
    ∃ i l, i < n ∧ Shown tokens i l ∧ l.kind.opensBlock = true ∧
      ∀ k, i < k → k < n → Quiet tokens k := by
  induction n with
  | zero =>
    rw [h.start] at waiting
    cases waiting
  | succ n ih =>
    by_cases quiet : Quiet tokens n
    · rw [(h.quiet_succ bound quiet).1] at waiting
      obtain ⟨i, l, before, shown, opens, between⟩ := ih (by omega) waiting
      refine ⟨i, l, by omega, shown, opens, ?_⟩
      intro k low high
      by_cases last : k = n
      · rw [last]
        exact quiet
      · exact between k low (by omega)
    · obtain opening | ⟨l, shown⟩ := opening_or_shown quiet
      · obtain ⟨-, opened⟩ := (h.moves n _ opening).of_opening
        rw [opened] at waiting
        cases waiting
      · obtain ⟨behind, -, -⟩ := (h.moves n _ shown.1).of_lexeme shown.2
        rw [behind, Phase.behind_eq_waiting] at waiting
        exact ⟨n, l, by omega, shown, waiting, fun k low high => by omega⟩

theorem opens_of_quiet (h : Staged tokens phases) (opening : tokens[j]? = some (.virtual .opening))
    (before : i < j) (quiet : ∀ k, i < k → k < j → Quiet tokens k) : Opens tokens i j := by
  refine ⟨⟨before, ?_⟩, ?_⟩
  · intro k l low high visible
    exact (quiet k low high).2 l visible.1
  · obtain ⟨k, l, behind, shown, -, closings⟩ := h.exists_first opening
    refine ⟨k, behind, ?_, closings⟩
    by_cases ends : l.kind = .endOfText
    · exact .inr ⟨h.ends k l shown.1 ends, l, shown.1, ends⟩
    · exact .inl ⟨l, shown, ends⟩

/-- Each word that calls for a virtual brace gets one. -/
theorem exists_opening (h : Staged tokens phases) (calls : Calls tokens i) :
    ∃ j, tokens[j]? = some (.virtual .opening) ∧ Opens tokens i j := by
  obtain ⟨l, ⟨shown, inner⟩, opens, next⟩ := calls
  have waiting : phases (i + 1) = .waiting := by
    obtain ⟨behind, -, -⟩ := (h.moves i _ shown.1).of_lexeme shown.2
    rw [behind]
    exact Phase.behind_eq_waiting.2 opens
  have bound : i + 1 < tokens.length := by
    obtain ⟨bound, -⟩ := List.getElem?_eq_some_iff.1 shown.1
    obtain ⟨stop, ⟨last, -⟩, ends⟩ := h.last
    by_contra late
    have same : tokens.length - 1 = i := by omega
    rw [same, shown.1] at last
    cases last
    exact inner ends
  obtain ⟨j, low, high, loud, quiet⟩ := h.exists_loud bound
  obtain opening | ⟨m, found⟩ := opening_or_shown loud
  · exact ⟨j, opening, h.opens_of_quiet opening low quiet⟩
  · obtain ⟨-, written, -⟩ := (h.moves j _ found.1).of_lexeme found.2
    have brace : m.kind = .punctuation .openBrace := by
      apply written
      rw [h.quiet_until low (by omega) quiet, waiting]
    have clear : Clear tokens i j :=
      ⟨low, fun k l low high visible => (quiet k low high).2 l visible.1⟩
    have visible : Visible tokens j m := by
      refine ⟨found, ?_⟩
      rw [brace]
      decide
    exact absurd brace (next j m clear visible)

/-- The visible lexeme next to a word is the first of its block, if that begins
before any other lexeme that counts. -/
theorem implied_of_clear (h : Staged tokens phases) {m : Lexeme}
    (opening : tokens[j]? = some (.virtual .opening))
    (before : i < j) (quiet : ∀ k, i < k → k < j → Quiet tokens k)
    (clear : Clear tokens i n) (visible : Visible tokens n m) :
    m.kind ≠ .punctuation .openBrace := by
  obtain ⟨k, first, behind, found, implied, closings⟩ := h.exists_first opening
  obtain ⟨here, -⟩ := visible
  obtain early | rfl | late := lt_trichotomy n k
  · obtain outer | rfl | inside := lt_trichotomy n j
    · exact absurd here ((quiet n clear.1 outer).2 m)
    · rw [Shown, opening] at here
      cases here.1
    · rw [Shown, closings n inside early] at here
      cases here.1
  · rw [Shown, found.1] at here
    cases here.1
    exact implied
  · -- the first lexeme of the block is visible, or nothing is behind it
    have ends : first.kind = .endOfText := by
      by_contra seen
      exact clear.2 k first (by omega) late ⟨found, seen⟩
    have last := h.ends k first found.1 ends
    obtain ⟨bound, -⟩ := List.getElem?_eq_some_iff.1 here.1
    omega

/-- Each virtual brace that opens a block answers a word. -/
theorem exists_call (h : Staged tokens phases) (opening : tokens[j]? = some (.virtual .opening)) :
    ∃ i, Calls tokens i ∧ Opens tokens i j := by
  obtain ⟨waiting, -⟩ := (h.moves j _ opening).of_opening
  obtain ⟨bound, -⟩ := List.getElem?_eq_some_iff.1 opening
  obtain ⟨i, l, before, shown, opens, quiet⟩ := h.exists_word bound.le waiting
  have inner : l.kind ≠ .endOfText := by
    intro ends
    rw [ends] at opens
    cases opens
  refine ⟨i, ⟨l, ⟨shown, inner⟩, opens, ?_⟩, h.opens_of_quiet opening before quiet⟩
  intro n m clear visible
  exact h.implied_of_clear opening before quiet clear visible

end Staged

namespace Opens

variable {tokens : List Token} {i i' j j' : ℕ}

/-- Of two words the first has its brace before the second. -/
theorem lt_of_lt (h : Opens tokens i j) (h' : Opens tokens i' j')
    (opening : tokens[j]? = some (.virtual .opening)) (calls : Calls tokens i') (lt : i < i') :
    j < j' := by
  obtain ⟨l, visible, -⟩ := calls
  have apart : j ≠ i' := by
    rintro rfl
    have here := visible.1.1
    rw [opening] at here
    cases here
  have early : j ≤ i' := by
    by_contra late
    exact h.clear.2 i' l lt (by omega) visible
  have behind := h'.clear.1
  omega

/-- A second brace of the same word would be behind the first lexeme of the block. -/
theorem le_of_opens (h : Opens tokens i j) (h' : Opens tokens i j')
    (opening : tokens[j']? = some (.virtual .opening)) : j' ≤ j := by
  obtain ⟨k, behind, stop, closings⟩ := h.closings
  obtain ⟨bound, -⟩ := List.getElem?_eq_some_iff.1 opening
  by_contra late
  obtain early | rfl | far := lt_trichotomy j' k
  · rw [closings j' (by omega) early] at opening
    cases opening
  · obtain ⟨l, visible⟩ | ⟨-, l, ends, -⟩ := stop
    · rw [visible.1.1] at opening
      cases opening
    · rw [ends] at opening
      cases opening
  · obtain ⟨l, visible⟩ | ⟨last, -⟩ := stop
    · have before := h.clear.1
      exact h'.clear.2 k l (by omega) far visible
    · omega

end Opens

/-- **Where blocks begin.** The virtual braces that open blocks stand in the
order of the words that call for them, one for each. Between a word and its
brace nothing is visible, and only blocks are closed from there to the next
visible lexeme, or to the end. -/
theorem openings_correspond {config : Config} {text : List Char} {tokens : List Token}
    (h : lex config text = .ok tokens) :
    ∃ e : {i // Calls tokens i} ≃o {j // tokens[j]? = some (Token.virtual .opening)},
      ∀ i, Opens tokens i.val (e i).val := by
  obtain ⟨phases, staged⟩ := exists_staged h
  choose place opening opens using fun i : {i // Calls tokens i} => staged.exists_opening i.2
  let e (i : {i // Calls tokens i}) : {j // tokens[j]? = some (Token.virtual .opening)} :=
    ⟨place i, opening i⟩
  have strict : StrictMono e := fun i i' lt => (opens i).lt_of_lt (opens i') (opening i) i'.2 lt
  have onto : Function.Surjective e := by
    rintro ⟨j, brace⟩
    obtain ⟨i, calls, answered⟩ := staged.exists_call brace
    refine ⟨⟨i, calls⟩, Subtype.ext ?_⟩
    apply le_antisymm
    · exact answered.le_of_opens (opens ⟨i, calls⟩) (opening ⟨i, calls⟩)
    · exact (opens ⟨i, calls⟩).le_of_opens answered brace
  exact ⟨strict.orderIsoOfSurjective e onto, opens⟩

/-- One brace comes behind a comment, one right behind its word and one at the
end; before the brace of the text there is none. -/
theorem openings_correspond_waiting :
    let word (k : Kind) (start stop : Int) (text : List Char) : Token :=
      .lexeme ⟨k, ⟨⟨1, start⟩, ⟨1, stop⟩⟩, text⟩
    let text := ['d', 'o', ' ', '{', '-', '-', '}', ' ', 'o', 'f', ' ', 'w', 'h', 'e', 'r', 'e',
      ' ', '{', ' ', 'l', 'e', 't']
    let tokens := [word (.keyword .doKw) 1 3 ['d', 'o'],
      word (.comment .block) 4 8 ['{', '-', '-', '}'], .virtual .opening,
      word (.keyword .ofKw) 9 11 ['o', 'f'], .virtual .opening,
      word (.keyword .whereKw) 12 17 ['w', 'h', 'e', 'r', 'e'],
      word (.punctuation .openBrace) 18 19 ['{'], word (.keyword .letKw) 20 23 ['l', 'e', 't'],
      .virtual .opening, .virtual .closing, .virtual .closing, .virtual .closing,
      .lexeme (Lexeme.atEnd text)]
    lex .permissive text = .ok tokens ∧
      ∃ e : {i // Calls tokens i} ≃o {j // tokens[j]? = some (Token.virtual .opening)},
        (∀ i, Opens tokens i.val (e i).val) ∧
          ∀ j ∈ [2, 4, 8], ∃ i, (e i).val = j := by
  intro word text tokens
  have h : lex .permissive text = .ok tokens := by decide +kernel
  obtain ⟨e, opens⟩ := openings_correspond h
  refine ⟨h, e, opens, ?_⟩
  intro j hj
  have opening : tokens[j]? = some (.virtual .opening) := by
    revert j
    decide
  exact ⟨e.symm ⟨j, opening⟩, by rw [e.apply_symm_apply]⟩

end HaskellLexis
