import HaskellLexis.Proofs.LineEnd
import HaskellLexis.Proofs.Progress
import HaskellLexis.Proofs.Shift

/-!
# Texts joined by a line feed

A text that lexes may be put in front of another one: its lexemes stay, those
of the other follow in later lines, and a failure of the other is found there
too. Only documentation at the very end would take lines of the other text
along.

* `Lexer.extend`: a lexer with more lines behind its text;
* `run_extend`: it takes the same lexemes as without them;
* `lex_join`: two whole texts.
-/

namespace HaskellLexis

/-- Where documentation has stopped it does not go on with lines behind the
text, unless the text is over. -/
theorem Comment.continuationLength_stopped {on : Extensions} {s : List Char} (more : s ≠ [])
    (stopped : continuationLength on s = 0) (t : List Char) :
    continuationLength on (s ++ '\n' :: t) = 0 := by
  cases s with
  | nil => exact absurd rfl more
  | cons c r =>
    by_cases feed : c = '\n'
    · subst feed
      rw [continuationLength_cons] at stopped
      rw [List.cons_append, continuationLength_cons]
      have blanks : runLength isInlineBlank (r ++ '\n' :: t) = runLength isInlineBlank r :=
        runLength_line (by decide)
      have body : (r ++ '\n' :: t).drop (runLength isInlineBlank r) =
          r.drop (runLength isInlineBlank r) ++ '\n' :: t :=
        List.drop_append_of_le_length (runLength_le isInlineBlank r)
      simp only [blanks, body, isPlain_line] at stopped ⊢
      split at stopped
      · omega
      · rename_i other
        exact if_neg other
    · rw [List.cons_append, continuationLength]
      exact fun r' same => feed (List.cons.inj same).1

namespace Lexer

/-- A line feed and the text `t` behind the text of the lexer. -/
def extend (x : Lexer) (t : List Char) : Lexer := { x with rest := x.rest ++ '\n' :: t }

variable {x y : Lexer} {l : Lexeme} {ls : List Lexeme} {out : List (Token × Lexer)} {n : Nat}

theorem consume_extend (h : n ≤ x.rest.length) (t : List Char) :
    (x.extend t).consume n = (x.consume n).extend t := by
  simp only [consume, extend, List.take_append_of_le_length h, List.drop_append_of_le_length h]

theorem skipBlanks_extend {c : Char} {r : List Char} (front : x.skipBlanks.rest = c :: r)
    (t : List Char) : (x.extend t).skipBlanks = x.skipBlanks.extend t := by
  have solid : ∃ d ∈ x.rest, isBlank d = false := by
    rw [rest_skipBlanks] at front
    refine ⟨c, (List.dropWhile_suffix isBlank).subset (front ▸ List.mem_cons_self), ?_⟩
    have head := List.head?_dropWhile_not isBlank x.rest
    simpa [front] using head
  have blanks : runLength isBlank (x.rest ++ '\n' :: t) = runLength isBlank x.rest :=
    congrArg List.length (takeWhile_append_of_stop solid)
  simp only [skipBlanks]
  rw [show (x.extend t).rest = x.rest ++ '\n' :: t from rfl, blanks]
  exact consume_extend (runLength_le isBlank x.rest) t

theorem cut_extend (k : Kind) (h : n ≤ x.rest.length) (t : List Char) :
    (x.extend t).cut k n = ((x.cut k n).1, (x.cut k n).2.extend t) := by
  have taken : (x.extend t).rest.take n = x.rest.take n := List.take_append_of_le_length h
  simp only [cut, consume_extend h, taken]
  rfl

theorem emit_extend (x : Lexer) (l : Lexeme) (t : List Char) :
    ((x.extend t).emit l).2 = (x.emit l).2.extend t := by
  unfold emit
  split <;> rename_i sees
  · rw [if_pos (show x.seesLayout l.kind = true from sees)]
    rfl
  · rw [if_neg (show ¬x.seesLayout l.kind = true from sees)]

/-- Documentation that is not the last thing in the text has found its end
there. -/
theorem step_extend (step : Step x l out y)
    (alone : y.rest = [] → ∀ k, l.kind = .comment k → k.continues = false) (t : List Char) :
    ∃ out', Step (x.extend t) l out' (y.extend t) := by
  obtain ⟨front, scanned, cut⟩ := step
  rename_i c r k n z
  have inside : n + 1 ≤ x.skipBlanks.rest.length := by
    rw [front]
    exact Nat.succ_le_succ (Lexeme.scan_le scanned)
  have kind : l.kind = k := congrArg (·.1.kind) cut.symm
  have rest : z.rest = r.drop n := by
    have behind := congrArg (·.2.rest) cut.symm
    simp only [rest_cut, front, List.drop_succ_cons] at behind
    exact behind
  have skip := skipBlanks_extend front t
  have cut' : (x.extend t).skipBlanks.cut k (n + 1) = (l, z.extend t) := by
    rw [skip, cut_extend k inside, cut]
  have scanned' : Lexeme.scan (x.extend t).skipBlanks.site c (r ++ '\n' :: t) = .ok (k, n) := by
    rw [skip]
    apply Lexeme.scan_line scanned
    intro starts continues
    have found := (Lexeme.scan_of_scanned (.lineComment starts)).symm.trans scanned
    obtain ⟨rfl, rfl⟩ := Prod.mk.inj (Except.ok.inj found)
    apply Comment.continuationLength_stopped
    · intro used
      rw [rest_emit] at alone
      have stops := alone (rest.trans used) _ kind
      rw [stops] at continues
      cases continues
    · rw [Comment.scanLine_length, if_pos continues, ← List.drop_drop]
      exact Comment.continuationLength_drop _ _
  have taken := Step.take (x := x.extend t) (by rw [skip, extend, front]; rfl) scanned' cut'
  rw [emit_extend] at taken
  exact ⟨_, taken⟩

theorem run_of_rest_nil (run : Run x ls out y) (h : x.rest = []) : ls = [] := by
  cases run with
  | stay => rfl
  | step s _ =>
    have shorter := step_shorter s
    rw [h] at shorter
    cases shorter

/-- The lexer takes the same lexemes, unless the last one is documentation that
goes on behind the text. -/
theorem run_extend (run : Run x ls out y)
    (last : ∀ l, ls.getLast? = some l → ∀ k, l.kind = .comment k → k.continues = false)
    (t : List Char) : ∃ out', Run (x.extend t) ls out' (y.extend t) := by
  induction run with
  | stay x => exact ⟨[], .stay _⟩
  | step s run ih =>
    rename_i x y z l ls out more
    obtain ⟨more', run'⟩ := ih fun l' isLast => last l' (by simp [List.getLast?_cons, isLast])
    obtain ⟨out', step'⟩ := step_extend s
      (fun used => last l (by rw [run_of_rest_nil run used]; rfl)) t
    exact ⟨out' ++ more', .step step' run'⟩

theorem trace_congr (h : x.skipBlanks = y.skipBlanks) : x.trace = y.trace := by
  cases front : x.skipBlanks.rest with
  | nil => rw [trace_of_nil front, trace_of_nil (h ▸ front), h]
  | cons c r => rw [trace_of_cons front, trace_of_cons (h ▸ front), h]

/-- Blanks that come first may as well have been taken. -/
theorem trace_consume_blanks {gap s : List Char} (blank : ∀ c ∈ gap, isBlank c = true)
    (rest : x.rest = gap ++ s) : (x.consume gap.length).trace = x.trace := by
  apply trace_congr
  have blanks : runLength isBlank x.rest = gap.length + runLength isBlank s := by
    rw [rest, runLength, List.takeWhile_append_of_pos blank, List.length_append]
    rfl
  have behind : (x.consume gap.length).rest = s := by
    rw [rest_consume, rest, List.drop_left]
  rw [skipBlanks, skipBlanks, blanks, consume_add, behind]

theorem after_line (p : Position) (cs : List Char) :
    (p.after cs).line = p.line + cs.count '\n' := by
  induction cs generalizing p with
  | nil => simp [Position.after_nil]
  | cons c cs ih =>
    rw [Position.after_cons, ih]
    by_cases feed : c = '\n'
    · subst feed
      rw [Position.next_feed, List.count_cons_self]
      push_cast
      omega
    · rw [Position.next_line feed, List.count_cons_of_ne feed]

/-- Once the first text is used up, the lexer stands before the second one as
one that starts there does, only further down. -/
theorem shifted_joined {config : Config} {s₁ : List Char}
    (run : Run (start config s₁) ls out y) (closed : y.pragma = none) (s₂ : List Char) :
    Shifted (1 + s₁.count '\n') (start config s₂)
      ((y.extend s₂).consume (y.rest ++ ['\n']).length) := by
  have rest : (y.extend s₂).rest = y.rest ++ ['\n'] ++ s₂ := by simp [extend]
  have taken : (y.extend s₂).rest.take (y.rest ++ ['\n']).length = y.rest ++ ['\n'] := by
    rw [rest, List.take_left]
  have arrived : y.here.after (y.rest ++ ['\n']) = Position.origin.down (1 + s₁.count '\n') := by
    obtain ⟨tiles, -, -, used, here⟩ := tiled_of_run run
    change s₁ = _ at used
    change y.here = Position.origin.after _ at here
    rw [here, ← Position.after_append, ← List.append_assoc, ← used, Position.after_append,
      Position.after_cons, Position.after_nil, Position.next_feed, after_line, Position.down,
      Position.origin, Int.add_assoc, Int.add_comm (_ : Int) 1]
  have config' : y.config = config := config_of_run run
  refine ⟨config', ?_, ?_, ?_, ?_⟩
  · rw [rest_consume, rest, List.drop_left]
    rfl
  · have before : ((y.extend s₂).consume (y.rest ++ ['\n']).length).before = some '\n' := by
      simp only [consume, taken, List.getLast?_append]
      rfl
    simp only [site, before]
    rfl
  · simp only [consume, taken]
    exact arrived
  · simp only [consume, extend, closed]
    rfl

end Lexer

open Lexer in
/-- **Texts that lex may be joined.** Behind a text that lexes, and does not end
in documentation that goes on over the next lines, another text lexes as it does
alone, only further down: with the same lexemes, or to the same failure. -/
theorem lex_join {config : Config} {s₁ : List Char} {tokens₁ : List Token}
    (h : lex config s₁ = .ok tokens₁)
    (last : ∀ l, (located tokens₁).getLast? = some l →
      ∀ k, l.kind = .comment k → k.continues = false) (s₂ : List Char) :
    let n : Int := 1 + s₁.count '\n'
    (∀ tokens₂, lex config s₂ = .ok tokens₂ →
      ∃ tokens, lex config (s₁ ++ '\n' :: s₂) = .ok tokens ∧
        tokens.filterMap Token.lexeme? =
          located tokens₁ ++ (tokens₂.filterMap Token.lexeme?).map (Lexeme.down n)) ∧
    (∀ e, lex config s₂ = .error e → lex config (s₁ ++ '\n' :: s₂) = .error (e.down n)) := by
  intro n
  obtain ⟨ls, out, y, run, used, closed, rfl⟩ := run_of_lex h
  rw [located_of_run run] at last ⊢
  obtain ⟨out', joined⟩ := run_extend run last s₂
  obtain ⟨items, error⟩ := trace_of_run joined
  have blank : ∀ c ∈ y.rest ++ ['\n'], isBlank c = true := by
    rw [rest_skipBlanks, List.dropWhile_eq_nil_iff] at used
    intro c hc
    obtain inRest | feed := List.mem_append.1 hc
    · exact used c inRest
    · rw [List.mem_singleton.1 feed]
      rfl
  have rest : (y.extend s₂).rest = y.rest ++ ['\n'] ++ s₂ := by simp [extend]
  obtain ⟨items', error'⟩ := trace_shifted (shifted_joined run closed s₂)
  rw [trace_consume_blanks blank rest] at items' error'
  rw [items'] at items
  rw [error'] at error
  change (start config (s₁ ++ '\n' :: s₂)).trace.items.filterMap Token.lexeme? = _ at items
  change (start config (s₁ ++ '\n' :: s₂)).trace.error? = _ at error
  simp only [lex, Trace.result, error]
  cases (start config s₂).trace.error? with
  | none =>
    constructor
    · intro tokens₂ ok
      cases ok
      exact ⟨_, rfl, items⟩
    · intro e failed
      cases failed
  | some f =>
    constructor
    · intro tokens₂ ok
      cases ok
    · intro e failed
      cases failed
      exact congrArg Except.error (f.report_down n config)

/-- A comment behind a comment, and a string that is never closed. -/
theorem lex_join_comments :
    let s₁ := ['-', '-', 'x']
    let x : Lexeme := ⟨.comment .line, ⟨⟨1, 1⟩, ⟨1, 4⟩⟩, s₁⟩
    let stop : Lexeme := ⟨.endOfText, ⟨⟨1, 4⟩, ⟨1, 4⟩⟩, []⟩
    lex .permissive s₁ = .ok [.lexeme x, .lexeme stop] ∧
      (∃ tokens, lex .permissive (s₁ ++ '\n' :: s₁) = .ok tokens ∧
        tokens.filterMap Token.lexeme? = [x, x.down 1, stop.down 1]) ∧
      lex .permissive (s₁ ++ '\n' :: ['"']) = .error
        (.ofCause .permissive .literalAtEnd ⟨2, 1⟩) := by
  intro s₁ x stop
  have h : lex .permissive s₁ = .ok [.lexeme x, .lexeme stop] := by decide +kernel
  have last : ∀ l, (located [.lexeme x, .lexeme stop]).getLast? = some l →
      ∀ k, l.kind = .comment k → k.continues = false := by
    intro l isLast k kind
    cases isLast
    cases kind
    rfl
  exact ⟨h, (lex_join h last s₁).1 _ h,
    (lex_join h last ['"']).2 (.ofCause .permissive .literalAtEnd ⟨1, 1⟩) (by decide +kernel)⟩

end HaskellLexis
