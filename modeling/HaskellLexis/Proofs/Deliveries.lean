import HaskellLexis.Proofs.Offside
import HaskellLexis.Proofs.Single

/-!
# Which step delivers a lexeme

Each lexeme of a stream is taken by a step of its own. Before it in the stream
are the deliveries of the run up to that step and the braces that the step
makes, and behind it what the lexer delivers as it goes on.

* `step_of_items`: the step that delivers what stands at a place in the stream;
* `insidePragma_of_run`: a pragma is open in the stream where one is for the
  lexer.
-/

namespace HaskellLexis

/-- A lexeme behind braces is either the one that is looked for, or comes
before it. -/
theorem lexeme_cases {p : Placing} {l T : Lexeme} {more before after : List Token}
    (h : p.tokens ++ .lexeme l :: more = before ++ .lexeme T :: after) :
    (before = p.tokens ∧ l = T ∧ more = after) ∨
      ∃ inner, before = p.tokens ++ .lexeme l :: inner ∧ more = inner ++ .lexeme T :: after := by
  obtain ⟨inner, whole, rest⟩ | ⟨inner, whole, rest⟩ := List.append_eq_append_iff.1 h
  · cases inner with
    | nil =>
      cases rest
      exact .inl ⟨whole.trans (List.append_nil _), rfl, rfl⟩
    | cons t inner =>
      cases rest
      exact .inr ⟨inner, whole, rfl⟩
  · cases inner with
    | nil =>
      cases rest
      exact .inl ⟨(whole.trans (List.append_nil _)).symm, rfl, rfl⟩
    | cons t inner =>
      cases rest
      have mem : Token.lexeme T ∈ p.tokens := by
        rw [whole]
        exact List.mem_append_right before List.mem_cons_self
      obtain ⟨b, -, brace⟩ := List.mem_map.1 mem
      cases brace

namespace Lexer

variable {x y : Lexer} {l T : Lexeme} {ls : List Lexeme} {out : List (Token × Lexer)}
  {before after : List Token}

theorem tokens_of_step (h : Step x l out y) :
    ∃ p : Placing, out.map Prod.fst = p.tokens ++ [.lexeme l] := by
  obtain ⟨-, tokens, -⟩ | ⟨-, tokens, -⟩ := layout_of_step h
  · exact ⟨_, tokens⟩
  · exact ⟨x.layout.stay, tokens⟩

theorem not_mem_of_halts (h : x.Halts) (inner : T.kind ≠ .endOfText) :
    .lexeme T ∉ x.trace.items := by
  intro mem
  have delivered : T ∈ located x.trace.items :=
    List.mem_filter.2 ⟨List.mem_filterMap.2 ⟨_, mem, rfl⟩, by simpa using inner⟩
  rw [located_of_halts h] at delivered
  cases delivered

/-- By induction on the text that is left, step by step up to the one that
takes `T`. -/
theorem step_of_items (h : x.trace.items = before ++ .lexeme T :: after)
    (inner : T.kind ≠ .endOfText) :
    ∃ ls out z more y, ∃ p : Placing, Run x ls out z ∧ Step z T more y ∧
      before = out.map Prod.fst ++ p.tokens ∧ more.map Prod.fst = p.tokens ++ [.lexeme T] ∧
      y.trace.items = after := by
  generalize hn : x.rest.length = n
  induction n using Nat.strongRecOn generalizing x before with
  | ind n ih =>
    obtain ⟨l, out, y, step⟩ | halts := x.step_or_halts
    · obtain ⟨p, tokens⟩ := tokens_of_step step
      rw [(trace_of_step step).1, tokens, List.append_assoc] at h
      obtain ⟨rfl, rfl, rest⟩ | ⟨between, rfl, rest⟩ := lexeme_cases h
      · exact ⟨[], [], x, out, y, p, .stay x, step, rfl, tokens, rest⟩
      · have shorter := step_shorter step
        obtain ⟨ls, more, z, last, w, q, run, found, rfl, made, left⟩ :=
          ih _ (by omega) rest rfl
        refine ⟨l :: ls, out ++ more, z, last, w, q, .step step run, found, ?_, made, left⟩
        rw [List.map_append, tokens, List.append_assoc, List.append_assoc]
        rfl
    · have mem : .lexeme T ∈ x.trace.items := by
        rw [h]
        exact List.mem_append_right before List.mem_cons_self
      exact absurd mem (not_mem_of_halts halts inner)

/-- Braces do not tell pragmas apart, be they delivered yet or not. -/
theorem insidePragma_of_run {config : Config} {text : List Char}
    (h : Run (start config text) ls out x) (p : Placing) :
    insidePragma (out.map Prod.fst ++ p.tokens) = x.pragma.isSome := by
  rw [insidePragma, List.foldl_append, (outside_tokens _ p).1]
  exact (mirrors_of_run h).pragma

end Lexer

end HaskellLexis
