import HaskellLexis.Lexer

/-!
# Runs of the lexer

A lexer goes on by steps, each of which takes one lexeme, until it stands
before the end of the text or before something that is no lexeme.

* `Step`, `Run`: one lexeme, and any number of them, with what is delivered;
* `exists_run`: every trace is the deliveries of a run and what follows it;
* `run_of_lex`: a text that lexes is a run up to its end.
-/

namespace HaskellLexis

theorem Tabs.seeAll_append (t : Tabs) (p : Position) (xs ys : List Char) :
    t.seeAll p (xs ++ ys) = (t.seeAll p xs).seeAll (p.after xs) ys := by
  induction xs generalizing t p with
  | nil => rfl
  | cons c xs ih => exact ih (t.see p c) (p.next c)

namespace Lexer

/-- The lexer takes the lexeme `l`, delivers `out` for it, and goes on as `y`. -/
inductive Step (x : Lexer) : Lexeme → List (Token × Lexer) → Lexer → Prop where
  | take {c : Char} {r : List Char} {k : Kind} {n : Nat} {l : Lexeme} {y : Lexer}
      (front : x.skipBlanks.rest = c :: r)
      (scanned : Lexeme.scan x.skipBlanks.site c r = .ok (k, n))
      (cut : x.skipBlanks.cut k (n + 1) = (l, y)) : Step x l (y.emit l).1 (y.emit l).2

inductive Run : Lexer → List Lexeme → List (Token × Lexer) → Lexer → Prop where
  | stay (x : Lexer) : Run x [] [] x
  | step {x y z : Lexer} {l : Lexeme} {ls : List Lexeme} {out more : List (Token × Lexer)} :
      Step x l out y → Run y ls more z → Run x (l :: ls) (out ++ more) z

/-- The lexer can make no step: the text is over, or no lexeme stands there. -/
def Halts (x : Lexer) : Prop :=
  x.skipBlanks.rest = [] ∨
    ∃ c r cause, x.skipBlanks.rest = c :: r ∧ Lexeme.scan x.skipBlanks.site c r = .error cause

variable {x y : Lexer} {l : Lexeme} {ls : List Lexeme} {out : List (Token × Lexer)}

theorem rest_skipBlanks (x : Lexer) : x.skipBlanks.rest = x.rest.dropWhile isBlank :=
  drop_runLength isBlank x.rest

theorem skipBlanks_suffix (x : Lexer) : x.skipBlanks.rest <:+ x.rest := List.drop_suffix _ _

theorem pragma_skipBlanks (x : Lexer) : x.skipBlanks.pragma = x.pragma := rfl

theorem layout_skipBlanks (x : Lexer) : x.skipBlanks.layout = x.layout := rfl

theorem here_skipBlanks (x : Lexer) :
    x.skipBlanks.here = x.here.after (x.rest.takeWhile isBlank) :=
  congrArg x.here.after (take_runLength isBlank x.rest)

theorem here_emit (x : Lexer) (l : Lexeme) : (x.emit l).2.here = x.here := by
  unfold emit
  split <;> rfl

theorem config_emit (x : Lexer) (l : Lexeme) : (x.emit l).2.config = x.config := by
  unfold emit
  split <;> rfl

theorem site_emit (x : Lexer) (l : Lexeme) : (x.emit l).2.site = x.site := by
  unfold emit
  split <;> rfl

theorem pragma_emit (x : Lexer) (l : Lexeme) : (x.emit l).2.pragma = x.pragma := by
  unfold emit
  split <;> rfl

theorem map_braceItems (x : Lexer) (bs : List (Brace × Layout)) :
    (x.braceItems bs).map Prod.fst = bs.map fun b => .virtual b.1 := by
  rw [braceItems, List.map_map]
  rfl

theorem lexemes_braces (bs : List (Brace × Layout)) :
    (bs.map fun b => Token.virtual b.1).filterMap Token.lexeme? = [] := by
  simp [Token.lexeme?, List.filterMap_eq_nil_iff]

/-- Braces are no lexemes, so a step delivers the one it takes and no other. -/
theorem lexemes_emit (x : Lexer) (l : Lexeme) :
    ((x.emit l).1.map Prod.fst).filterMap Token.lexeme? = [l] := by
  unfold emit
  split
  · simp only [List.map_append, map_braceItems, List.filterMap_append, lexemes_braces]
    rfl
  · rfl

theorem step_shorter (h : Step x l out y) : y.rest.length < x.rest.length := by
  obtain ⟨front, -, cut⟩ := h
  have rest := congrArg (Lexer.rest ∘ Prod.snd) cut
  have short := x.length_rest_skipBlanks
  simp only [Function.comp_apply, rest_cut, front, List.drop_succ_cons] at rest
  simp only [front, List.length_cons] at short
  rw [rest_emit, ← rest, List.length_drop]
  omega

/-- The lexeme of a step, as the scanner finds it in what lies ahead. -/
theorem scan_of_step {c : Char} {r : List Char} (front : x.skipBlanks.rest = c :: r)
    (h : Step x l out y) :
    ∃ n, Lexeme.scan x.skipBlanks.site c r = .ok (l.kind, n) ∧ l.text = c :: r.take n ∧
      l.span.start = x.skipBlanks.here := by
  obtain ⟨front', scanned, cut⟩ := h
  cases front.symm.trans front'
  obtain ⟨rfl, -⟩ := Prod.mk.inj cut
  refine ⟨_, scanned, ?_, rfl⟩
  rw [front, List.take_succ_cons]

theorem step_lexemes (h : Step x l out y) :
    (out.map Prod.fst).filterMap Token.lexeme? = [l] := by
  obtain ⟨-, -, -⟩ := h
  exact lexemes_emit _ _

theorem run_lexemes (h : Run x ls out y) :
    (out.map Prod.fst).filterMap Token.lexeme? = ls := by
  induction h with
  | stay => rfl
  | step s _ ih => rw [List.map_append, List.filterMap_append, step_lexemes s, ih]; rfl

theorem config_of_step (h : Step x l out y) : y.config = x.config := by
  obtain ⟨-, -, cut⟩ := h
  obtain ⟨rfl, rfl⟩ := Prod.mk.inj cut
  exact config_emit _ _

theorem config_of_run (h : Run x ls out y) : y.config = x.config := by
  induction h with
  | stay => rfl
  | step s _ ih => rw [ih, config_of_step s]

/-- What a step delivers comes first in the trace. -/
theorem trace_of_step (h : Step x l out y) :
    x.trace.items = out.map Prod.fst ++ y.trace.items ∧ x.trace.error? = y.trace.error? := by
  obtain ⟨front, scanned, cut⟩ := h
  rw [trace_of_cons front, scanned]
  simp only [cut, Trace.items_remarkAll, Trace.error?_remarkAll, Trace.items_itemAll,
    Trace.error?_itemAll, and_self]

/-- What a run delivers comes first in the trace. -/
theorem items_of_run (h : Run x ls out y) :
    x.trace.items = out.map Prod.fst ++ y.trace.items ∧ x.trace.error? = y.trace.error? := by
  induction h with
  | stay x => exact ⟨rfl, rfl⟩
  | step s _ ih =>
    obtain ⟨items, error⟩ := trace_of_step s
    rw [items, error, List.map_append, List.append_assoc, ih.1]
    exact ⟨rfl, ih.2⟩

theorem trace_of_run (h : Run x ls out y) :
    x.trace.items.filterMap Token.lexeme? = ls ++ y.trace.items.filterMap Token.lexeme? ∧
      x.trace.error? = y.trace.error? := by
  obtain ⟨items, error⟩ := items_of_run h
  rw [items, List.filterMap_append, run_lexemes h]
  exact ⟨rfl, error⟩

theorem Run.trans {z : Lexer} {ms : List Lexeme} {more : List (Token × Lexer)}
    (h : Run x ls out y) (h' : Run y ms more z) : Run x (ls ++ ms) (out ++ more) z := by
  induction h with
  | stay => exact h'
  | step s _ ih =>
    rw [List.append_assoc]
    exact .step s (ih h')

theorem run_of_step (h : Step x l out y) : Run x [l] out y := by
  have run := Run.step h (.stay y)
  rwa [List.append_nil] at run

/-- Each lexeme of a run is taken by one of its steps. -/
theorem step_of_mem (h : Run x ls out y) (mem : l ∈ ls) :
    ∃ before out₁ z out₂ z', Run x before out₁ z ∧ Step z l out₂ z' := by
  induction h with
  | stay => cases mem
  | @step x y _ m ms out₁ _ s _ ih =>
    obtain rfl | later := List.mem_cons.1 mem
    · exact ⟨[], [], x, out₁, y, .stay x, s⟩
    · obtain ⟨before, more, z, out₂, z', run, step⟩ := ih later
      exact ⟨m :: before, out₁ ++ more, z, out₂, z', .step s run, step⟩

theorem step_or_halts (x : Lexer) : (∃ l out y, Step x l out y) ∨ x.Halts := by
  cases front : x.skipBlanks.rest with
  | nil => exact .inr (.inl front)
  | cons c r =>
    cases scanned : Lexeme.scan x.skipBlanks.site c r with
    | error cause => exact .inr (.inr ⟨c, r, cause, front, scanned⟩)
    | ok found => exact .inl ⟨_, _, _, .take front scanned rfl⟩

theorem exists_run (x : Lexer) :
    ∃ ls out y, Run x ls out y ∧ y.Halts ∧
      x.trace.items = out.map Prod.fst ++ y.trace.items ∧ x.trace.error? = y.trace.error? := by
  generalize hn : x.rest.length = n
  induction n using Nat.strongRecOn generalizing x with
  | ind n ih =>
    obtain ⟨l, out, y, step⟩ | halts := x.step_or_halts
    · have shorter := step_shorter step
      obtain ⟨ls, more, z, run, halts, items, error⟩ := ih _ (by omega) y rfl
      obtain ⟨items', error'⟩ := trace_of_step step
      refine ⟨l :: ls, out ++ more, z, .step step run, halts, ?_, error'.trans error⟩
      rw [items', items, List.map_append, List.append_assoc]
    · exact ⟨[], [], x, .stay x, halts, rfl, rfl⟩

theorem atEnd_of_none (h : x.pragma = none) :
    x.atEnd.items.filterMap Token.lexeme? = [⟨.endOfText, ⟨x.here, x.here⟩, []⟩] ∧
      x.atEnd.error? = none := by
  rw [atEnd, h]
  constructor
  · simp only [Trace.items_itemAll, Trace.items_remarkAll, Trace.items, List.filterMap_append]
    simp [braceItems, Token.lexeme?, List.filterMap_eq_nil_iff]
  · simp only [Trace.error?_itemAll, Trace.error?_remarkAll, Trace.error?]

theorem atEnd_of_some {p : Position} (h : x.pragma = some p) :
    x.atEnd = .failed ⟨.openPragma, p⟩ x := by
  rw [atEnd, h]

/-- Where no lexeme stands, the trace ends. -/
theorem trace_of_failed {c : Char} {r : List Char} {cause : LexCause}
    (front : x.skipBlanks.rest = c :: r)
    (failed : Lexeme.scan x.skipBlanks.site c r = .error cause) :
    x.trace.items = [] ∧ x.trace.error? = some ⟨cause, x.skipBlanks.here⟩ := by
  rw [trace_of_cons front, failed, Trace.items_remarkAll, Trace.error?_remarkAll]
  exact ⟨rfl, rfl⟩

theorem lex_of_failed_run {config : Config} {text : List Char} {f : LexFailure}
    (run : Run (start config text) ls out x) (failed : x.trace.error? = some f) :
    lex config text = .error (f.report config) := by
  rw [lex, Trace.result, (trace_of_run run).2, failed]
  rfl

/-- A lexer that halts without an error has come to the end of its text, with
no pragma open. -/
theorem trace_of_halts (halts : x.Halts) (ok : x.trace.error? = none) :
    x.skipBlanks.rest = [] ∧ x.skipBlanks.pragma = none ∧
      x.trace.items = x.layout.finish.braces.map (fun b => Token.virtual b.1) ++
        [.lexeme ⟨.endOfText, ⟨x.skipBlanks.here, x.skipBlanks.here⟩, []⟩] := by
  obtain front | ⟨c, r, cause, front, scanned⟩ := halts
  · rw [trace_of_nil front, atEnd] at ok ⊢
    split at ok
    · cases ok
    · rename_i closed
      refine ⟨front, closed, ?_⟩
      simp only [Trace.items_itemAll, Trace.items_remarkAll, Trace.items, braceItems,
        List.map_map]
      rfl
  · rw [(trace_of_failed front scanned).2] at ok
    cases ok

end Lexer

theorem lex_iff {config : Config} {text : List Char} {tokens : List Token} :
    lex config text = .ok tokens ↔
      (Lexer.start config text).trace.items = tokens ∧
        (Lexer.start config text).trace.error? = none := by
  rw [lex, Trace.result]
  cases (Lexer.start config text).trace.error? with
  | some e => exact iff_of_false nofun nofun
  | none => exact ⟨fun h => ⟨Except.ok.inj h, rfl⟩, fun h => congrArg Except.ok h.1⟩

open Lexer in
theorem run_of_lex {config : Config} {text : List Char} {tokens : List Token}
    (h : lex config text = .ok tokens) :
    ∃ ls out y, Run (start config text) ls out y ∧
      y.skipBlanks.rest = [] ∧ y.skipBlanks.pragma = none ∧
      tokens = out.map Prod.fst ++ y.layout.finish.braces.map (fun b => Token.virtual b.1) ++
        [.lexeme ⟨.endOfText, ⟨y.skipBlanks.here, y.skipBlanks.here⟩, []⟩] := by
  obtain ⟨ls, out, y, run, halts, items, error⟩ := exists_run (start config text)
  rw [lex, Trace.result, error] at h
  cases ok : y.trace.error? with
  | some e =>
    rw [ok] at h
    cases h
  | none =>
    obtain ⟨front, closed, rest⟩ := trace_of_halts halts ok
    rw [ok] at h
    cases h
    exact ⟨ls, out, y, run, front, closed, by rw [items, rest, List.append_assoc]⟩

end HaskellLexis
