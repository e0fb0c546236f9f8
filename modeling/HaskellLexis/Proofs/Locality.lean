import HaskellLexis.Proofs.Progress
import HaskellLexis.Proofs.Trigger

/-!
# Extensions are local

A lexer under another configuration goes the same way as long as the two agree
on what stands before it.

* `Lexer.under`: the same lexer under another configuration;
* `Lexer.Indifferent`: what lies before the lexer does not tell the two apart;
* `step_under`, `run_under`, `trace_under`: it delivers the same and fails in
  the same way;
* `lex_local`: an extension whose trigger a text lacks.
-/

namespace HaskellLexis

namespace Lexer

variable {x y : Lexer} {l : Lexeme} {ls : List Lexeme} {out : List (Token × Lexer)}
  {config : Config}

def under (x : Lexer) (config : Config) : Lexer := { x with config }

/-- The extensions of the other configuration are the same for all that stands
before the lexer. -/
structure Indifferent (x : Lexer) (config : Config) : Prop where
  agree : Agree x.config.enabled config.enabled x.rest
  documented : config.enabled .haddock = x.config.enabled .haddock ∨ '-' ∉ x.rest

theorem Indifferent.suffix (h : x.Indifferent config) (same : y.config = x.config)
    (behind : y.rest <:+ x.rest) : y.Indifferent config where
  agree := by
    rw [same]
    exact h.agree.mono behind.subset
  documented := by
    rw [same]
    exact h.documented.imp_right fun none dash => none (behind.subset dash)

theorem Indifferent.scan (h : x.Indifferent config) {c : Char} {r : List Char}
    (front : x.rest = c :: r) :
    Lexeme.scan (x.under config).site c r = Lexeme.scan x.site c r := by
  have agree := h.agree
  have documented := h.documented
  rw [front] at agree documented
  exact Lexeme.scan_documented ⟨agree, rfl, rfl⟩ documented

/-- Braces do not depend on the configuration. -/
theorem emit_under (x : Lexer) (l : Lexeme) (config : Config) :
    ((x.under config).emit l).1.map Prod.fst = (x.emit l).1.map Prod.fst ∧
      ((x.under config).emit l).2 = (x.emit l).2.under config := by
  unfold emit
  split <;> rename_i sees
  · rw [if_pos (show x.seesLayout l.kind = true from sees)]
    simp only [List.map_append, map_braceItems]
    exact ⟨rfl, rfl⟩
  · rw [if_neg (show ¬x.seesLayout l.kind = true from sees)]
    exact ⟨rfl, rfl⟩

/-- Where the same lexeme is found, the step is the same. -/
theorem take_under {c : Char} {r : List Char} {k : Kind} {n : Nat} (config : Config)
    (front : x.skipBlanks.rest = c :: r)
    (scanned : Lexeme.scan (x.skipBlanks.under config).site c r = .ok (k, n))
    (cut : x.skipBlanks.cut k (n + 1) = (l, y)) :
    ∃ out', Step (x.under config) l out' ((y.emit l).2.under config) ∧
      out'.map Prod.fst = (y.emit l).1.map Prod.fst := by
  obtain ⟨delivered, behind⟩ := emit_under y l config
  have cut' : (x.under config).skipBlanks.cut k (n + 1) = (l, y.under config) :=
    congrArg (fun p => (p.1, p.2.under config)) cut
  have taken := Step.take (x := x.under config) front scanned cut'
  rw [behind] at taken
  exact ⟨_, taken, delivered⟩

theorem step_under (step : Step x l out y) (h : x.Indifferent config) :
    y.Indifferent config ∧
      ∃ out', Step (x.under config) l out' (y.under config) ∧
        out'.map Prod.fst = out.map Prod.fst := by
  refine ⟨h.suffix (config_of_step step) (suffix_of_step step), ?_⟩
  obtain ⟨front, scanned, cut⟩ := step
  have skip : x.skipBlanks.Indifferent config := h.suffix rfl x.skipBlanks_suffix
  exact take_under config front ((skip.scan front).trans scanned) cut

theorem run_under (run : Run x ls out y) (h : x.Indifferent config) :
    y.Indifferent config ∧
      ∃ out', Run (x.under config) ls out' (y.under config) ∧
        out'.map Prod.fst = out.map Prod.fst := by
  induction run with
  | stay x => exact ⟨h, [], .stay _, rfl⟩
  | step s _ ih =>
    obtain ⟨next, out₁, step, delivered⟩ := step_under s h
    obtain ⟨last, out₂, run, more⟩ := ih next
    refine ⟨last, out₁ ++ out₂, .step step run, ?_⟩
    rw [List.map_append, List.map_append, delivered, more]

theorem atEnd_under (x : Lexer) (config : Config) :
    (x.under config).atEnd.items = x.atEnd.items ∧
      (x.under config).atEnd.error? = x.atEnd.error? := by
  unfold atEnd
  cases opened : x.pragma with
  | none =>
    rw [show (x.under config).pragma = none from opened]
    simp only [Trace.items_itemAll, Trace.error?_itemAll, Trace.items_remarkAll,
      Trace.error?_remarkAll, map_braceItems]
    exact ⟨rfl, rfl⟩
  | some p =>
    rw [show (x.under config).pragma = some p from opened]
    exact ⟨rfl, rfl⟩

/-- A lexer that halts ends in the same way where nothing else is refused. -/
theorem halts_under (halts : x.Halts)
    (refused : ∀ c r cause, x.skipBlanks.rest = c :: r →
      Lexeme.scan x.skipBlanks.site c r = .error cause →
        Lexeme.scan (x.skipBlanks.under config).site c r = .error cause) :
    (x.under config).trace.items = x.trace.items ∧
      (x.under config).trace.error? = x.trace.error? := by
  obtain front | ⟨c, r, cause, front, scanned⟩ := halts
  · rw [trace_of_nil front, trace_of_nil (show (x.under config).skipBlanks.rest = [] from front)]
    exact atEnd_under x.skipBlanks config
  · obtain ⟨nothing, error⟩ := trace_of_failed front scanned
    have front' : (x.under config).skipBlanks.rest = c :: r := front
    obtain ⟨nothing', error'⟩ := trace_of_failed front' (refused c r cause front scanned)
    exact ⟨nothing'.trans nothing.symm, error'.trans error.symm⟩

theorem trace_under (h : x.Indifferent config) :
    (x.under config).trace.items = x.trace.items ∧
      (x.under config).trace.error? = x.trace.error? := by
  obtain ⟨ls, out, y, run, halts, items, error⟩ := exists_run x
  obtain ⟨last, out', run', delivered⟩ := run_under run h
  obtain ⟨items', error'⟩ := items_of_run run'
  have skip : y.skipBlanks.Indifferent config := last.suffix rfl y.skipBlanks_suffix
  obtain ⟨rest, failure⟩ := halts_under halts fun c r cause front scanned =>
    (skip.scan front).trans scanned
  rw [items, items', delivered, rest, error, error', failure]
  exact ⟨rfl, rfl⟩

end Lexer

theorem LexFailure.report_congr {config config' : Config}
    (name : config'.sourceName = config.sourceName) : report config' = report config := by
  funext f
  simp only [report, LexStop.ofCause, LexError.ofCause, Config.source?, name]

/-- Configurations that agree on a text lex it alike. -/
theorem lex_agree {config config' : Config} {text : List Char}
    (agree : Agree config.enabled config'.enabled text)
    (documented : config'.enabled .haddock = config.enabled .haddock ∨ '-' ∉ text)
    (name : config'.sourceName = config.sourceName) : lex config' text = lex config text := by
  have same : (Lexer.start config text).Indifferent config' := ⟨agree, documented⟩
  obtain ⟨items, error⟩ := Lexer.trace_under same
  change (Lexer.start config' text).trace.items = _ at items
  change (Lexer.start config' text).trace.error? = _ at error
  rw [lex, lex, Trace.result, Trace.result, items, error, LexFailure.report_congr name]

/-- **Extensions are local.** Two configurations that differ only in whether one
extension is on give the same tokens, or the same error, for every text that
lacks what triggers the extension. -/
theorem lex_local {config config' : Config} {e : Extension} {t : Trigger} {text : List Char}
    (others : ∀ e', e' ≠ e → config'.enabled e' = config.enabled e')
    (name : config'.sourceName = config.sourceName) (trigger : e.trigger? = some t)
    (lacks : ∀ c ∈ text, t.meets c = false) : lex config' text = lex config text := by
  have silent : e.silent text = true := by
    simp only [Extension.silent, trigger, Option.any_some, Bool.not_eq_true', List.any_eq_false]
    intro c hc
    rw [lacks c hc]
    exact Bool.false_ne_true
  apply lex_agree _ _ name
  · intro e' _
    by_cases same : e' = e
    · exact .inr (same ▸ silent)
    · exact .inl (others e' same)
  · by_cases same : Extension.haddock = e
    · subst same
      cases trigger
      right
      intro dash
      have meets := lacks '-' dash
      cases meets
    · exact .inl (others .haddock same)

/-- A hash that begins a label, and a splice, in a text without the at sign
that type applications look for. -/
theorem lex_local_labels :
    let config' := Config.permissive.without [.typeApplications]
    let text := ['f', ' ', '$', 'x', ' ', '#', 'y']
    let word (k : Kind) (start stop : Int) (text : List Char) : Token :=
      .lexeme ⟨k, ⟨⟨1, start⟩, ⟨1, stop⟩⟩, text⟩
    let tokens := [word (.name .varid) 1 2 ['f'], word (.quotation .spliceName) 3 5 ['$', 'x'],
      word (.name .label) 6 8 ['#', 'y'], .lexeme (Lexeme.atEnd text)]
    (∀ e', e' ≠ .typeApplications → config'.enabled e' = Config.permissive.enabled e') ∧
      (∀ c ∈ text, (Trigger.anyOf ['@']).meets c = false) ∧
      lex .permissive text = .ok tokens ∧ lex config' text = lex .permissive text := by
  intro config' text word tokens
  have others : ∀ e', e' ≠ .typeApplications →
      config'.enabled e' = Config.permissive.enabled e' := by
    intro e' ne
    simp [config', Config.without, ne]
  have lacks : ∀ c ∈ text, (Trigger.anyOf ['@']).meets c = false := by
    simp [text, Trigger.meets]
  exact ⟨others, lacks, by decide +kernel,
    lex_local (e := .typeApplications) others rfl rfl lacks⟩

end HaskellLexis
