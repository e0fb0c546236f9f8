import HaskellLexis.Highlight
import HaskellLexis.Proofs.Order
import HaskellLexis.Proofs.Run

/-!
# Tabs are reported

A lexer has one way to move, so the tabs that it has seen are those of the text
that it has taken, wherever they stand. It reports them once, right before the
end of the text, and not at all if it fails.

* `Tabs.of`: the tabs of a text, said of the text alone;
* `Lexer.Tallied`: a lexer has seen the tabs of what it has taken;
* `Lexer.tabReports_of_run`, `Lexer.tabReports_of_halts`: nothing is reported
  before the end;
* `tabs_reported`: the reports on a whole text.
-/

namespace HaskellLexis

open Position (upTo)

namespace Tabs

theorem count_seeAll (t : Tabs) (p : Position) (cs : List Char) :
    (t.seeAll p cs).count = t.count + cs.count '\t' := by
  induction cs generalizing t p with
  | nil => rfl
  | cons c cs ih =>
    rw [seeAll, ih, List.count_cons, see]
    by_cases tab : c = '\t'
    · simp only [tab, if_true, beq_self_eq_true]
      omega
    · simp only [tab, if_false, beq_eq_false_iff_ne.2 tab, Bool.false_eq_true, Nat.add_zero]

/-- The first tab of all stays the first. -/
theorem first_seeAll (t : Tabs) (p : Position) (cs : List Char) :
    (t.seeAll p cs).first =
      t.first.or (if '\t' ∈ cs then some (p.after (cs.take (cs.idxOf '\t'))) else none) := by
  induction cs generalizing t p with
  | nil => exact (Option.or_none).symm
  | cons c cs ih =>
    rw [seeAll, ih, see]
    by_cases tab : c = '\t'
    · subst tab
      cases first : t.first with
      | none => simp [Position.after_nil]
      | some q => simp
    · have later : (c :: cs).idxOf '\t' = cs.idxOf '\t' + 1 := by
        rw [List.idxOf_cons, beq_eq_false_iff_ne.2 tab, cond_false]
      simp only [if_neg tab, List.mem_cons, Ne.symm tab, false_or, later, List.take_succ_cons,
        Position.after_cons]

/-- How many tabs a text has, and where the first one stands. -/
def of (text : List Char) : Tabs :=
  ⟨text.count '\t', if '\t' ∈ text then some (upTo text (text.idxOf '\t')) else none⟩

theorem seeAll_empty (text : List Char) : empty.seeAll .origin text = of text := by
  have count := empty.count_seeAll .origin text
  have first := empty.first_seeAll .origin text
  rw [show empty.count = 0 from rfl, Nat.zero_add] at count
  rw [of, ← count, upTo, ← Option.none_or (o := ite _ _ _)]
  exact congrArg (Tabs.mk _) first

end Tabs

def Notice.isTabReport : Notice → Bool
  | tabs _ _ _ => true
  | _ => false

namespace Lexer

variable {text : List Char} {x y : Lexer} {l : Lexeme} {ls : List Lexeme}
  {out : List (Token × Lexer)}

/-! ## What has been seen -/

/-- The lexer has taken part of the text, and has seen the tabs of that part. -/
def Tallied (text : List Char) (x : Lexer) : Prop :=
  ∃ taken, text = taken ++ x.rest ∧ x.here = Position.origin.after taken ∧
    x.tabs = Tabs.empty.seeAll .origin taken

theorem tallied_start (config : Config) (text : List Char) : Tallied text (start config text) :=
  ⟨[], rfl, rfl, rfl⟩

theorem tallied_consume (h : Tallied text x) (n : Nat) : Tallied text (x.consume n) := by
  obtain ⟨taken, covers, here, tabs⟩ := h
  refine ⟨taken ++ x.rest.take n, ?_, ?_, ?_⟩
  · rw [rest_consume, List.append_assoc, List.take_append_drop, covers]
  · rw [Position.after_append, ← here]
    rfl
  · rw [Tabs.seeAll_append, ← tabs, ← here]
    rfl

theorem tallied_skipBlanks (h : Tallied text x) : Tallied text x.skipBlanks :=
  tallied_consume h _

theorem tallied_cut (h : Tallied text x) (k : Kind) (n : Nat) : Tallied text (x.cut k n).2 :=
  tallied_consume h n

theorem tallied_emit (h : Tallied text x) (l : Lexeme) : Tallied text (x.emit l).2 := by
  unfold emit
  split
  · exact h
  · exact h

theorem tallied_of_step (step : Step x l out y) (h : Tallied text x) : Tallied text y := by
  obtain ⟨-, -, cut⟩ := step
  obtain ⟨-, rfl⟩ := Prod.mk.inj cut
  exact tallied_emit (tallied_cut (tallied_skipBlanks h) _ _) _

theorem tallied_of_run (run : Run x ls out y) (h : Tallied text x) : Tallied text y := by
  induction run with
  | stay => exact h
  | step s _ ih => exact ih (tallied_of_step s h)

/-- At the end of the text all its tabs have been seen. -/
theorem tabs_of_spent (h : Tallied text x) (spent : x.rest = []) : x.tabs = .of text := by
  obtain ⟨taken, covers, -, tabs⟩ := h
  rw [spent, List.append_nil] at covers
  rw [tabs, ← covers, Tabs.seeAll_empty]

/-! ## What is reported -/

/-- The reports on tabs in what a lexer remarks. -/
def tabReports (x : Lexer) : List Notice := x.trace.remarks.filter Notice.isTabReport

theorem tabReports_pragmaNotices (x : Lexer) (c : Char) (r : List Char) :
    (x.pragmaNotices c r).filter Notice.isTabReport = [] := by
  unfold pragmaNotices
  split
  · cases Lexeme.unrecognisedPragma? x.config.enabled c r <;> rfl
  · rfl

theorem tabReports_tabNotices (x : Lexer) :
    x.tabNotices.filter Notice.isTabReport = x.tabNotices := by
  unfold tabNotices
  split
  · cases x.tabs.first <;> rfl
  · rfl

theorem tabReports_of_step (h : Step x l out y) : x.tabReports = y.tabReports := by
  obtain ⟨front, scanned, cut⟩ := h
  rw [tabReports, trace_of_cons front, scanned]
  simp only [cut, Trace.remarks_remarkAll, Trace.remarks_itemAll, List.filter_append,
    tabReports_pragmaNotices, List.nil_append, tabReports]

theorem tabReports_of_run (h : Run x ls out y) : x.tabReports = y.tabReports := by
  induction h with
  | stay => rfl
  | step s _ ih => exact (tabReports_of_step s).trans ih

/-- A lexer that halts reports the tabs if this is the end, and nothing if it
fails. -/
theorem tabReports_of_halts (halts : x.Halts) :
    x.tabReports = if x.trace.error? = none then x.skipBlanks.tabNotices else [] := by
  obtain front | ⟨c, r, cause, front, scanned⟩ := halts
  · rw [tabReports, trace_of_nil front, atEnd]
    split
    · rfl
    · simp only [Trace.remarks_itemAll, Trace.remarks_remarkAll, Trace.remarks, List.append_nil,
        Trace.error?_itemAll, Trace.error?_remarkAll, Trace.error?, if_true,
        tabReports_tabNotices]
      rfl
  · rw [tabReports, trace_of_cons front, scanned, Trace.remarks_remarkAll, List.filter_append,
      tabReports_pragmaNotices, Trace.error?_remarkAll]
    rfl

end Lexer

open Lexer in
/-- **Tabs are reported once.** With the warning on, a text that lexes and has a
tab gives one report, which tells how many tabs the text has and where the first
one stands, be it between lexemes or inside of one. No other text gives any. -/
theorem tabs_reported {config : Config} (on : config.warns .tabs = true) (text : List Char) :
    (lexLogged config text).notices.filter Notice.isTabReport =
      if (lex config text).isOk = true ∧ '\t' ∈ text then
        [.tabs config.sourceLabel (upTo text (text.idxOf '\t')) (text.count '\t')]
      else [] := by
  obtain ⟨ls, out, y, run, halts, -, error⟩ := exists_run (start config text)
  have reports := (tabReports_of_run run).trans (tabReports_of_halts halts)
  rw [← error] at reports
  change (start config text).tabReports = _
  cases lexed : lex config text with
  | error e =>
    have fails : (start config text).trace.error? ≠ none := by
      intro ok
      cases lexed.symm.trans (lex_iff.2 ⟨rfl, ok⟩)
    rw [reports, if_neg fails]
    rfl
  | ok tokens =>
    have ok := (lex_iff.1 lexed).2
    have used := (trace_of_halts halts (error.symm.trans ok)).1
    have tallied := tallied_of_run run (tallied_start config text)
    have tabs := tabs_of_spent (tallied_skipBlanks tallied) used
    have same : y.skipBlanks.config = config := config_of_run run
    rw [reports, if_pos ok, tabNotices, same, if_pos on, tabs, Tabs.of]
    by_cases tab : '\t' ∈ text
    · simp only [tab, if_true, Except.isOk, Except.toBool, and_self]
      rfl
    · simp only [tab, if_false, and_false]
      rfl

/-- The first tab stands in a comment, the second one ends a blank, and the third
one is the gap of a string. Without its last quote the text does not lex, and
then nothing is reported. -/
theorem tabs_reported_inside :
    let config : Config := { Config.permissive with warns := fun _ => true }
    let text := ['{', '-', '\n', '\t', '-', '}', '\t', '"', '\\', '\t', '\\', '"']
    config.warns .tabs = true ∧
      (lexLogged config text).notices.filter Notice.isTabReport = [.tabs "<source>" ⟨2, 1⟩ 3] ∧
      (lexLogged config text.dropLast).notices.filter Notice.isTabReport = [] := by
  intro config text
  have on : config.warns .tabs = true := rfl
  have reported := tabs_reported on
  refine ⟨on, (reported text).trans ?_, (reported text.dropLast).trans ?_⟩
  · decide +kernel
  · decide +kernel

end HaskellLexis
