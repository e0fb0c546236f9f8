import HaskellLexis.Proofs.Locality

/-!
# Documentation regroups comments

Who takes documentation sees one comment where others see several, for a
comment of documentation takes the plain ones below it along. Nothing else of
a text looks different.

* `Spans`, `Regroups`: a comment over a row of comments, and streams of tokens
  that differ in no more;
* `Lexeme.Recast`: the same lexeme, or two comments of one length;
* `run_continuation`: the comments that documentation takes along, one by one;
* `step_plain`, `run_plain`: a step with documentation is a run without;
* `documentation_regroups`: whole texts.
-/

namespace HaskellLexis

/-- The lexeme reaches from the start of a first comment to the end of a last. -/
structure Spans (l : Lexeme) (group : List Lexeme) : Prop where
  comments : ∀ m ∈ group, m.kind.isComment = true
  start : group.head?.map (·.span.start) = some l.span.start
  stop : group.getLast?.map (·.span.stop) = some l.span.stop

/-- The second stream has a row of comments in the place of each comment of the
first, and is the same in all else. -/
inductive Regroups : List Token → List Token → Prop where
  | nil : Regroups [] []
  | keep {t : Token} {ts us : List Token} (solid : t.kind.isComment = false) :
      Regroups ts us → Regroups (t :: ts) (t :: us)
  | group {l : Lexeme} {ls : List Lexeme} {ts us : List Token}
      (comment : l.kind.isComment = true) (spans : Spans l ls) :
      Regroups ts us → Regroups (.lexeme l :: ts) (ls.map .lexeme ++ us)

namespace Regroups

variable {ts us ts' us' : List Token}

theorem append (h : Regroups ts us) (h' : Regroups ts' us') : Regroups (ts ++ ts') (us ++ us') := by
  induction h with
  | nil => exact h'
  | keep solid _ ih => exact .keep solid ih
  | group comment spans _ ih =>
    rw [List.append_assoc]
    exact .group comment spans ih

theorem alone {l m : Lexeme} (comment : l.kind.isComment = true)
    (comment' : m.kind.isComment = true) (same : m.span = l.span) :
    Regroups [.lexeme l] [.lexeme m] := by
  have spans : Spans l [m] := by
    refine ⟨?_, ?_, ?_⟩
    · intro n hn
      rwa [List.mem_singleton.1 hn]
    · exact congrArg (fun s => some s.start) same
    · exact congrArg (fun s => some s.stop) same
  exact .group comment spans .nil

theorem refl (ts : List Token) : Regroups ts ts := by
  induction ts with
  | nil => exact .nil
  | cons t ts ih =>
    cases comment : t.kind.isComment with
    | false => exact .keep comment ih
    | true =>
      cases t with
      | lexeme l => exact (alone comment comment rfl).append ih
      | virtual b => cases b <;> cases comment

/-- Without comments the streams are the same. -/
theorem solid (h : Regroups ts us) :
    ts.filter (!·.kind.isComment) = us.filter (!·.kind.isComment) := by
  induction h with
  | nil => rfl
  | keep solid _ ih => rw [List.filter_cons, List.filter_cons, ih]
  | @group l ls ts us comment spans _ ih =>
    have none : (ls.map Token.lexeme).filter (!·.kind.isComment) = [] := by
      rw [List.filter_eq_nil_iff]
      intro t ht
      obtain ⟨m, hm, rfl⟩ := List.mem_map.1 ht
      simp [Token.kind, spans.comments m hm]
    rw [List.filter_append, none, List.filter_cons_of_neg (by simp [Token.kind, comment]), ih]
    rfl

end Regroups

/-! ## One lexeme -/

namespace Comment

/-- Before a comment that documentation takes along there are no other blanks
than the documentation looks for. -/
theorem blanks_of_starts {r : List Char}
    (starts : startsLineComment (r.drop (runLength isInlineBlank r)) = true) :
    runLength isBlank ('\n' :: r) = 1 + runLength isInlineBlank r := by
  have split := List.takeWhile_append_dropWhile (p := isInlineBlank) (l := r)
  rw [drop_runLength] at starts
  have blank : ∀ d ∈ r.takeWhile isInlineBlank, isBlank d = true := by
    intro d hd
    have inline := List.mem_takeWhile_imp hd
    simp only [isInlineBlank, Bool.or_eq_true, decide_eq_true_eq] at inline
    obtain rfl | rfl := inline <;> decide
  have stop : (r.dropWhile isInlineBlank).takeWhile isBlank = [] := by
    cases body : r.dropWhile isInlineBlank with
    | nil => rfl
    | cons d s =>
      rw [body] at starts
      have dash : isBlank d = false := dash_of_startsLineComment starts ▸ by decide
      rw [List.takeWhile_cons_of_neg (by simp [dash])]
  have whole : r.takeWhile isBlank = r.takeWhile isInlineBlank := by
    conv => lhs; rw [← split]
    rw [List.takeWhile_append_of_pos blank, stop, List.append_nil]
  rw [runLength, List.takeWhile_cons_of_pos (by decide), whole, List.length_cons, Nat.add_comm]
  rfl

theorem lineLength_of_starts {c : Char} {r : List Char}
    (starts : startsLineComment (c :: r) = true) : lineLength (c :: r) = lineLength r + 1 := by
  have inside : c ≠ '\n' := dash_of_startsLineComment starts ▸ by decide
  rw [lineLength, runLength, List.takeWhile_cons_of_pos (by simpa using inside), List.length_cons]
  rfl

theorem lineDocumentation?_off {on : Extensions} (off : on .haddock = false) (r : List Char) :
    lineDocumentation? on r = none := by
  have none (s : List Char) : documentation? on s = none := by
    rw [documentation?, off]
    rfl
  unfold lineDocumentation?
  split
  · rfl
  · exact none _
  · rfl

end Comment

namespace Lexeme

/-- The same answer, or two comments of one length. -/
def Recast (x y : Except LexCause (Kind × Nat)) : Prop :=
  x = y ∨ ∃ k k' n, x = .ok (.comment k, n) ∧ y = .ok (.comment k', n)

variable {on on' : Extensions} {site site' : Site} {c : Char} {r s : List Char}

theorem scanBlock_recast (on on' : Extensions) (r : List Char) :
    Recast ((Comment.scanBlock on r).map fun (kind, n) => (.comment kind, n))
      ((Comment.scanBlock on' r).map fun (kind, n) => (.comment kind, n)) := by
  unfold Comment.scanBlock
  cases Comment.closeLength? 0 r.tail with
  | none => exact .inl rfl
  | some n => exact .inr ⟨_, _, _, rfl, rfl⟩

theorem scanWhole_recast (k k' : Comment) (s : List Char) :
    Recast (Pragma.scanWhole (.comment k) s) (Pragma.scanWhole (.comment k') s) := by
  unfold Pragma.scanWhole
  cases offsetOf? closePragmaMark s with
  | none => exact .inl rfl
  | some n => exact .inr ⟨_, _, _, rfl, rfl⟩

theorem whole?_recast (on on' : Extensions) (w : List Char) :
    Pragma.whole? on w = Pragma.whole? on' w ∨ ∃ k k',
      Pragma.whole? on w = some (.comment k) ∧ Pragma.whole? on' w = some (.comment k') := by
  unfold Pragma.whole?
  split
  · exact .inl rfl
  · split
    · exact .inl rfl
    · split
      · exact .inr ⟨_, _, rfl, rfl⟩
      · exact .inl rfl

/-- Whether a pragma is one for documentation its first word decides. -/
theorem scanPragma_recast (on on' : Extensions) (s : List Char) :
    Recast (Pragma.scan on s) (Pragma.scan on' s) := by
  obtain same | ⟨k, k', found, found'⟩ := whole?_recast on on' (upperCase (Pragma.word s).1)
  · left
    unfold Pragma.scan Pragma.shape
    simp only [same]
  · unfold Pragma.scan Pragma.shape
    simp only [found, found']
    exact scanWhole_recast k k' s

theorem scanBraceDash_recast (on on' : Extensions) (r : List Char) :
    Recast (scanBraceDash on r) (scanBraceDash on' r) := by
  unfold scanBraceDash
  split
  · exact scanPragma_recast on on' _
  · exact scanBlock_recast on on' _

/-- Every lexeme but a line comment. -/
theorem scan_recast (h : site.Agrees site' (c :: r))
    (noComment : Comment.startsLineComment (c :: r) = false) :
    Recast (scan site c r) (scan site' c r) := by
  by_cases opens : c = '{' ∧ r.head? = some '-'
  · have brace : (decide (c = '{') && decide (r.head? = some '-')) = true := by simpa using opens
    unfold scan
    rw [if_pos brace, if_pos brace]
    exact scanBraceDash_recast site.on site'.on r
  · exact .inl (scan_agree h opens noComment).symm

/-- Who takes no documentation takes a line comment alone. -/
theorem scan_line_plain (off : site.on .haddock = false)
    (starts : Comment.startsLineComment (c :: r) = true) :
    scan site c r = .ok (.comment .line, Comment.lineLength r) := by
  rw [scan_of_scanned (.lineComment starts), Comment.scanLine, Comment.lineDocumentation?_off off]
  rfl

end Lexeme

/-! ## Runs -/

namespace Lexer

variable {x y z : Lexer} {l : Lexeme} {ls : List Lexeme} {out : List (Token × Lexer)}
  {c : Char} {r : List Char} {k : Comment} {n : Nat}

/-- The same lexer, but it takes no documentation. -/
def plain (x : Lexer) : Lexer := x.under (x.config.without [.haddock])

theorem off_plain (x : Lexer) : x.plain.config.enabled .haddock = false := by
  simp [plain, under, Config.without]

theorem plain_agrees (x : Lexer) (s : List Char) : x.site.Agrees x.plain.site s := by
  refine ⟨?_, rfl, rfl⟩
  intro e noDoc
  left
  simp [site, plain, under, Config.without, noDoc]

theorem plain_of_config (h : y.config = x.config) :
    y.plain = y.under (x.config.without [.haddock]) := by
  rw [plain, h]

/-- A comment is delivered alone, and only the place changes. -/
theorem step_comment (front : x.skipBlanks.rest = c :: r)
    (scanned : Lexeme.scan x.skipBlanks.site c r = .ok (.comment k, n)) :
    Step x (x.skipBlanks.cut (.comment k) (n + 1)).1
      [(.lexeme (x.skipBlanks.cut (.comment k) (n + 1)).1, x.skipBlanks.consume (n + 1))]
      (x.skipBlanks.consume (n + 1)) :=
  .take front scanned rfl

/-- A row of comments leads from one lexer to another. -/
structure Comments (x : Lexer) (ls : List Lexeme) (y : Lexer) : Prop where
  run : ∃ out, Run x ls out y ∧ out.map Prod.fst = ls.map .lexeme
  comments : ∀ m ∈ ls, m.kind.isComment = true
  stop : (ls.getLast?.map (·.span.stop)).getD x.here = y.here

theorem Comments.none (x : Lexer) : Comments x [] x :=
  ⟨⟨[], .stay x, rfl⟩, fun _ hm => (List.not_mem_nil hm).elim, rfl⟩

theorem Comments.step (front : x.skipBlanks.rest = c :: r)
    (scanned : Lexeme.scan x.skipBlanks.site c r = .ok (.comment k, n))
    (more : Comments (x.skipBlanks.consume (n + 1)) ls y) :
    Comments x ((x.skipBlanks.cut (.comment k) (n + 1)).1 :: ls) y := by
  obtain ⟨⟨out, run, delivered⟩, comments, stop⟩ := more
  refine ⟨⟨_, .step (step_comment front scanned) run, ?_⟩, ?_, ?_⟩
  · rw [List.map_append, delivered]
    rfl
  · intro m hm
    obtain rfl | hm := List.mem_cons.1 hm
    · rfl
    · exact comments m hm
  · rw [← stop, List.getLast?_cons]
    cases ls.getLast? <;> rfl

/-- One comment in the place of such a row. -/
theorem Comments.regroups {m : Lexeme} (h : Comments x (m :: ls) y)
    (comment : l.kind.isComment = true) (span : l.span = ⟨m.span.start, y.here⟩) :
    Regroups [.lexeme l] ((m :: ls).map .lexeme) := by
  have spans : Spans l (m :: ls) := by
    refine ⟨h.comments, ?_, ?_⟩
    · rw [span]
      rfl
    · have stop := h.stop
      rw [List.getLast?_cons] at stop ⊢
      rw [span]
      exact congrArg some stop
  have row := Regroups.group comment spans .nil
  rwa [List.append_nil] at row

/-- The comments that documentation takes along are there without it too, one
for each line. -/
theorem run_continuation (on : Extensions) (s : List Char) :
    ∀ x : Lexer, x.rest = s → x.config.enabled .haddock = false →
      ∃ ls, Comments x ls (x.consume (Comment.continuationLength on s)) := by
  fun_induction Comment.continuationLength on s with
  | case1 r blanks body plain n ih =>
    intro x rest off
    obtain ⟨starts, -⟩ := Bool.and_eq_true_iff.1 plain
    obtain ⟨c, t, first⟩ : ∃ c t, body = c :: t := List.exists_cons_of_ne_nil (by
      intro none
      rw [none] at starts
      cases starts)
    have skip : x.skipBlanks = x.consume (1 + blanks) := by
      rw [skipBlanks, rest, Comment.blanks_of_starts starts]
    have front : x.skipBlanks.rest = body := by
      rw [skip, rest_consume, rest, Nat.add_comm]
      rfl
    rw [first] at starts
    have length : n = Comment.lineLength t + 1 := by
      change Comment.lineLength body = _
      rw [first, Comment.lineLength_of_starts starts]
    have behind : x.skipBlanks.consume (Comment.lineLength t + 1) = x.consume (1 + blanks + n) := by
      rw [skip, ← length, ← consume_add]
    obtain ⟨ls, more⟩ := ih (x.consume (1 + blanks + n))
      (by rw [← behind, rest_consume, front, length]) off
    rw [← consume_add, ← behind] at more
    exact ⟨_, .step (front.trans first) (Lexeme.scan_line_plain off starts) more⟩
  | case2 r blanks body other =>
    intro x _ _
    rw [consume_zero]
    exact ⟨[], .none x⟩
  | case3 s other =>
    intro x _ _
    rw [consume_zero]
    exact ⟨[], .none x⟩

/-- A line comment is a row of line comments without documentation. -/
theorem comments_of_line (front : x.skipBlanks.rest = c :: r)
    (starts : Comment.startsLineComment (c :: r) = true) :
    ∃ ls, Comments x.plain
      ((x.plain.skipBlanks.cut (.comment .line) (Comment.lineLength r + 1)).1 :: ls)
      (x.plain.skipBlanks.consume ((Comment.scanLine x.config.enabled r).2 + 1)) := by
  have first : Lexeme.scan x.plain.skipBlanks.site c r =
      .ok (.comment .line, Comment.lineLength r) := Lexeme.scan_line_plain (off_plain x) starts
  have below : ∃ ls, Comments (x.plain.skipBlanks.consume (Comment.lineLength r + 1)) ls
      (x.plain.skipBlanks.consume ((Comment.scanLine x.config.enabled r).2 + 1)) := by
    rw [Comment.scanLine_length]
    split
    · obtain ⟨ls, more⟩ := run_continuation x.config.enabled (r.drop (Comment.lineLength r))
        (x.plain.skipBlanks.consume (Comment.lineLength r + 1))
        (by rw [rest_consume, show x.plain.skipBlanks.rest = c :: r from front]; rfl) (off_plain x)
      rw [← consume_add, Nat.add_right_comm] at more
      exact ⟨ls, more⟩
    · exact ⟨[], .none _⟩
  obtain ⟨ls, more⟩ := below
  exact ⟨ls, .step front first more⟩

/-- A step with documentation is a run without. -/
theorem step_plain (step : Step x l out y) :
    ∃ ls out', Run x.plain ls out' y.plain ∧ Regroups (out.map Prod.fst) (out'.map Prod.fst) := by
  have config := config_of_step step
  obtain ⟨front, scanned, cut⟩ := step
  rename_i c r k n y
  cases starts : Comment.startsLineComment (c :: r) with
  | false =>
    obtain same | ⟨k, k', n, ok, ok'⟩ :=
      Lexeme.scan_recast (x.skipBlanks.plain_agrees (c :: r)) starts
    · obtain ⟨out', taken, delivered⟩ :=
        take_under (x.config.without [.haddock]) front (same.symm.trans scanned) cut
      rw [← plain_of_config config] at taken
      refine ⟨_, out', run_of_step taken, ?_⟩
      rw [delivered]
      exact .refl _
    · cases ok.symm.trans scanned
      cases cut
      exact ⟨_, _, run_of_step (step_comment (x := x.plain) front ok'), .alone rfl rfl rfl⟩
  | true =>
    cases (Lexeme.scan_of_scanned (.lineComment starts)).symm.trans scanned
    cases cut
    obtain ⟨ls, row⟩ := comments_of_line front starts
    obtain ⟨out', run, delivered⟩ := row.run
    refine ⟨_, out', run, ?_⟩
    rw [delivered]
    exact row.regroups rfl rfl

theorem run_plain (run : Run x ls out y) :
    ∃ ls' out', Run x.plain ls' out' y.plain ∧ Regroups (out.map Prod.fst) (out'.map Prod.fst) := by
  induction run with
  | stay x => exact ⟨[], [], .stay _, .nil⟩
  | step s _ ih =>
    obtain ⟨ls₁, out₁, run₁, first⟩ := step_plain s
    obtain ⟨ls₂, out₂, run₂, more⟩ := ih
    refine ⟨ls₁ ++ ls₂, out₁ ++ out₂, run₁.trans run₂, ?_⟩
    rw [List.map_append, List.map_append]
    exact first.append more

/-- What is refused is refused without documentation too. -/
theorem halts_plain (halts : x.Halts) :
    x.plain.trace.items = x.trace.items ∧ x.plain.trace.error? = x.trace.error? := by
  apply halts_under halts
  intro c r cause _ scanned
  cases starts : Comment.startsLineComment (c :: r) with
  | false =>
    obtain same | ⟨k, k', n, ok, -⟩ :=
      Lexeme.scan_recast (x.skipBlanks.plain_agrees (c :: r)) starts
    · exact same.symm.trans scanned
    · cases ok.symm.trans scanned
  | true => cases (Lexeme.scan_of_scanned (.lineComment starts)).symm.trans scanned

theorem trace_plain (x : Lexer) :
    Regroups x.trace.items x.plain.trace.items ∧ x.plain.trace.error? = x.trace.error? := by
  obtain ⟨ls, out, y, run, halts, items, error⟩ := exists_run x
  obtain ⟨ls', out', run', regroups⟩ := run_plain run
  obtain ⟨items', error'⟩ := items_of_run run'
  obtain ⟨rest, failure⟩ := halts_plain halts
  rw [items, items', error, error', rest, failure]
  exact ⟨regroups.append (.refl _), rfl⟩

end Lexer

/-- **Documentation only regroups comments.** With and without it a text fails
with the same error, or both times it lexes, and the streams are the same but
for comments: each comment that documentation sees lies over a row of those
that there are without it. -/
theorem documentation_regroups (config : Config) (text : List Char) :
    (∃ e, lex config text = .error e ∧ lex (config.without [.haddock]) text = .error e) ∨
      ∃ tokens plain, lex config text = .ok tokens ∧
        lex (config.without [.haddock]) text = .ok plain ∧
        tokens.filter (!·.kind.isComment) = plain.filter (!·.kind.isComment) ∧
        Regroups tokens plain := by
  obtain ⟨regroups, error⟩ := Lexer.trace_plain (Lexer.start config text)
  change Regroups _ (Lexer.start (config.without [.haddock]) text).trace.items at regroups
  change (Lexer.start (config.without [.haddock]) text).trace.error? = _ at error
  have report : LexFailure.report (config.without [.haddock]) = LexFailure.report config :=
    LexFailure.report_congr rfl
  rw [lex, lex, Trace.result, Trace.result, error, report]
  cases (Lexer.start config text).trace.error? with
  | some f => exact .inl ⟨f.report config, rfl, rfl⟩
  | none => exact .inr ⟨_, _, rfl, rfl, regroups.solid, regroups⟩

/-- The second line belongs to the documentation that the first one begins. -/
example :
    let text := ['-', '-', ' ', '|', '\n', '-', '-', '\n', 'x']
    let kinds (config : Config) := (lex config text).toOption.map fun ts => ts.map Token.kind
    kinds .permissive = some [.comment .docNext, .name .varid, .endOfText] ∧
      kinds (Config.permissive.without [.haddock]) =
        some [.comment .line, .comment .line, .name .varid, .endOfText] := by
  decide +kernel

end HaskellLexis
