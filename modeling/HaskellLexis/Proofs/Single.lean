import HaskellLexis.Proofs.Progress

/-!
# One lexeme of a text

A lexeme that a lexer delivers stands at one place of the text, and what stands
behind it there is what the scanner has looked at. A text may also be no more
than one lexeme.

* `Lexeme.Stands`, `stands_of_step`: where a lexeme stands;
* `exists_place`: all that is delivered stands somewhere, and a scanner has
  found it there;
* `LexesAs`: a text that is one lexeme;
* `lexesAs_iff`: it is one if the scanner takes all of it.
-/

namespace HaskellLexis

theorem getLast?_behind {c : Char} {s : List Char} (h : s.getLast? = some c) (u : List Char) :
    (u ++ s).getLast? = some c := by
  rw [List.getLast?_append, h, Option.some_or]

/-- The lexeme stands in the text between `before` and `after`. -/
structure Lexeme.Stands (text : List Char) (l : Lexeme) (before after : List Char) : Prop where
  covers : text = before ++ (l.text ++ after)
  span : l.span = ⟨Position.origin.after before, Position.origin.after (before ++ l.text)⟩

/-- Positions only grow, so a lexeme stands at one place. -/
theorem Lexeme.Stands.unique {text b a b' a' : List Char} {l : Lexeme}
    (h : l.Stands text b a) (h' : l.Stands text b' a') : b = b' ∧ a = a' := by
  have grows {u d : List Char} (same : Position.origin.after u = Position.origin.after (u ++ d)) :
      d = [] := by
    by_contra more
    rw [Position.after_append] at same
    exact absurd same (ne_of_lt (Position.lt_after more _))
  have start : Position.origin.after b = Position.origin.after b' :=
    congrArg Span.start (h.span.symm.trans h'.span)
  have whole : b ++ (l.text ++ a) = b' ++ (l.text ++ a') := h.covers.symm.trans h'.covers
  have same : b = b' := by
    obtain ⟨d, rfl, -⟩ | ⟨d, rfl, -⟩ := List.append_eq_append_iff.1 whole
    · rw [grows start, List.append_nil]
    · rw [grows start.symm, List.append_nil]
  subst same
  exact ⟨rfl, List.append_cancel_left (List.append_cancel_left whole)⟩

/-- The text is one lexeme of this kind, from its first character to its last. -/
def LexesAs (config : Config) (text : List Char) (kind : Kind) : Prop :=
  ∃ tokens, lex config text = .ok tokens ∧
    located tokens = [⟨kind, ⟨.origin, Position.origin.after text⟩, text⟩]

namespace Lexer

variable {x y : Lexer} {l : Lexeme} {out : List (Token × Lexer)} {c : Char} {r : List Char}
  {k : Kind} {n : Nat}

/-- What a step takes, with the blanks before it and the text behind it. -/
theorem parts_of_step (h : Step x l out y) :
    ∃ gap c r n, x.rest = gap ++ c :: r ∧ x.skipBlanks.rest = c :: r ∧
      Lexeme.scan x.skipBlanks.site c r = .ok (l.kind, n) ∧ l.text = c :: r.take n ∧
      y.rest = r.drop n ∧ l.span = ⟨x.here.after gap, x.here.after (gap ++ l.text)⟩ := by
  obtain ⟨front, scanned, cut⟩ := h
  rename_i c r k n y
  obtain ⟨rfl, rfl⟩ := Prod.mk.inj cut
  have parts := List.takeWhile_append_dropWhile (p := isBlank) (l := x.rest)
  rw [← rest_skipBlanks, front] at parts
  have text : x.skipBlanks.rest.take (n + 1) = c :: r.take n := by
    rw [front, List.take_succ_cons]
  refine ⟨x.rest.takeWhile isBlank, c, r, n, parts.symm, front, scanned, text, ?_, ?_⟩
  · rw [rest_emit]
    change x.skipBlanks.rest.drop (n + 1) = r.drop n
    rw [front, List.drop_succ_cons]
  · rw [Position.after_append, ← here_skipBlanks]
    rfl

theorem skipBlanks_of_solid (front : x.rest = c :: r) (solid : isBlank c = false) :
    x.skipBlanks = x := by
  have none : runLength isBlank x.rest = 0 := by simp [runLength, front, solid]
  rw [skipBlanks, none, consume_zero]

/-- Outside of pragmas the lexer stays there, unless it opens one. -/
theorem pragmaAfter_of_closed (closed : ∀ p, k ≠ .openPragma p) (outside : x.pragma = none) :
    x.pragmaAfter k = none := by
  unfold pragmaAfter
  split
  · exact absurd rfl (closed _)
  · rfl
  · exact outside

/-- Where the scanner finds a lexeme the lexer takes it, and goes on behind it. -/
theorem step_of_scan (front : x.skipBlanks.rest = c :: r)
    (scanned : Lexeme.scan x.skipBlanks.site c r = .ok (k, n)) :
    ∃ out y, Step x ⟨k, ⟨x.skipBlanks.here, x.skipBlanks.here.after (c :: r.take n)⟩,
        c :: r.take n⟩ out y ∧
      y.rest = r.drop n ∧ y.pragma = x.skipBlanks.pragmaAfter k := by
  have text : x.skipBlanks.rest.take (n + 1) = c :: r.take n := by
    rw [front, List.take_succ_cons]
  let l := (x.skipBlanks.cut k (n + 1)).1
  let y := (x.skipBlanks.cut k (n + 1)).2
  refine ⟨(y.emit l).1, (y.emit l).2, ?_, ?_, pragma_emit y l⟩
  · rw [← text]
    exact .take front scanned rfl
  · rw [rest_emit]
    change x.skipBlanks.rest.drop (n + 1) = r.drop n
    rw [front, List.drop_succ_cons]

end Lexer

open Lexer in
/-- The lexeme that a step takes stands where the run before it has come to,
behind blanks. -/
theorem stands_of_step {config : Config} {text : List Char} {ls : List Lexeme} {x y : Lexer}
    {out more : List (Token × Lexer)} {l : Lexeme} (run : Run (start config text) ls out x)
    (step : Step x l more y) : ∃ before, l.Stands text before y.rest := by
  obtain ⟨tiles, -, -, covers, here⟩ := tiled_of_run run
  obtain ⟨gap, c, r, n, rest, -, -, taken, left, span⟩ := parts_of_step step
  refine ⟨tiles.flatMap Tile.text ++ gap, ?_, ?_⟩
  · calc text = tiles.flatMap Tile.text ++ x.rest := covers
      _ = tiles.flatMap Tile.text ++ (gap ++ (l.text ++ y.rest)) := by
        rw [rest, taken, left, List.cons_append, List.take_append_drop]
      _ = tiles.flatMap Tile.text ++ gap ++ (l.text ++ y.rest) := by rw [List.append_assoc]
  · have origin : x.here = Position.origin.after (tiles.flatMap Tile.text) := here
    rw [span, origin, List.append_assoc, ← Position.after_append, ← Position.after_append]

open Lexer in
/-- Every lexeme that is delivered, to the end of the text or up to where it
fails, stands somewhere, and a scanner has found it there. -/
theorem exists_place {config : Config} {text : List Char} {l : Lexeme}
    (mem : l ∈ located (start config text).trace.items) :
    ∃ before after site c r n, l.Stands text before after ∧ site.on = config.enabled ∧
      Lexeme.Scanned site c r l.kind n ∧ l.text = c :: r.take n ∧ after = r.drop n := by
  obtain ⟨ls, out, x, out', y, run, step⟩ := step_of_located mem
  obtain ⟨before, stands⟩ := stands_of_step run step
  obtain ⟨gap, c, r, n, -, -, scanned, taken, left, -⟩ := parts_of_step step
  rw [left] at stands
  have on : x.skipBlanks.site.on = config.enabled := congrArg Config.enabled (config_of_run run)
  exact ⟨before, r.drop n, x.skipBlanks.site, c, r, n, stands, on,
    Lexeme.scanned_of_scan scanned, taken, rfl⟩

section

variable {config : Config} {text : List Char} {tokens : List Token} {l : Lexeme} {k : Kind}

open Lexer in
/-- Of a text with one lexeme only blanks are left behind it. -/
theorem step_of_single (h : lex config text = .ok tokens) (single : located tokens = [l]) :
    ∃ out y, Step (start config text) l out y ∧ ∀ c ∈ y.rest, isBlank c = true := by
  obtain ⟨ls, out, y, run, used, -, rfl⟩ := run_of_lex h
  rw [located_of_run run] at single
  subst single
  cases run with
  | step step run =>
    cases run with
    | stay =>
      rw [rest_skipBlanks] at used
      exact ⟨_, y, step, List.dropWhile_eq_nil_iff.1 used⟩

/-- A text between solid characters is one lexeme if it has one lexeme only. -/
theorem scan_of_single {c : Char} {r : List Char} {d : Char}
    (h : lex config (c :: r) = .ok tokens) (single : located tokens = [l])
    (first : isBlank c = false) (last : (c :: r).getLast? = some d) (solid : isBlank d = false) :
    Lexeme.scan (Lexer.start config (c :: r)).site c r = .ok (l.kind, r.length) := by
  obtain ⟨out, y, step, blank⟩ := step_of_single h single
  obtain ⟨gap, c', r', n, -, front, scanned, -, rest, -⟩ := Lexer.parts_of_step step
  rw [Lexer.skipBlanks_of_solid rfl first] at front scanned
  cases front
  have inside := Lexeme.scan_le scanned
  have none : r.drop n = [] := by
    by_contra some
    have mem : d ∈ y.rest := by
      cases back : (r.drop n).getLast? with
      | none => exact absurd (List.getLast?_eq_none_iff.1 back) some
      | some e =>
        have whole := getLast?_behind back ((c :: r).take (n + 1))
        rw [← List.drop_succ_cons (a := c), List.take_append_drop, last] at whole
        cases whole
        rw [rest]
        exact List.mem_of_getLast? back
    rw [blank d mem] at solid
    cases solid
  have size : n = r.length := by
    have short := List.drop_eq_nil_iff.1 none
    omega
  rw [size] at scanned
  exact scanned

open Lexer in
/-- A text between solid characters is one lexeme just if the scanner takes all
of it. What opens a pragma is not enough for a text. -/
theorem lexesAs_iff {c d : Char} {r : List Char} (first : isBlank c = false)
    (last : (c :: r).getLast? = some d) (solid : isBlank d = false)
    (closed : ∀ p, k ≠ .openPragma p) :
    LexesAs config (c :: r) k ↔
      Lexeme.scan (start config (c :: r)).site c r = .ok (k, r.length) := by
  constructor
  · rintro ⟨tokens, ok, single⟩
    exact scan_of_single ok single first last solid
  · intro scanned
    have stay := skipBlanks_of_solid (x := start config (c :: r)) rfl first
    rw [← stay] at scanned
    obtain ⟨out, y, step, rest, pragma⟩ := step_of_scan (congrArg rest stay) scanned
    have used : y.skipBlanks.rest = [] := by
      rw [rest_skipBlanks, rest, List.drop_length]
      rfl
    have after : y.skipBlanks.pragma = none := by
      rw [pragma_skipBlanks, pragma, stay]
      exact pragmaAfter_of_closed closed rfl
    obtain ⟨tokens, ok, located⟩ := lex_of_run (run_of_step step) used after
    refine ⟨tokens, ok, ?_⟩
    rw [located, List.take_length, stay]
    rfl

end

end HaskellLexis
