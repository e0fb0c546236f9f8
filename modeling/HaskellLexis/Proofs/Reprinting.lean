import HaskellLexis.Proofs.Alone
import HaskellLexis.Proofs.Tiling

/-!
# Lexemes printed one by one

The lexemes of a text may be written down again with a blank line between
them. Each is then found by itself, so that the new text has the same lexemes,
though they stand elsewhere.

* `printed`: the new text;
* `step_printed`, `run_printed`: the lexer takes one lexeme of it after the
  other, in and outside pragmas as before;
* `lex_printed`: a whole text.
-/

namespace HaskellLexis

/-- The lexemes with a blank line between neighbours. -/
def printed (ls : List Lexeme) : List Char := ['\n', '\n'].intercalate (ls.map Lexeme.text)

theorem printed_cons (l : Lexeme) (ls : List Lexeme) :
    ∃ tail, printed (l :: ls) = l.text ++ tail ∧
      (ls = [] ∧ tail = [] ∨ tail = '\n' :: '\n' :: printed ls) := by
  cases ls with
  | nil => exact ⟨[], by simp [printed], .inl ⟨rfl, rfl⟩⟩
  | cons l' ls =>
    refine ⟨_, ?_, .inr rfl⟩
    simp only [printed, List.map_cons, List.intercalate_cons_cons, List.append_assoc]
    rfl

/-- A blank line ends documentation. -/
theorem Comment.continuationLength_blank (on : Extensions) (t : List Char) :
    continuationLength on ('\n' :: '\n' :: t) = 0 := by
  have blanks : runLength isInlineBlank ('\n' :: t) = 0 := by simp [runLength, isInlineBlank]
  rw [continuationLength_cons]
  simp only [blanks, List.drop_zero, isPlain, startsLineComment_of_ne (c := '\n') (by decide)]
  rfl

/-- A lexeme is found before a blank line, and at the end of the text. -/
theorem Lexeme.scan_before {site site' : Site} {c : Char} {r tail : List Char} {k : Kind} {n : Nat}
    (alike : site.Alike site') (loose : site'.isLoose = true) (regular : Name.Regular (c :: r))
    (h : scan site c r = .ok (k, n)) (ends : tail = [] ∨ ∃ t, tail = '\n' :: '\n' :: t) :
    scan site' c (r.take n ++ tail) = .ok (k.alone, n) := by
  have found := scan_take alike loose regular h
  obtain rfl | ⟨t, rfl⟩ := ends
  · rw [List.append_nil]
    exact found
  · apply scan_line found
    intro _ _
    rw [List.drop_of_length_le (List.length_take_le n r), List.nil_append]
    exact Comment.continuationLength_blank _ t

namespace Lexer

variable {x y x' : Lexer} {l : Lexeme} {ls : List Lexeme} {out : List (Token × Lexer)}

/-- The second lexer has the same extensions and is inside a pragma when the
first one is. -/
structure Follows (x x' : Lexer) : Prop where
  config : x'.config = x.config
  pragma : x'.pragma.isSome = x.pragma.isSome

theorem Follows.alike (h : Follows x x') : x.skipBlanks.site.Alike x'.skipBlanks.site where
  on := congrArg Config.enabled h.config
  inPragma := h.pragma

theorem isLoose_congr (h : y.before = x.before) : y.site.isLoose = x.site.isLoose := by
  simp only [site, Site.isLoose, h]

theorem isLoose_of_blank {b : Char} (h : x.before = some b) (blank : isBlank b = true) :
    x.site.isLoose = true := by
  simp only [site, Site.isLoose, h, blank, Bool.true_or]

/-- Blanks attach nothing to a lexeme. -/
theorem isLoose_skipBlanks (h : x.site.isLoose = true ∨ x.rest.head?.any isBlank = true) :
    x.skipBlanks.site.isLoose = true := by
  have before : x.skipBlanks.before = ((x.rest.takeWhile isBlank).getLast? <|> x.before) := by
    rw [← take_runLength]
    rfl
  cases last : (x.rest.takeWhile isBlank).getLast? with
  | some b =>
    rw [last] at before
    exact isLoose_of_blank before (List.mem_takeWhile_imp (List.mem_of_getLast? last))
  | none =>
    rw [last] at before
    rw [isLoose_congr before]
    apply h.resolve_right
    intro blank
    cases front : x.rest with
    | nil =>
      rw [front] at blank
      cases blank
    | cons c r =>
      rw [front] at blank last
      rw [List.takeWhile_cons_of_pos (by simpa using blank)] at last
      simp at last

theorem Follows.pragmaAfter (h : Follows x x') (k : Kind) :
    (x'.skipBlanks.pragmaAfter k.alone).isSome = (x.skipBlanks.pragmaAfter k).isSome := by
  cases k
  case openPragma => rfl
  case closePragma => rfl
  all_goals exact h.pragma

theorem step_printed (step : Step x l out y) (regular : Name.Regular x.rest) (h : Follows x x')
    {gap tail : List Char} (rest : x'.rest = gap ++ (l.text ++ tail))
    (blank : ∀ c ∈ gap, isBlank c = true) (loose : x'.skipBlanks.site.isLoose = true)
    (ends : tail = [] ∨ ∃ t, tail = '\n' :: '\n' :: t) :
    ∃ l' out' y', Step x' l' out' y' ∧ l'.kind = l.kind.alone ∧ l'.text = l.text ∧
      Follows y y' ∧ y'.rest = tail := by
  obtain ⟨t, rfl, fits, -, -⟩ := tile_of_step step
  obtain ⟨_, _, solid, noBlank⟩ := fits.solid
  obtain ⟨front, scanned, cut⟩ := step
  rename_i c r k n z
  have kind : t.lexeme.kind = k := congrArg (·.1.kind) cut.symm
  have text : t.lexeme.text = c :: r.take n := by
    have taken := congrArg (·.1.text) cut.symm
    simp only [Lexer.cut, front, List.take_succ_cons] at taken
    exact taken
  have inside : (r.take n).length = n := by
    rw [List.length_take, Nat.min_eq_left (Lexeme.scan_le scanned)]
  have regular' : Name.Regular (c :: r) := by
    intro d hd
    rw [← front, rest_skipBlanks] at hd
    exact regular d ((List.dropWhile_suffix isBlank).subset hd)
  have noBlank : isBlank c = false := by
    rw [text] at solid
    cases solid
    exact noBlank
  have front' : x'.skipBlanks.rest = c :: (r.take n ++ tail) := by
    rw [rest_skipBlanks, rest, text, List.dropWhile_append_of_pos blank, List.cons_append,
      List.dropWhile_cons_of_neg (by simp [noBlank])]
  have scanned' := Lexeme.scan_before h.alike loose regular' scanned ends
  refine ⟨_, _, _, .take front' scanned' rfl, ?_, ?_, ⟨?_, ?_⟩, ?_⟩
  · rw [kind]
  · rw [text]
    simp only [front', List.take_succ_cons, List.take_left' inside]
  · rw [config_emit, config_emit]
    exact h.config.trans (congrArg (·.2.config) cut)
  · rw [pragma_emit, pragma_emit]
    exact (h.pragmaAfter k).trans (congrArg (·.2.pragma.isSome) cut)
  · rw [rest_emit]
    change x'.skipBlanks.rest.drop (n + 1) = tail
    rw [front', List.drop_succ_cons, List.drop_left' inside]

theorem run_printed (run : Run x ls out y) (regular : Name.Regular x.rest) (h : Follows x x')
    {gap : List Char} (rest : x'.rest = gap ++ printed ls) (blank : ∀ c ∈ gap, isBlank c = true)
    (loose : ls ≠ [] → x'.skipBlanks.site.isLoose = true) :
    ∃ ls' out' y', Run x' ls' out' y' ∧
      ls'.map (fun l => (l.kind, l.text)) = ls.map (fun l => (l.kind.alone, l.text)) ∧
      Follows y y' ∧ ∀ c ∈ y'.rest, isBlank c = true := by
  induction run generalizing x' gap with
  | stay x =>
    refine ⟨[], [], x', .stay x', rfl, h, ?_⟩
    rw [rest, show printed [] = [] from rfl, List.append_nil]
    exact blank
  | step s run ih =>
    rename_i x y z l ls out more
    obtain ⟨tail, front, ends⟩ := printed_cons l ls
    have regular' : Name.Regular y.rest := by
      obtain ⟨t, -, -, whole, -⟩ := tile_of_step s
      intro c hc
      exact regular c (whole ▸ List.mem_append_right _ hc)
    have rest' : x'.rest = gap ++ (l.text ++ tail) := by rw [rest, front]
    have blankLine : tail = [] ∨ ∃ t, tail = '\n' :: '\n' :: t := by
      obtain ⟨-, used⟩ | more := ends
      · exact .inl used
      · exact .inr ⟨_, more⟩
    obtain ⟨l', out', y', step', kind, text, h', behind⟩ := step_printed s regular h rest' blank
      (loose (List.cons_ne_nil l ls)) blankLine
    have next : ∃ gap', y'.rest = gap' ++ printed ls ∧ (∀ c ∈ gap', isBlank c = true) ∧
        (ls ≠ [] → y'.skipBlanks.site.isLoose = true) := by
      obtain ⟨rfl, used⟩ | more := ends
      · exact ⟨[], behind.trans used, by simp, fun some => absurd rfl some⟩
      · refine ⟨['\n', '\n'], behind.trans more, ?_, fun _ => isLoose_skipBlanks (.inr ?_)⟩
        · intro c feed
          obtain rfl : c = '\n' := by simpa using feed
          rfl
        · rw [behind, more]
          rfl
    obtain ⟨gap', rest'', blank', loose'⟩ := next
    obtain ⟨ls', outs, z', run', same, h'', blanks⟩ := ih regular' h' rest'' blank' loose'
    refine ⟨l' :: ls', out' ++ outs, z', .step step' run', ?_, h'', blanks⟩
    rw [List.map_cons, List.map_cons, kind, text, same]

end Lexer

open Lexer in
/-- **Printing and lexing again changes nothing.** The lexemes of a text, with a
blank line between neighbours, lex to the same kinds and texts; only a type
application is then the operator that it looks like. Names must be closed: a
character that may begin a module name has to be one that names are made of. -/
theorem lex_printed {config : Config} {text : List Char} {tokens : List Token}
    (h : lex config text = .ok tokens)
    (regular : ∀ c ∈ text, startsUpper c = true → isNameChar c = true) :
    ∃ tokens', lex config (printed (located tokens)) = .ok tokens' ∧
      (located tokens').map (fun l => (l.kind, l.text)) =
        (located tokens).map (fun l => (l.kind.alone, l.text)) := by
  obtain ⟨ls, out, y, run, used, closed, rfl⟩ := run_of_lex h
  rw [located_of_run run]
  have follows : Follows (start config text) (start config (printed ls)) := ⟨rfl, rfl⟩
  have rest : (start config (printed ls)).rest = [] ++ printed ls := rfl
  obtain ⟨ls', out', y', run', same, follows', blank⟩ :=
    run_printed run regular follows rest (by simp) (fun _ => isLoose_skipBlanks (.inl rfl))
  have used' : y'.skipBlanks.rest = [] := by
    rw [rest_skipBlanks, List.dropWhile_eq_nil_iff]
    exact blank
  have closed' : y'.skipBlanks.pragma = none := by
    have pragma := follows'.pragma
    change y.pragma = none at closed
    rw [closed] at pragma
    exact Option.isNone_iff_eq_none.1 (Option.isSome_eq_false_iff.1 pragma)
  obtain ⟨tokens', ok, found⟩ := lex_of_run run' used' closed'
  exact ⟨tokens', ok, by rw [found, same]⟩

/-- The second at sign applies a type only as long as the name is right behind
it. -/
theorem lex_printed_application :
    let text := ['f', '@', 'a', ' ', '@', 'b']
    let lexeme (k : Kind) (col : Int) (c : Char) : Lexeme := ⟨k, ⟨⟨1, col⟩, ⟨1, col + 1⟩⟩, [c]⟩
    let tokens := [.lexeme (lexeme (.name .varid) 1 'f'),
      .lexeme (lexeme (.operator .atSign) 2 '@'), .lexeme (lexeme (.name .varid) 3 'a'),
      .lexeme (lexeme .typeApplication 5 '@'), .lexeme (lexeme (.name .varid) 6 'b'),
      .lexeme (Lexeme.atEnd text)]
    lex .permissive text = .ok tokens ∧
      ∃ tokens', lex .permissive ['f', '\n', '\n', '@', '\n', '\n', 'a', '\n', '\n', '@', '\n',
          '\n', 'b'] = .ok tokens' ∧
        (located tokens').map (fun l => (l.kind, l.text)) = [(.name .varid, ['f']),
          (.operator .atSign, ['@']), (.name .varid, ['a']), (.operator .atSign, ['@']),
          (.name .varid, ['b'])] := by
  intro text lexeme tokens
  have h : lex .permissive text = .ok tokens := by decide +kernel
  have regular : text.all (fun c => !startsUpper c || isNameChar c) = true := by decide +kernel
  refine ⟨h, lex_printed h fun c hc upper => ?_⟩
  have closed := List.all_eq_true.1 regular c hc
  rw [upper] at closed
  exact closed

end HaskellLexis
