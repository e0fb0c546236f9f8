import HaskellLexis.Proofs.Lengths
import HaskellLexis.Proofs.Tiling

/-!
# The lexer comes to an end

All that the lexer ever does to its text is to advance by one character, again
and again until it stands at a target. At the end of the text nothing advances
any more, so a target past the end would never be reached.

* `Lexer.advance`, `Lexer.Advances`: one character, and going on to a target;
* `Lexeme.targets`: the targets on the way through one lexeme, those of the
  loops over nested comments and over documentation among them;
* `Name.prefixStops`: how the search along a module name goes on, which looks
  ahead and moves nothing;
* `Climbs`: targets that lie one behind the other, up to the last one;
* `lexing_ends`: every target is reached, and every text has an end.
-/

namespace HaskellLexis

variable {on : Extensions} {site : Site} {c : Char} {r s : List Char} {k : Kind} {n : Nat}

/-- From `low`, each stop lies past the one before it, and `high` is the last. -/
def Climbs (low : Nat) : List Nat → Nat → Prop
  | [], high => low = high
  | t :: ts, high => low < t ∧ Climbs t ts high

namespace Climbs

variable {low high : Nat} {ts : List Nat}

theorem le (h : Climbs low ts high) : low ≤ high := by
  induction ts generalizing low with
  | nil => exact Nat.le_of_eq h
  | cons t ts ih => exact Nat.le_of_lt (Nat.lt_of_lt_of_le h.1 (ih h.2))

theorem bounds (h : Climbs low ts high) : ∀ t ∈ ts, low < t ∧ t ≤ high := by
  induction ts generalizing low with
  | nil =>
    intro t ht
    cases ht
  | cons u ts ih =>
    intro t ht
    obtain rfl | later := List.mem_cons.1 ht
    · exact ⟨h.1, h.2.le⟩
    · obtain ⟨above, below⟩ := ih h.2 t later
      exact ⟨Nat.lt_trans h.1 above, below⟩

theorem shift (h : Climbs low ts high) (k : Nat) :
    Climbs (k + low) (ts.map (k + ·)) (k + high) := by
  induction ts generalizing low with
  | nil => exact congrArg (k + ·) h
  | cons t ts ih => exact ⟨Nat.add_lt_add_left h.1 k, ih h.2⟩

/-- One more stop in front of stops that are counted from there. -/
theorem cons {t : Nat} (ahead : 0 < t) (h : Climbs 0 ts high) :
    Climbs 0 (t :: ts.map (t + ·)) (t + high) :=
  ⟨ahead, h.shift t⟩

theorem single (ahead : 0 < high) : Climbs 0 [high] high := ⟨ahead, rfl⟩

end Climbs

namespace Comment

/-- Where the turns of the search for the mark that closes a comment end. -/
def closeStops : Nat → List Char → List Nat
  | _, [] => []
  | depth, '{' :: '-' :: r => 2 :: (closeStops (depth + 1) r).map (2 + ·)
  | 0, '-' :: '}' :: _ => [2]
  | depth + 1, '-' :: '}' :: r => 2 :: (closeStops depth r).map (2 + ·)
  | depth, _ :: r => 1 :: (closeStops depth r).map (1 + ·)

theorem getD_map_add (o : Option Nat) (k m : Nat) :
    (o.map (· + k)).getD (m + k) = k + o.getD m := by
  cases o <;> exact Nat.add_comm _ k

/-- A comment that is never closed is searched up to the end of the text. -/
theorem closeStops_climb (depth : Nat) (s : List Char) :
    Climbs 0 (closeStops depth s) ((closeLength? depth s).getD s.length) := by
  fun_induction closeLength? depth s with
  | case1 => exact rfl
  | case2 depth r ih | case4 depth r ih =>
    have next := Climbs.cons (t := 2) Nat.two_pos ih
    rwa [← getD_map_add] at next
  | case3 r => exact Climbs.single Nat.two_pos
  | case5 depth c r noOpen noClose noInner ih =>
    rw [closeStops]
    · have next := Climbs.cons (t := 1) Nat.one_pos ih
      rwa [← getD_map_add] at next
    all_goals assumption

/-- Where the lines end that documentation takes along. -/
def continuationStops (on : Extensions) (s : List Char) : List Nat :=
  match s with
  | '\n' :: r =>
    let blanks := runLength isInlineBlank r
    let body := r.drop blanks
    if startsLineComment body && (lineDocumentation? on body.tail).isNone then
      let n := lineLength body
      (1 + blanks + n) :: (continuationStops on (body.drop n)).map (1 + blanks + n + ·)
    else []
  | _ => []
  termination_by s.length
  decreasing_by simp only [List.length_drop, List.length_cons]; omega

theorem continuationStops_climb (on : Extensions) (s : List Char) :
    Climbs 0 (continuationStops on s) (continuationLength on s) := by
  fun_induction continuationLength on s with
  | case1 r blanks body plain n ih =>
    rw [continuationStops, if_pos plain]
    exact Climbs.cons (by omega) ih
  | case2 r blanks body other =>
    rw [continuationStops, if_neg other]
    exact rfl
  | case3 s other =>
    rw [continuationStops]
    · exact rfl
    · exact other

end Comment

namespace Name

/-- Where the modules of a qualified name end, behind its first one. -/
def prefixStops (s : List Char) : List Nat :=
  match s with
  | '.' :: d :: r =>
    if startsUpper d then
      let n := wordLength (d :: r)
      (1 + n) :: (prefixStops ((d :: r).drop n)).map (1 + n + ·)
    else []
  | _ => []
  termination_by s.length
  decreasing_by simp only [List.length_drop, List.length_cons]; omega

/-- The name goes on at least as far as its modules do. -/
theorem prefixStops_climb (site : Site) (q : Bool) (s : List Char) :
    ∃ m, Climbs 0 (prefixStops s) m ∧ m ≤ (scanQualified site q s).2 := by
  fun_induction scanQualified site q s with
  | case1 q d r upper n kind m rest ih =>
    obtain ⟨m', climb, le⟩ := ih
    rw [rest] at le
    rw [prefixStops, if_pos upper]
    exact ⟨1 + n + m', Climbs.cons (by omega) climb, Nat.add_le_add_left le _⟩
  | case2 q d r upper | case3 q d r upper | case4 q d r upper | case5 q d r upper
  | case6 q d r upper =>
    rw [prefixStops, if_neg upper]
    exact ⟨0, rfl, Nat.zero_le _⟩
  | case7 q s _ other =>
    rw [prefixStops]
    · exact ⟨0, rfl, Nat.zero_le _⟩
    · exact other

end Name

namespace Lexeme

/-- The front of a comment that is taken as it is read, up to its closing
mark. -/
def opensComment (c : Char) (r : List Char) : Bool :=
  c = '{' && r.head? = some '-' && r.tail.head? ≠ some '#'

/-- How far from its first character the lexer is sent while it scans one
lexeme. Most scanners only look and then move once; the sign of a negative
literal is taken apart from its digits, and comments part by part. -/
def targets (site : Site) (c : Char) (r : List Char) : List Nat :=
  if opensComment c r then 2 :: (Comment.closeStops 0 r.tail).map (2 + ·)
  else if Comment.startsLineComment (c :: r) then
    let kind := (Comment.scanLine site.on r).1
    let n := Comment.lineLength r
    (1 + n) ::
      if kind.continues then (Comment.continuationStops site.on (r.drop n)).map (1 + n + ·) else []
  else
    match scan site c r with
    | .ok (_, n) => if isNegative site c r then [1, n + 1] else [n + 1]
    | .error _ => []

theorem scanLine_climbs (on : Extensions) (r : List Char) :
    Climbs 0 ((1 + Comment.lineLength r) ::
      if (Comment.scanLine on r).1.continues then
        (Comment.continuationStops on (r.drop (Comment.lineLength r))).map
          (1 + Comment.lineLength r + ·)
      else []) ((Comment.scanLine on r).2 + 1) := by
  have ahead : 0 < 1 + Comment.lineLength r := by omega
  rw [Comment.scanLine_length]
  by_cases continues : (Comment.scanLine on r).1.continues = true
  · rw [if_pos continues, if_pos continues, Nat.add_comm _ 1, ← Nat.add_assoc]
    exact Climbs.cons ahead (Comment.continuationStops_climb on (r.drop (Comment.lineLength r)))
  · rw [if_neg continues, if_neg continues, Nat.add_comm _ 1]
    exact Climbs.single ahead

theorem scan_of_opensComment (h : opensComment c r = true) :
    scan site c r = (Comment.scanBlock site.on r).map fun (kind, n) => (.comment kind, n) := by
  simp only [opensComment, Bool.and_eq_true, decide_eq_true_eq] at h
  obtain ⟨⟨rfl, dash⟩, noHash⟩ := h
  have front : (decide ('{' = '{') && decide (r.head? = some '-')) = true := by simp [dash]
  unfold scan scanBraceDash
  rw [if_pos front]
  split
  · exact absurd rfl noHash
  · rfl

/-- The lexer goes only forward, up to the end of the lexeme. -/
theorem targets_climb (h : scan site c r = .ok (k, n)) : Climbs 0 (targets site c r) (n + 1) := by
  unfold targets
  split
  · rename_i opens
    rw [scan_of_opensComment opens] at h
    obtain ⟨⟨kind, m⟩, found, same⟩ := ok_of_map h
    cases same
    simp only [Comment.scanBlock] at found
    split at found
    · rename_i m closed
      cases found
      have climb := Climbs.cons Nat.two_pos (Comment.closeStops_climb 0 r.tail)
      rw [closed] at climb
      rwa [Nat.add_comm] at climb
    · cases found
  · rename_i noOpen
    split
    · rename_i starts
      have same := (scan_of_scanned (.lineComment starts)).symm.trans h
      cases same
      exact scanLine_climbs site.on r
    · simp only [h]
      split
      · rename_i sign
        have same := (scan_of_negative sign).symm.trans h
        cases same
        have digits : 0 < (scanNegative site.on r).2 := by
          simp only [isNegative, Bool.and_eq_true] at sign
          cases r with
          | nil => simp at sign
          | cons d s => exact Nat.succ_pos _
        exact ⟨Nat.one_pos, Nat.succ_lt_succ digits, rfl⟩
      · exact Climbs.single (Nat.succ_pos n)

/-- A scanner that fails has not been past the end of the text either. -/
theorem targets_within (site : Site) (c : Char) (r : List Char) :
    ∃ m, Climbs 0 (targets site c r) m ∧ m ≤ (c :: r).length := by
  cases found : scan site c r with
  | ok p => exact ⟨p.2 + 1, targets_climb found, Nat.succ_le_succ (scan_le found)⟩
  | error cause =>
    unfold targets
    split
    · rename_i opens
      simp only [opensComment, Bool.and_eq_true, decide_eq_true_eq] at opens
      cases r with
      | nil => cases opens.1.2
      | cons d r =>
        refine ⟨_, Climbs.cons Nat.two_pos (Comment.closeStops_climb 0 r), ?_⟩
        have le : (Comment.closeLength? 0 r).getD r.length ≤ r.length := by
          cases closed : Comment.closeLength? 0 r with
          | none => exact Nat.le_refl _
          | some m => exact Comment.closeLength?_le closed
        simp only [List.length_cons]
        omega
    · rename_i noOpen
      split
      · rename_i starts
        rw [scan_of_scanned (.lineComment starts)] at found
        cases found
      · simp only [found]
        exact ⟨0, rfl, Nat.zero_le _⟩

end Lexeme

namespace Lexer

theorem consume_zero (x : Lexer) : x.consume 0 = x := by
  cases x
  rfl

theorem consume_add (x : Lexer) (m n : Nat) : x.consume (m + n) = (x.consume m).consume n := by
  simp only [consume, List.take_add, List.drop_drop, Position.after_append, Tabs.seeAll_append,
    List.getLast?_append]
  cases ((x.rest.drop m).take n).getLast? <;> rfl

/-- One character further. At the end of the text nothing moves. -/
def advance (x : Lexer) : Lexer := x.consume 1

/-- Where the lexer stands in a text of `size` characters. -/
def offset (size : Nat) (x : Lexer) : Nat := size - x.rest.length

/-- Advancing as long as the target lies ahead comes to an end, at `y`. -/
inductive Advances (size target : Nat) : Lexer → Lexer → Prop where
  | arrived {x : Lexer} (there : target ≤ x.offset size) : Advances size target x x
  | onward {x y : Lexer} (ahead : x.offset size < target)
      (more : Advances size target x.advance y) : Advances size target x y

variable {x y : Lexer} {size target : Nat}

theorem offset_consume (inside : x.rest.length ≤ size) (h : n ≤ x.rest.length) :
    (x.consume n).offset size = x.offset size + n := by
  simp only [offset, length_rest_consume]
  omega

/-- A target inside the text is reached. -/
theorem advances_of_le (inside : x.rest.length ≤ size) (h : n ≤ x.rest.length) :
    Advances size (x.offset size + n) x (x.consume n) := by
  induction n generalizing x with
  | zero =>
    rw [consume_zero]
    exact .arrived (Nat.le_refl _)
  | succ n ih =>
    have one : x.advance.offset size = x.offset size + 1 := offset_consume inside (by omega)
    have rest : x.advance.rest.length = x.rest.length - 1 := x.length_rest_consume 1
    have later := ih (x := x.advance) (by omega) (by omega)
    refine .onward (by omega) ?_
    rw [Nat.add_comm n 1, consume_add, ← Nat.add_assoc, ← one]
    exact later

/-- A target past the end of the text never is. -/
theorem le_of_advances (h : Advances size target x y) : target ≤ size := by
  induction h with
  | arrived there => exact Nat.le_trans there (Nat.sub_le _ _)
  | onward _ _ ih => exact ih

theorem advances_iff (inside : x.rest.length ≤ size) :
    (∃ y, Advances size target x y) ↔ target ≤ size := by
  constructor
  · rintro ⟨y, h⟩
    exact le_of_advances h
  · intro h
    by_cases ahead : x.offset size < target
    · have reached := advances_of_le (n := target - x.offset size) inside
        (by simp only [offset] at ahead ⊢; omega)
      rw [Nat.add_sub_cancel' (Nat.le_of_lt ahead)] at reached
      exact ⟨_, reached⟩
    · exact ⟨x, .arrived (Nat.le_of_not_lt ahead)⟩

/-- What the lexer does before the text `c :: r` goes forward: each target is
reached, lies past the one before it and inside the text, and a lexeme takes
the lexer to the last one. -/
structure Forward (size : Nat) (x : Lexer) (c : Char) (r : List Char) : Prop where
  reached : ∀ t ∈ Lexeme.targets x.site c r,
    x.offset size + t ≤ size ∧ Advances size (x.offset size + t) x (x.consume t)
  climbs : ∃ m, Climbs 0 (Lexeme.targets x.site c r) m
  taken : ∀ k n, Lexeme.scan x.site c r = .ok (k, n) →
    Climbs 0 (Lexeme.targets x.site c r) (n + 1) ∧
      x.offset size < (x.cut k (n + 1)).2.offset size ∧ (x.cut k (n + 1)).2.offset size ≤ size
  modules : ∃ m, Climbs 0 (Name.prefixStops (r.drop (wordLength r))) m ∧
    x.offset size + 1 + wordLength r + m ≤ size

theorem forward_of_rest {r : List Char} (inside : x.rest.length ≤ size) (front : x.rest = c :: r) :
    x.Forward size c r := by
  have whole : x.offset size + (c :: r).length = size := by
    rw [← front]
    exact Nat.sub_add_cancel inside
  obtain ⟨m, climb, within⟩ := Lexeme.targets_within x.site c r
  refine ⟨?_, ⟨m, climb⟩, ?_, ?_⟩
  · intro t ht
    have below := (climb.bounds t ht).2
    exact ⟨by omega, advances_of_le inside (by rw [front]; omega)⟩
  · intro k n found
    have le := Lexeme.scan_le found
    have stop : (x.cut k (n + 1)).2.offset size = x.offset size + (n + 1) :=
      offset_consume inside (by rw [front]; exact Nat.succ_le_succ le)
    rw [List.length_cons] at whole
    rw [stop]
    exact ⟨Lexeme.targets_climb found, by omega, by omega⟩
  · obtain ⟨j, climb, le⟩ := Name.prefixStops_climb x.site false (r.drop (wordLength r))
    have inText := Name.scanQualified_le x.site false (r.drop (wordLength r))
    have word := wordLength_le r
    rw [List.length_drop] at inText
    rw [List.length_cons] at whole
    exact ⟨j, climb, by omega⟩

theorem suffix_of_step {l : Lexeme} {out : List (Token × Lexer)} (h : Step x l out y) :
    y.rest <:+ x.rest := by
  obtain ⟨t, -, -, rest, -⟩ := tile_of_step h
  exact ⟨t.text, rest.symm⟩

theorem run_within {ls : List Lexeme} {out : List (Token × Lexer)} (h : Run x ls out y) :
    y.rest <:+ x.rest ∧ ls.length + y.rest.length ≤ x.rest.length := by
  induction h with
  | stay x => exact ⟨List.suffix_refl _, by simp⟩
  | step s _ ih =>
    have shorter := step_shorter s
    refine ⟨ih.1.trans (suffix_of_step s), ?_⟩
    have := ih.2
    rw [List.length_cons]
    omega

/-- A lexer that can make no step delivers braces and the end, or nothing. -/
theorem located_of_halts (h : x.Halts) : located x.trace.items = [] := by
  obtain front | ⟨c, r, cause, front, scanned⟩ := h
  · rw [trace_of_nil front, atEnd]
    split
    · rfl
    · simp [Trace.items_itemAll, Trace.items_remarkAll, Trace.items, braceItems, located,
        Token.lexeme?, List.filter_eq_nil_iff]
  · rw [trace_of_cons front, scanned, Trace.items_remarkAll]
    rfl

/-- The lexemes that a lexer delivers are those of a run, whether it fails
after them or not. -/
theorem step_of_located {l : Lexeme} (mem : l ∈ located x.trace.items) :
    ∃ before out₁ z out₂ z', Run x before out₁ z ∧ Step z l out₂ z' := by
  obtain ⟨ls, out, y, run, halts, items, -⟩ := exists_run x
  have none := located_of_halts halts
  rw [located] at none
  rw [items, located, List.filterMap_append, List.filter_append, none, run_lexemes run,
    List.append_nil] at mem
  exact step_of_mem run (List.mem_filter.1 mem).1

end Lexer

open Lexer in
/-- **The lexer comes to an end.** Wherever it stands in a text, it is sent only
to targets that it reaches, each further on than the one before. So every run
stops, after no more lexemes than the text has characters, whether the text
lexes or not. -/
theorem lexing_ends (config : Config) (text : List Char) :
    (∀ (x : Lexer) (target : Nat), x.rest <:+ text →
      ((∃ y, Advances text.length target x y) ↔ target ≤ text.length)) ∧
    (∀ x : Lexer, x.rest <:+ text → ∀ c r, x.skipBlanks.rest = c :: r →
      x.skipBlanks.Forward text.length c r) ∧
    (∀ ls out x, Run (start config text) ls out x → x.rest <:+ text ∧ ls.length ≤ text.length) ∧
    (∃ ls out x, Run (start config text) ls out x ∧ x.Halts) ∧
    (located (start config text).trace.items).length ≤ text.length := by
  have runs {ls out x} (run : Run (start config text) ls out x) :
      x.rest <:+ text ∧ ls.length ≤ text.length := by
    obtain ⟨suffix, short⟩ := run_within run
    change x.rest <:+ text at suffix
    change ls.length + x.rest.length ≤ text.length at short
    exact ⟨suffix, by omega⟩
  obtain ⟨ls, out, y, run, halts, items, -⟩ := exists_run (start config text)
  refine ⟨?_, ?_, fun _ _ _ => runs, ⟨ls, out, y, run, halts⟩, ?_⟩
  · intro x target suffix
    exact advances_iff suffix.length_le
  · intro x suffix c r front
    have shorter := x.length_rest_skipBlanks
    exact forward_of_rest (Nat.le_trans shorter suffix.length_le) front
  · have none := located_of_halts halts
    rw [located] at none
    rw [items, located, List.filterMap_append, List.filter_append, none, run_lexemes run,
      List.append_nil]
    exact Nat.le_trans (List.length_filter_le _ _) (runs run).2

/-- Comments inside a comment, each part a target of its own. -/
theorem lexing_ends_nested :
    let text := ['\n', '{', '-', '{', '-', '-', '}', 'x', '-', '}']
    let x := (Lexer.start .permissive text).skipBlanks
    Lexeme.targets x.site '{' (text.drop 2) = [2, 4, 6, 7, 9] ∧
      x.Forward text.length '{' (text.drop 2) ∧
      (located (Lexer.start .permissive text).trace.items).length ≤ text.length := by
  intro text x
  obtain ⟨-, forward, -, -, short⟩ := lexing_ends .permissive text
  exact ⟨by decide, forward (Lexer.start .permissive text) (List.suffix_refl text) _ _ rfl, short⟩

end HaskellLexis
