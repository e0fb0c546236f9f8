import HaskellLexis.Proofs.Breaks

/-!
# A line feed is as good as the end of the text

Comments and pragmas look for more than the other scanners, but they too see the
same before a line feed as at the end of the text. So what is found in a text
stays there when a line feed and more text are put behind it.

* `…_line`: a scanner of comments or pragmas, with a line feed behind its text;
* `Comment.continuationLength_line`: the one that looks beyond a line feed,
  for documentation that goes on in the next line;
* `Lexeme.scan_line`: all lexemes.
-/

namespace HaskellLexis

variable {on : Extensions} {site : Site} {c : Char} {r s t : List Char} {k : Kind} {n : Nat}
  {p : Char → Bool}

theorem runLength_line (stops : p '\n' = false) :
    runLength p (s ++ '\n' :: t) = runLength p s :=
  runLength_append_of_stops stops

namespace Comment

theorem lineLength_line : lineLength (s ++ '\n' :: t) = lineLength s := runLength_line (by decide)

theorem startsLineComment_line :
    startsLineComment (s ++ '\n' :: t) = startsLineComment s :=
  startsLineComment_append rfl

theorem documentation?_line : documentation? on (s ++ '\n' :: t) = documentation? on s := by
  induction s with
  | nil => simp [documentation?, isInlineBlank, ofMark?]
  | cons c r ih =>
    simp only [documentation?] at ih ⊢
    by_cases blank : isInlineBlank c = true
    · rw [List.cons_append, List.dropWhile_cons_of_pos blank, List.dropWhile_cons_of_pos blank]
      exact ih
    · rw [List.cons_append, List.dropWhile_cons_of_neg blank, List.dropWhile_cons_of_neg blank]
      rfl

theorem lineDocumentation?_cons (d : Char) (s : List Char) :
    lineDocumentation? on (d :: s) = if s.head? = some '-' then none else documentation? on s := by
  unfold lineDocumentation?
  split
  · rename_i same
    cases same
    rfl
  · rename_i other same
    cases same
    rw [if_neg]
    intro dash
    cases s with
    | nil => cases dash
    | cons e s =>
      cases dash
      exact other _ rfl
  · rename_i empty
    cases empty

theorem lineDocumentation?_line (solid : r ≠ []) :
    lineDocumentation? on (r ++ '\n' :: t) = lineDocumentation? on r := by
  cases r with
  | nil => exact absurd rfl solid
  | cons d s =>
    rw [List.cons_append, lineDocumentation?_cons, lineDocumentation?_cons, documentation?_line]
    have dash : (s ++ '\n' :: t).head? = some '-' ↔ s.head? = some '-' :=
      head?_append_iff (by simp)
    simp only [dash]

theorem tail_ne_nil (h : startsLineComment s = true) : s.tail ≠ [] := by
  intro short
  simp only [startsLineComment, Bool.and_eq_true, decide_eq_true_eq] at h
  have dashes := Nat.le_trans h.1 (runLength_le _ s)
  have len := congrArg List.length short
  rw [List.length_tail, List.length_nil] at len
  omega

/-- A line comment that is no documentation. -/
def isPlain (on : Extensions) (s : List Char) : Bool :=
  startsLineComment s && (lineDocumentation? on s.tail).isNone

theorem continuationLength_cons (on : Extensions) (r : List Char) :
    continuationLength on ('\n' :: r) =
      let blanks := runLength isInlineBlank r
      let body := r.drop blanks
      if isPlain on body then
        1 + blanks + lineLength body + continuationLength on (body.drop (lineLength body))
      else 0 := by
  rw [continuationLength]
  rfl

theorem isPlain_line : isPlain on (s ++ '\n' :: t) = isPlain on s := by
  unfold isPlain
  rw [startsLineComment_line]
  cases starts : startsLineComment s with
  | false => rfl
  | true =>
    have more := tail_ne_nil starts
    cases s with
    | nil => exact absurd rfl more
    | cons d s =>
      have same : lineDocumentation? on (s ++ '\n' :: t) = lineDocumentation? on s :=
        lineDocumentation?_line more
      rw [List.cons_append, List.tail_cons, List.tail_cons, same]

theorem drop_lines (r : List Char) (blanks n m : Nat) :
    ('\n' :: r).drop (1 + blanks + n + m) = ((r.drop blanks).drop n).drop m := by
  rw [List.drop_drop, List.drop_drop, Nat.add_assoc, Nat.add_assoc, Nat.add_comm 1,
    List.drop_succ_cons]

/-- What documentation takes along in a text it takes along in a longer one,
and then maybe more. -/
theorem continuationLength_line (on : Extensions) (s t : List Char) :
    continuationLength on (s ++ '\n' :: t) =
      continuationLength on s +
        continuationLength on (s.drop (continuationLength on s) ++ '\n' :: t) := by
  fun_induction continuationLength on s with
  | case1 r blanks body plain n ih =>
    have blanks' : runLength isInlineBlank (r ++ '\n' :: t) = blanks := runLength_line (by decide)
    have body' : (r ++ '\n' :: t).drop blanks = body ++ '\n' :: t :=
      List.drop_append_of_le_length (runLength_le _ r)
    have n' : lineLength (body ++ '\n' :: t) = n := lineLength_line
    change isPlain on body = true at plain
    rw [List.cons_append, continuationLength_cons]
    simp only [blanks', body', n']
    rw [isPlain_line, if_pos plain, List.drop_append_of_le_length (lineLength_le body), ih,
      drop_lines, ← Nat.add_assoc]
  | case2 r blanks body other => rw [Nat.zero_add, List.drop_zero]
  | case3 s other => rw [Nat.zero_add, List.drop_zero]

/-- Nothing is taken along once and then again. -/
theorem continuationLength_drop (on : Extensions) (s : List Char) :
    continuationLength on (s.drop (continuationLength on s)) = 0 := by
  fun_induction continuationLength on s with
  | case1 r blanks body plain n ih =>
    rw [drop_lines]
    exact ih
  | case2 r blanks body other =>
    rw [List.drop_zero, continuationLength_cons]
    exact if_neg other
  | case3 s other =>
    rw [List.drop_zero, continuationLength]
    exact other

theorem closeLength?_append {depth : Nat} {u : List Char} (h : closeLength? depth s = some n) :
    closeLength? depth (s ++ u) = some n := by
  fun_induction closeLength? depth s generalizing n with
  | case1 => cases h
  | case2 depth r ih | case4 depth r ih =>
    obtain ⟨m, hm, rfl⟩ := Option.map_eq_some_iff.1 h
    simp only [List.cons_append, closeLength?, ih hm]
    rfl
  | case3 r => exact h
  | case5 depth c r noOpen noClose noInner ih =>
    obtain ⟨m, hm, rfl⟩ := Option.map_eq_some_iff.1 h
    cases r with
    | nil => cases hm
    | cons d r =>
      rw [List.cons_append, closeLength?, ih hm]
      · rfl
      · intro r' brace dash
        cases dash
        exact noOpen r brace rfl
      · intro r' zero dash brace
        cases brace
        exact noClose r zero dash rfl
      · intro depth' r' succ dash brace
        cases brace
        exact noInner depth' r succ dash rfl

theorem scanBlock_line {kind : Comment} (some : r ≠ []) (h : scanBlock on r = .ok (kind, n)) :
    scanBlock on (r ++ '\n' :: t) = .ok (kind, n) := by
  cases r with
  | nil => exact absurd rfl some
  | cons d r =>
    simp only [scanBlock, List.tail_cons, List.cons_append] at h ⊢
    split at h
    · rename_i m hm
      rw [closeLength?_append hm, documentation?_line]
      exact h
    · cases h

/-- The comment ends where it did, if nothing behind it goes on with it. -/
theorem scanLine_line (some : r ≠ [])
    (alone : (scanLine on r).1.continues = true →
      continuationLength on (r.drop (scanLine on r).2 ++ '\n' :: t) = 0) :
    scanLine on (r ++ '\n' :: t) = scanLine on r := by
  have kind : (scanLine on (r ++ '\n' :: t)).1 = (scanLine on r).1 := by
    simp only [scanLine, lineDocumentation?_line some]
  refine Prod.ext kind ?_
  rw [scanLine_length, scanLine_length, kind, lineLength_line,
    List.drop_append_of_le_length (lineLength_le r)]
  split
  · rename_i continues
    have stop := alone continues
    rw [scanLine_length, if_pos continues, ← List.drop_drop] at stop
    rw [continuationLength_line, stop, Nat.add_zero]
  · rfl

end Comment

namespace Pragma

theorem secondWord_line : secondWord (s ++ '\n' :: t) = secondWord s := by
  have blanks : runLength isInlineBlank (s ++ '\n' :: t) = runLength isInlineBlank s :=
    runLength_line (by decide)
  simp only [secondWord]
  rw [blanks, List.drop_append_of_le_length (runLength_le isInlineBlank s),
    takeWhile_append_of_stops ((Breaks.feed t).stops (by decide))]

theorem shape_line (solid : ∃ d ∈ s, isBlank d = false) :
    shape on (s ++ '\n' :: t) = shape on s := by
  simp only [shape]
  rw [word_break (.feed t) solid, List.drop_append_of_le_length (word_le s), secondWord_line]

theorem mem_of_offsetOf? {pat : List Char} {d : Char} (first : d ∈ pat)
    (h : offsetOf? pat s = some n) : d ∈ s := by
  induction s generalizing n with
  | nil => cases h
  | cons c r ih =>
    simp only [offsetOf?] at h
    split at h
    · rename_i here
      exact (List.isPrefixOf_iff_prefix.1 here).subset first
    · obtain ⟨m, later, -⟩ := Option.map_eq_some_iff.1 h
      exact List.mem_cons_of_mem c (ih later)

theorem exists_of_dropWhile {p : Char → Bool} (h : s.dropWhile p ≠ []) :
    ∃ d ∈ s, p d = false :=
  ⟨(s.dropWhile p).head h, (List.dropWhile_suffix p).subset (List.head_mem h),
    List.head_dropWhile_not p h⟩

theorem solid_of_word (h : (word s).1 ≠ []) : ∃ d ∈ s, isBlank d = false := by
  apply exists_of_dropWhile
  intro none
  rw [word, drop_runLength, none] at h
  exact h rfl

theorem solid_of_secondWord (h : (secondWord s).1 ≠ []) : ∃ d ∈ s, isInlineBlank d = false := by
  apply exists_of_dropWhile
  intro none
  rw [secondWord, drop_runLength, none] at h
  exact h rfl

theorem solid_of_scanWhole {kind : Kind} (h : scanWhole kind s = .ok (k, n)) :
    ∃ d ∈ s, isBlank d = false := by
  simp only [scanWhole] at h
  split at h
  · rename_i m closes
    exact ⟨'#', mem_of_offsetOf? (by decide) closes, by decide⟩
  · cases h

/-- A pragma that is known has a word, and any other has a closing mark. -/
theorem solid_of_scan (h : scan on s = .ok (k, n)) : ∃ d ∈ s, isBlank d = false := by
  unfold scan at h
  split at h
  · exact solid_of_scanWhole h
  · rename_i p m known
    apply solid_of_word
    intro noWord
    simp only [shape, noWord] at known
    cases known
  · exact solid_of_scanWhole h

theorem scan_line (h : scan on s = .ok (k, n)) : scan on (s ++ '\n' :: t) = .ok (k, n) := by
  have same : shape on (s ++ '\n' :: t) = shape on s := shape_line (solid_of_scan h)
  unfold scan at h ⊢
  rw [same]
  split at h
  · exact scanWhole_before h _
  · exact h
  · exact scanWhole_before h _

end Pragma

namespace Lexeme

theorem scanBraceDash_line (opens : r.head? = some '-') (h : scanBraceDash on r = .ok (k, n)) :
    scanBraceDash on (r ++ '\n' :: t) = .ok (k, n) := by
  unfold scanBraceDash at h
  split at h
  · exact Pragma.scan_line h
  · rename_i noHash
    obtain ⟨⟨kind, m⟩, hm, same⟩ := ok_of_map h
    have some : r ≠ [] := by
      rintro rfl
      cases opens
    unfold scanBraceDash
    split
    · rename_i s front
      match r with
      | [] => cases opens
      | [d] => cases front
      | d :: e :: r =>
        cases front
        exact absurd rfl (noHash r)
    · rw [Comment.scanBlock_line some hm]
      exact congrArg Except.ok same

/-- What stands at the front of a text stands there with more lines behind it.
Only documentation may then go on with these lines. -/
theorem scan_line (h : scan site c r = .ok (k, n))
    (alone : Comment.startsLineComment (c :: r) = true →
      (Comment.scanLine site.on r).1.continues = true →
        Comment.continuationLength site.on (r.drop n ++ '\n' :: t) = 0) :
    scan site c (r ++ '\n' :: t) = .ok (k, n) := by
  have scanned := scanned_of_scan h
  cases braced : k.isBraced with
  | false =>
    have blind (u : List Char) : Operator.isTypeApplication site (u ++ '\n' :: t) =
        Operator.isTypeApplication site u := by
      rw [Operator.isTypeApplication, head?_any_append (v := '\n' :: t) rfl]
      rfl
    exact scan_of_scanned (scanned_break (.feed t) rfl blind braced scanned)
  | true =>
    obtain ⟨rfl, dash⟩ | starts := (isBraced_iff scanned).1 braced
    · have dash' : (r ++ '\n' :: t).head? = some '-' := (head?_append_iff (by simp)).2 dash
      rw [scan, if_pos (by simpa using dash)] at h
      exact scan_of_scanned (.braceDash ⟨rfl, dash'⟩ (scanBraceDash_line dash h))
    · have first := Comment.dash_of_startsLineComment starts
      subst first
      rw [scan, if_neg (by simp), if_pos starts] at h
      obtain ⟨rfl, rfl⟩ := Prod.mk.inj (Except.ok.inj h)
      have starts' : Comment.startsLineComment ('-' :: (r ++ '\n' :: t)) = true :=
        Comment.startsLineComment_line.trans starts
      have found : Scanned site '-' (r ++ '\n' :: t) _ _ := .lineComment starts'
      have more : r ≠ [] := Comment.tail_ne_nil starts
      rw [Comment.scanLine_line more (alone starts)] at found
      exact scan_of_scanned found

end Lexeme

end HaskellLexis
