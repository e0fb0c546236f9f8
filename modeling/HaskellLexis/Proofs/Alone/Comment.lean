import HaskellLexis.Proofs.LineEnd

/-!
# Comments and pragmas by themselves

Scanners of comments and pragmas before a text that is cut off behind what they
take. A search for a mark ends with the mark; whoever reads up to the end of a
line sees no more than the line, whatever comes behind it.

* `…_take`: a scanner or search, before a text cut off at `n`;
* `Comment.of_first_line`: all that looks at one line only.
-/

namespace HaskellLexis

variable {on : Extensions} {c : Char} {r s : List Char} {k : Kind} {m n : Nat}
  {p : Char → Bool}

theorem takeWhile_take (h : runLength p s ≤ n) : (s.take n).takeWhile p = s.takeWhile p := by
  rw [← List.take_takeWhile, List.take_of_length_le h]

theorem runLength_take (h : runLength p s ≤ n) : runLength p (s.take n) = runLength p s :=
  congrArg List.length (takeWhile_take h)

theorem runLength_mono {q : Char → Bool} (imp : ∀ c, p c = true → q c = true) (s : List Char) :
    runLength p s ≤ runLength q s := by
  induction s with
  | nil => exact Nat.le_refl 0
  | cons c r ih =>
    simp only [runLength, List.takeWhile_cons] at ih ⊢
    split
    · rename_i goes
      rw [imp c goes]
      exact Nat.succ_le_succ ih
    · exact Nat.zero_le _

theorem wordLength_take (h : wordLength s ≤ n) : wordLength (s.take n) = wordLength s :=
  runLength_take h

theorem head?_take_of_pos (h : 0 < n) (s : List Char) : (s.take n).head? = s.head? := by
  rw [List.head?_take, if_neg (Nat.ne_of_gt h)]

theorem isPrefixOf_of_take {pat : List Char} (h : pat.isPrefixOf (s.take n) = true) :
    pat.isPrefixOf s = true := by
  rw [List.isPrefixOf_iff_prefix] at h ⊢
  exact h.trans (List.take_prefix n s)

theorem isPrefixOf_take {pat : List Char} (h : pat.isPrefixOf s = true) (inside : pat.length ≤ n) :
    pat.isPrefixOf (s.take n) = true := by
  rw [List.isPrefixOf_iff_prefix] at h ⊢
  exact List.prefix_take_iff.2 ⟨h, inside⟩

theorem offsetOf?_take {pat : List Char} (h : offsetOf? pat s = some m)
    (inside : m + pat.length ≤ n) (solid : 0 < pat.length) : offsetOf? pat (s.take n) = some m := by
  induction s generalizing m n with
  | nil => cases h
  | cons c r ih =>
    obtain ⟨n, rfl⟩ : ∃ n', n = n' + 1 := ⟨n - 1, by omega⟩
    simp only [offsetOf?] at h
    rw [List.take_succ_cons, offsetOf?, ← List.take_succ_cons]
    split at h
    · rename_i here
      cases h
      rw [if_pos (isPrefixOf_take here (by omega))]
    · rename_i there
      obtain ⟨j, later, rfl⟩ := Option.map_eq_some_iff.1 h
      rw [if_neg (fun here => there (isPrefixOf_of_take here)), ih later (by omega)]
      rfl

theorem runLength_le_of_stop {d : Char} (h : s[m]? = some d) (stops : p d = false) :
    runLength p s ≤ m := by
  induction s generalizing m with
  | nil => cases h
  | cons c r ih =>
    rw [runLength, List.takeWhile_cons]
    split
    · rename_i goes
      cases m with
      | zero =>
        cases h
        rw [goes] at stops
        cases stops
      | succ m => exact Nat.succ_le_succ (ih h)
    · exact Nat.zero_le m

theorem getElem?_of_offsetOf? {d : Char} {pat : List Char} (h : offsetOf? (d :: pat) s = some m) :
    s[m]? = some d := by
  induction s generalizing m with
  | nil => cases h
  | cons c r ih =>
    simp only [offsetOf?] at h
    split at h
    · rename_i here
      cases h
      obtain ⟨t, same⟩ := List.isPrefixOf_iff_prefix.1 here
      cases same
      rfl
    · obtain ⟨j, later, rfl⟩ := Option.map_eq_some_iff.1 h
      exact ih later

/-- What is found is found by a narrower test too, if it passes. -/
theorem find?_of_imp {α : Type} {l : List α} {p q : α → Bool} {x : α} (h : l.find? p = some x)
    (pass : q x = true) (imp : ∀ y, q y = true → p y = true) : l.find? q = some x := by
  rw [List.find?_eq_some_iff_append] at h ⊢
  obtain ⟨-, before, behind, split, none⟩ := h
  refine ⟨pass, before, behind, split, fun a ha => ?_⟩
  cases test : q a with
  | false => rfl
  | true =>
    have fails := none a ha
    rw [imp a test] at fails
    cases fails

theorem find?_none_of_imp {α : Type} {l : List α} {p q : α → Bool} (h : l.find? p = none)
    (imp : ∀ y, q y = true → p y = true) : l.find? q = none := by
  rw [List.find?_eq_none] at h ⊢
  exact fun x hx test => h x hx (imp x test)

namespace Comment

/-- A text is its first line, and a line feed with more behind it or nothing. -/
theorem first_line (s : List Char) :
    s = s.take (lineLength s) ∨ ∃ t, s = s.take (lineLength s) ++ '\n' :: t := by
  have whole := List.take_append_drop (lineLength s) s
  cases rest : s.drop (lineLength s) with
  | nil =>
    rw [rest, List.append_nil] at whole
    exact .inl whole.symm
  | cons c t =>
    have head := List.head?_dropWhile_not (fun c => decide (c ≠ '\n')) s
    rw [← drop_runLength, show s.drop (runLength _ s) = c :: t from rest] at head
    have feed : c = '\n' := by simpa using head
    rw [rest, feed] at whole
    exact .inr ⟨t, whole.symm⟩

/-- Whoever does not look beyond the line sees no more than the line. -/
theorem of_first_line {α : Type} (f : List Char → α)
    (stops : ∀ s t, f (s ++ '\n' :: t) = f s) (h : lineLength s ≤ n) : f (s.take n) = f s := by
  have line (s : List Char) : f (s.take (lineLength s)) = f s := by
    obtain whole | ⟨t, whole⟩ := first_line s
    · rw [← whole]
    · exact ((congrArg f whole).trans (stops _ t)).symm
  have same : lineLength (s.take n) = lineLength s := runLength_take h
  rw [← line (s.take n), same, List.take_take, Nat.min_eq_left h, line]

theorem lineLength_take (h : lineLength s ≤ n) : lineLength (s.take n) = lineLength s :=
  runLength_take h

theorem startsLineComment_take (h : lineLength s ≤ n) :
    startsLineComment (s.take n) = startsLineComment s :=
  of_first_line startsLineComment (fun _ _ => startsLineComment_line) h

theorem isPlain_take (h : lineLength s ≤ n) : isPlain on (s.take n) = isPlain on s :=
  of_first_line (isPlain on) (fun _ _ => isPlain_line) h

theorem lineDocumentation?_take (h : lineLength r ≤ n) :
    lineDocumentation? on (c :: r.take n) = lineDocumentation? on (c :: r) :=
  of_first_line (fun s => lineDocumentation? on (c :: s))
    (fun s _ => lineDocumentation?_line (List.cons_ne_nil c s)) h

theorem continuationLength_take (on : Extensions) (s : List Char) :
    continuationLength on (s.take (continuationLength on s)) = continuationLength on s := by
  fun_induction continuationLength on s with
  | case1 r blanks body plain n ih =>
    change isPlain on body = true at plain
    generalize continuationLength on (body.drop n) = m at *
    have blanks' : runLength isInlineBlank (r.take (blanks + (n + m))) = blanks :=
      runLength_take (Nat.le_add_right _ _)
    have body' : (r.take (blanks + (n + m))).drop blanks = body.take (n + m) := by
      rw [List.drop_take, Nat.add_sub_cancel_left]
    have n' : lineLength (body.take (n + m)) = n := lineLength_take (Nat.le_add_right _ _)
    have behind : (body.take (n + m)).drop n = (body.drop n).take m := by
      rw [List.drop_take, Nat.add_sub_cancel_left]
    have size : 1 + blanks + n + m = blanks + (n + m) + 1 := by omega
    rw [size, List.take_succ_cons, continuationLength_cons]
    simp only [blanks', body', n', behind, ih, isPlain_take (Nat.le_add_right n m)]
    rw [if_pos plain, size]
  | case2 | case3 => simp [continuationLength]

theorem lineLength_cons_le (c : Char) (r : List Char) :
    lineLength (c :: r) ≤ lineLength r + 1 := by
  simp only [lineLength, runLength, List.takeWhile_cons]
  split
  · exact Nat.le_refl _
  · exact Nat.zero_le _

theorem lineLength_le_scanLine (on : Extensions) (r : List Char) :
    lineLength r ≤ (scanLine on r).2 := by
  rw [scanLine_length]
  split <;> omega

theorem scanLine_take (first : c ≠ '\n') (r : List Char) :
    scanLine on ((c :: r).take (scanLine on (c :: r)).2) = scanLine on (c :: r) := by
  have line : lineLength (c :: r) = lineLength r + 1 := by
    simp [lineLength, runLength, first]
  have le := lineLength_le_scanLine on (c :: r)
  have kind : (scanLine on ((c :: r).take (scanLine on (c :: r)).2)).1 =
      (scanLine on (c :: r)).1 := by
    obtain ⟨n, hn⟩ : ∃ n, (scanLine on (c :: r)).2 = n + 1 :=
      ⟨_, (Nat.sub_add_cancel (by omega)).symm⟩
    rw [hn, List.take_succ_cons]
    simp only [scanLine]
    rw [lineDocumentation?_take (by omega)]
  refine Prod.ext kind ?_
  rw [scanLine_length, kind, lineLength_take le]
  split
  · rename_i continues
    have size := scanLine_length on (c :: r)
    rw [if_pos continues] at size
    rw [size, List.drop_take, Nat.add_sub_cancel_left, continuationLength_take]
  · rename_i ends
    rw [scanLine_length, if_neg ends]

theorem closeLength?_take {depth : Nat} (h : closeLength? depth s = some n) :
    closeLength? depth (s.take n) = some n := by
  fun_induction closeLength? depth s generalizing n with
  | case1 => cases h
  | case2 depth r ih | case4 depth r ih =>
    obtain ⟨m, hm, rfl⟩ := Option.map_eq_some_iff.1 h
    simp only [List.take_succ_cons, closeLength?, ih hm]
    rfl
  | case3 r =>
    cases h
    rfl
  | case5 depth c r noOpen noClose noInner ih =>
    obtain ⟨m, hm, rfl⟩ := Option.map_eq_some_iff.1 h
    have front {d : Char} {t : List Char} (h : r.take m = d :: t) : ∃ t', r = d :: t' := by
      cases r with
      | nil => simp at h
      | cons e r =>
        cases m with
        | zero => cases h
        | succ m =>
          cases h
          exact ⟨r, rfl⟩
    rw [List.take_succ_cons, closeLength?, ih hm]
    · rfl
    · intro r' brace dash
      obtain ⟨t, rfl⟩ := front dash
      exact noOpen t brace rfl
    · intro r' zero dash brace
      obtain ⟨t, rfl⟩ := front brace
      exact noClose t zero dash rfl
    · intro depth' r' succ dash brace
      obtain ⟨t, rfl⟩ := front brace
      exact noInner depth' t succ dash rfl

theorem documentation?_take (h : runLength isInlineBlank s < n) :
    documentation? on (s.take n) = documentation? on s := by
  have head : ((s.take n).dropWhile isInlineBlank).head? = (s.dropWhile isInlineBlank).head? := by
    rw [← drop_runLength, ← drop_runLength, runLength_take (Nat.le_of_lt h), List.drop_take,
      head?_take_of_pos (Nat.sub_pos_of_lt h)]
  simp only [documentation?, head]

/-- The mark that closes a comment is no blank. -/
theorem runLength_lt_of_closeLength? {depth : Nat} (h : closeLength? depth s = some n) :
    runLength isInlineBlank s < n := by
  fun_induction closeLength? depth s generalizing n with
  | case1 => cases h
  | case2 depth r ih =>
    obtain ⟨m, hm, rfl⟩ := Option.map_eq_some_iff.1 h
    simp [runLength, isInlineBlank]
  | case3 r =>
    cases h
    simp [runLength, isInlineBlank]
  | case4 depth r ih =>
    obtain ⟨m, hm, rfl⟩ := Option.map_eq_some_iff.1 h
    simp [runLength, isInlineBlank]
  | case5 depth c r noOpen noClose noInner ih =>
    obtain ⟨m, hm, rfl⟩ := Option.map_eq_some_iff.1 h
    have later : (r.takeWhile isInlineBlank).length < m := ih hm
    rw [runLength, List.takeWhile_cons]
    split <;> simp only [List.length_cons, List.length_nil] <;> omega

theorem scanBlock_take {kind : Comment} (h : scanBlock on (c :: r) = .ok (kind, n)) :
    scanBlock on ((c :: r).take n) = .ok (kind, n) := by
  simp only [scanBlock, List.tail_cons] at h
  split at h
  · rename_i m hm
    cases h
    rw [List.take_succ_cons]
    simp only [scanBlock, List.tail_cons, closeLength?_take hm,
      documentation?_take (runLength_lt_of_closeLength? hm)]
  · cases h

theorem startsLineComment_take_symbols (h : runLength isSymbol s ≤ n) :
    startsLineComment (s.take n) = startsLineComment s := by
  have dashes : runLength (· = '-') s ≤ runLength isSymbol s := by
    apply runLength_mono
    intro c dash
    rw [of_decide_eq_true dash]
    rfl
  simp only [startsLineComment]
  rw [runLength_take (Nat.le_trans dashes h), List.drop_take]
  by_cases all : runLength (· = '-') s = n
  · have run : runLength isSymbol s = n := Nat.le_antisymm h (all ▸ dashes)
    have stop : (s.drop n).head?.any isSymbol = false := by
      have head := List.head?_dropWhile_not isSymbol s
      rw [← drop_runLength, run] at head
      cases first : (s.drop n).head? with
      | none => rfl
      | some d =>
        rw [first] at head
        exact head
    rw [all, Nat.sub_self, List.take_zero, stop]
    rfl
  · rw [head?_take_of_pos (by omega)]

theorem dash_of_starts (h : startsLineComment (c :: r) = true) : r.head? = some '-' := by
  have first := dash_of_startsLineComment h
  subst first
  cases r with
  | nil => simp [startsLineComment, runLength] at h
  | cons d r =>
    by_cases dash : d = '-'
    · rw [dash, List.head?_cons]
    · simp [startsLineComment, runLength, dash] at h

end Comment

namespace Pragma

theorem word_take (h : (word s).2 ≤ n) : word (s.take n) = word s := by
  simp only [word] at h ⊢
  rw [runLength_take (by omega), List.drop_take, takeWhile_take]
  change runLength isBlank s + runLength isWordChar _ ≤ n at h
  omega

theorem secondWord_take (h : (secondWord s).2 ≤ n) : secondWord (s.take n) = secondWord s := by
  simp only [secondWord] at h ⊢
  rw [runLength_take (by omega), List.drop_take, takeWhile_take]
  change runLength isInlineBlank s + runLength isWordChar _ ≤ n at h
  omega

/-- The word ends before the closing mark. -/
theorem word_le_of_closes (h : offsetOf? closePragmaMark s = some m) : (word s).2 ≤ m := by
  have hash : s[m]? = some '#' := getElem?_of_offsetOf? h
  have blanks : runLength isBlank s ≤ m := runLength_le_of_stop hash (by decide)
  have chars : runLength isWordChar (s.drop (runLength isBlank s)) ≤ m - runLength isBlank s := by
    refine runLength_le_of_stop (d := '#') ?_ (by decide)
    rw [List.getElem?_drop, Nat.add_sub_cancel' blanks, hash]
  change runLength isBlank s + runLength isWordChar _ ≤ m
  omega

theorem scanWhole_take {kind : Kind} (h : scanWhole kind s = .ok (k, n)) :
    ∃ m, n = m + 2 ∧ (word s).2 ≤ m ∧ scanWhole kind (s.take m) = .ok (k, n) := by
  simp only [scanWhole] at h
  split at h
  · rename_i j closes
    cases h
    have size : closePragmaMark.length = 3 := rfl
    have word := word_le_of_closes closes
    refine ⟨j + 3, by omega, by omega, ?_⟩
    rw [scanWhole, offsetOf?_take closes (by omega) (by omega)]
  · cases h

/-- Only a pragma that opens is told from others by more than its word. -/
theorem shape_congr (same : word r = word s) (h : ∀ p n, shape on s ≠ .opener p n) :
    shape on r = shape on s := by
  simp only [shape, same] at h ⊢
  split
  · rfl
  · rename_i noWhole
    simp only [noWhole] at h
    split
    · rfl
    · rename_i p known
      simp only [known] at h
      split at h <;> exact absurd rfl (h _ _)

theorem pair?_nil (first : List Char) : pair? first [] = none := by
  simp only [pair?]
  split
  · rfl
  · split <;> rfl

theorem shape_opener_take {p : Pragma} (h : shape on s = .opener p n) :
    shape on (s.take n) = .opener p n := by
  simp only [shape] at h ⊢
  split at h
  · cases h
  rename_i noWhole
  split at h
  · cases h
  rename_i p' known
  split at h
  · rename_i q pair
    cases h
    have word' := word_take (s := s) (Nat.le_add_right _ (secondWord (s.drop (word s).2)).2)
    simp only [word', noWhole, known]
    rw [List.drop_take, Nat.add_sub_cancel_left, secondWord_take (Nat.le_refl _), pair]
  · cases h
    have none : (s.take (word s).2).drop (word s).2 = [] := by
      rw [List.drop_take, Nat.sub_self, List.take_zero]
    simp only [word_take (Nat.le_refl _), noWhole, known, none]
    rw [show upperCase (secondWord []).1 = [] from rfl, pair?_nil]

theorem scan_take (h : scan on s = .ok (k, n)) :
    ∃ m, n = m + 2 ∧ scan on (s.take m) = .ok (k, n) := by
  unfold scan at h
  split at h
  · rename_i kind whole
    obtain ⟨m, size, inside, found⟩ := scanWhole_take h
    have same : shape on (s.take m) = .whole kind := by
      rw [shape_congr (word_take inside) (by simp [whole]), whole]
    refine ⟨m, size, ?_⟩
    rw [scan, same]
    exact found
  · rename_i p j opener
    cases h
    refine ⟨j, Nat.add_comm 2 j, ?_⟩
    rw [scan, shape_opener_take opener]
  · rename_i w other
    obtain ⟨m, size, inside, found⟩ := scanWhole_take h
    have same : shape on (s.take m) = .unrecognised w := by
      rw [shape_congr (word_take inside) (by simp [other]), other]
    refine ⟨m, size, ?_⟩
    rw [scan, same]
    exact found

end Pragma

end HaskellLexis
