import HaskellLexis.Proofs.Alone.Comment

/-!
# Names and literals by themselves

Scanners of names, numbers and quoted literals before a text that is cut off
behind what they take.

* `…_take`: a scanner, before a text cut off at `n`;
* `Name.Regular`: the one thing that a text must not hold. A character that may
  begin a module name but stands in no name would leave a dot at the end.
-/

namespace HaskellLexis

variable {on : Extensions} {site : Site} {c : Char} {r s : List Char} {k : Kind} {m n : Nat}

namespace Name

/-- Hashes that are counted close no pragma, and where the text ends none does. -/
theorem hashRun_take (b : Bool) (s : List Char) :
    hashRun b (s.take (hashRun b s)) = hashRun b s := by
  fun_induction hashRun b s with
  | case1 => rfl
  | case2 r noClose ih =>
    have noClose' : ¬(b && ['-', '}'].isPrefixOf (r.take (hashRun b r))) = true := by
      intro closes
      rw [Bool.and_eq_true] at closes
      exact noClose (Bool.and_eq_true_iff.2 ⟨closes.1, isPrefixOf_of_take closes.2⟩)
    rw [List.take_succ_cons, hashRun, if_neg noClose', ih]
  | case3 => rfl

theorem hashLength_take (site : Site) (s : List Char) :
    hashLength site (s.take (hashLength site s)) = hashLength site s := by
  simp only [hashLength]
  split
  · exact hashRun_take _ s
  · rfl

theorem hashedWordLength_take (site : Site) (s : List Char) :
    hashedWordLength site (s.take (hashedWordLength site s)) = hashedWordLength site s := by
  simp only [hashedWordLength]
  rw [wordLength_take (Nat.le_add_right _ _), List.drop_take, Nat.add_sub_cancel_left,
    hashLength_take]

theorem scanLower_take (site : Site) (c : Char) (r : List Char) :
    scanLower site c (r.take (scanLower site c r).2) = scanLower site c r := by
  have size : (scanLower site c r).2 = hashedWordLength site r := by
    simp only [scanLower]
    split
    · rfl
    · split <;> rfl
  rw [size]
  simp only [scanLower, hashedWordLength_take, List.take_take, Nat.min_self]

/-- Every character that may begin a module name may also stand in it. -/
def Regular (s : List Char) : Prop := ∀ c ∈ s, startsUpper c = true → isNameChar c = true

theorem isNameChar_of_startsLower (h : startsLower c = true) : isNameChar c = true := by
  simp only [startsLower, Bool.and_eq_true] at h
  exact isNameChar_of_startsName h.1

theorem wordLength_pos (h : isNameChar c = true) (r : List Char) : 0 < wordLength (c :: r) := by
  simp [wordLength, runLength, h]

theorem scanQualified_take (site : Site) (q : Bool) (regular : Regular s) :
    scanQualified site q (s.take (scanQualified site q s).2) = scanQualified site q s := by
  have stops (q : Bool) (t : List Char) :
      scanQualified site q (('.' :: t).take (hashLength site ('.' :: t))) =
        (if q then qconid else conid, hashLength site ('.' :: t)) := by
    rw [hashLength_of_ne (by decide), List.take_zero, scanQualified_nil]
  fun_induction scanQualified site q s with
  | case1 q d r upper n kind m rest ih =>
    have pos : 0 < n := wordLength_pos (regular d (by simp) upper) r
    have inner : Regular ((d :: r).drop n) := fun c hc =>
      regular c (List.mem_cons_of_mem _ (List.mem_of_mem_drop hc))
    have ih' := ih inner
    rw [rest] at ih'
    obtain ⟨j, hj⟩ : ∃ j, n + m = j + 1 := ⟨n + m - 1, by omega⟩
    have word : wordLength ((d :: r).take (n + m)) = n := wordLength_take (Nat.le_add_right n m)
    have behind : ((d :: r).take (n + m)).drop n = ((d :: r).drop n).take m := by
      rw [List.drop_take, Nat.add_sub_cancel_left]
    rw [hj, List.take_succ_cons] at word behind
    rw [show 1 + n + m = j + 1 + 1 by omega, List.take_succ_cons, List.take_succ_cons,
      scanQualified, if_pos upper]
    simp only [word, behind, ih']
    rw [Nat.add_assoc, hj, Nat.add_comm 1]
  | case2 q d r noUpper lower n keyword stop => exact stops q (d :: r)
  | case3 q d r noUpper lower n keyword =>
    have pos : 0 < wordLength (d :: r) := wordLength_pos (isNameChar_of_startsLower lower) r
    obtain ⟨j, hj⟩ : ∃ j, n = j + 1 := ⟨n - 1, by simp only [n, hashedWordLength]; omega⟩
    have word : hashedWordLength site ((d :: r).take n) = n := hashedWordLength_take site (d :: r)
    have name : ((d :: r).take n).take n = (d :: r).take n := by rw [List.take_take, Nat.min_self]
    rw [show 1 + n = n + 1 from Nat.add_comm 1 n, List.take_succ_cons]
    rw [hj, List.take_succ_cons] at word name ⊢
    rw [scanQualified, if_neg noUpper, if_pos lower]
    simp only [word, name]
    rw [hj, List.take_succ_cons] at keyword
    rw [if_neg keyword, Nat.add_comm 1]
  | case4 q d r noUpper noLower symbol run listed stop => exact stops q (d :: r)
  | case5 q d r noUpper noLower symbol run listed =>
    obtain ⟨j, hj⟩ : ∃ j, run.length = j + 1 := by
      refine ⟨(r.takeWhile isSymbol).length, ?_⟩
      simp only [run, List.takeWhile_cons_of_pos symbol, List.length_cons]
    have run' : ((d :: r).take run.length).takeWhile isSymbol = run :=
      takeWhile_take (Nat.le_refl _)
    rw [hj, List.take_succ_cons] at run'
    rw [hj, show 1 + (j + 1) = j + 1 + 1 from Nat.add_comm 1 _, List.take_succ_cons,
      List.take_succ_cons, scanQualified, if_neg noUpper, if_neg noLower, if_pos symbol]
    simp only [run']
    rw [if_neg listed, hj, Nat.add_comm 1]
  | case6 q d r noUpper noLower noSymbol stop => exact stops q (d :: r)
  | case7 q s stop other =>
    change scanQualified site q (s.take (hashLength site s)) = stop
    rw [scanQualified, hashLength_take]
    · rfl
    · intro d r front
      obtain ⟨t, whole⟩ := List.take_prefix (hashLength site s) s
      rw [front] at whole
      exact other d (r ++ t) whole.symm

theorem scan_take (site : Site) (c : Char) (regular : Regular r) :
    scan site c (r.take (scan site c r).2) = scan site c r := by
  unfold scan
  split
  · have word := wordLength_le r
    have inner : Regular (r.drop (wordLength r)) := fun c hc => regular c (List.mem_of_mem_drop hc)
    simp only [scanUpper]
    rw [wordLength_take (Nat.le_add_right _ _), List.drop_take, Nat.add_sub_cancel_left,
      scanQualified_take site false inner]
  · exact scanLower_take site c r

end Name

namespace Number

variable {digit : Char → Bool} {underscores : Bool}

theorem moreDigits_take (h : moreDigits digit underscores s ≤ n) :
    moreDigits digit underscores (s.take n) = moreDigits digit underscores s := by
  induction s generalizing n with
  | nil => rw [List.take_nil]
  | cons c r ih =>
    cases n with
    | zero => exact (Nat.le_zero.1 h).symm
    | succ n =>
      simp only [List.take_succ_cons, moreDigits] at h ⊢
      by_cases isDigit : digit c = true
      · rw [if_pos isDigit] at h
        rw [if_pos isDigit, if_pos isDigit, ih (Nat.le_of_succ_le_succ h)]
      · rw [if_neg isDigit] at h
        rw [if_neg isDigit, if_neg isDigit]
        by_cases gap : (underscores && c = '_') = true
        · rw [if_pos gap] at h
          rw [if_pos gap, if_pos gap, ih (by split at h <;> omega)]
        · rw [if_neg gap, if_neg gap]

theorem digitRun_take (h : digitRun digit underscores s ≤ n) :
    digitRun digit underscores (s.take n) = digitRun digit underscores s := by
  cases s with
  | nil => rw [List.take_nil]
  | cons c r =>
    cases n with
    | zero => exact (Nat.le_zero.1 h).symm
    | succ n =>
      simp only [List.take_succ_cons, digitRun] at h ⊢
      by_cases isDigit : digit c = true
      · rw [if_pos isDigit] at h
        rw [if_pos isDigit, if_pos isDigit, moreDigits_take (Nat.le_of_succ_le_succ h)]
      · rw [if_neg isDigit, if_neg isDigit]

theorem fractionLength_take (h : fractionLength underscores s ≤ n) :
    fractionLength underscores (s.take n) = fractionLength underscores s := by
  cases s with
  | nil => rw [List.take_nil]
  | cons c r =>
    cases n with
    | zero => exact (Nat.le_zero.1 h).symm
    | succ n =>
      rw [List.take_succ_cons]
      by_cases point : c = '.'
      · subst point
        simp only [fractionLength] at h ⊢
        rw [digitRun_take (by split at h <;> omega)]
      · rw [fractionLength_of_ne underscores point, fractionLength_of_ne underscores point]

theorem exponentLength_take (h : exponentLength underscores s ≤ n) :
    exponentLength underscores (s.take n) = exponentLength underscores s := by
  cases s with
  | nil => rw [List.take_nil]
  | cons e r =>
    cases n with
    | zero => exact (Nat.le_zero.1 h).symm
    | succ n =>
      simp only [List.take_succ_cons, exponentLength] at h ⊢
      by_cases letter : (e = 'e' || e = 'E') = true
      · rw [if_pos letter] at h
        rw [if_pos letter, if_pos letter]
        cases n with
        | zero =>
          have none : digitRun isDigit underscores (r.drop ((r.take 1).countP isSign)) = 0 := by
            split at h <;> omega
          rw [none, List.take_zero, List.take_nil, List.drop_nil, digitRun]
        | succ n =>
          have first : (r.take (n + 1)).take 1 = r.take 1 := by
            rw [List.take_take, Nat.min_eq_left (Nat.succ_le_succ (Nat.zero_le n))]
          rw [first, List.drop_take, digitRun_take (by split at h <;> omega)]
      · rw [if_neg letter, if_neg letter]

theorem hashCount_take (h : hashCount on s ≤ n) : hashCount on (s.take n) = hashCount on s := by
  simp only [hashCount] at h ⊢
  by_cases magic : on .magicHash = true
  · rw [if_pos magic] at h
    rw [if_pos magic, if_pos magic, List.take_take, Nat.min_comm, ← List.take_take,
      runLength_take h]
  · rw [if_neg magic, if_neg magic]

theorem radixLength_take (h : radixLength on c r ≠ 0 → 1 + radixLength on c r ≤ n) :
    radixLength on c (r.take n) = radixLength on c r := by
  cases r with
  | nil => rw [List.take_nil]
  | cons x s =>
    cases n with
    | zero =>
      have none : radixLength on c (x :: s) = 0 := by omega
      rw [none, List.take_zero, radixLength]
    | succ n =>
      rw [List.take_succ_cons]
      simp only [radixLength] at h ⊢
      by_cases zero : c = '0'
      · simp only [if_pos zero] at h ⊢
        cases known : radix? on x with
        | none => rfl
        | some digit =>
          simp only [known] at h
          have inside : digitRun digit (on .numericUnderscores) s ≤ n := by omega
          exact digitRun_take inside
      · simp only [if_neg zero]

theorem decimal_take (h : (decimal on r).2 ≤ n) : decimal on (r.take n) = decimal on r := by
  simp only [decimal] at h ⊢
  rw [moreDigits_take (by omega), List.drop_take, fractionLength_take (by omega), List.drop_take,
    exponentLength_take (by omega)]

theorem body_take (h : (body on c r).2 ≤ n) : body on c (r.take n) = body on c r := by
  rw [body_eq] at h
  rw [body_eq, body_eq]
  split at h
  · rename_i radix
    rw [radixLength_take (fun _ => h), if_pos radix, if_pos radix]
  · rename_i noRadix
    rw [radixLength_take (fun radix => absurd radix noRadix), if_neg noRadix, if_neg noRadix,
      decimal_take h]

theorem scan_take (on : Extensions) (c : Char) (r : List Char) :
    scan on c (r.take (scan on c r).2) = scan on c r := by
  simp only [scan]
  rw [body_take (Nat.le_add_right _ _), List.drop_take, Nat.add_sub_cancel_left,
    hashCount_take (Nat.le_refl _)]

end Number

namespace Literal

theorem numericEscape_take {digit : Char → Bool} {base : Nat}
    (h : numericEscape digit base s = .ok m) (inside : m ≤ n) :
    numericEscape digit base (s.take n) = .ok m := by
  obtain ⟨-, -, -, digits⟩ := numericEscape_eq_ok_iff.1 h
  rw [← digits] at inside
  simp only [numericEscape] at h ⊢
  rw [takeWhile_take inside]
  exact h

theorem numericEscape_pos {digit : Char → Bool} {base : Nat}
    (h : numericEscape digit base s = .ok m) : 0 < m := by
  obtain ⟨some, -, -, rfl⟩ := numericEscape_eq_ok_iff.1 h
  exact List.length_pos_iff.2 some

theorem escapeLength_pos {b : Bool} (h : escapeLength b s = .ok m) : 0 < m := by
  cases s with
  | nil => cases h
  | cons c r =>
    simp only [escapeLength] at h
    split at h
    · cases h
      exact Nat.one_pos
    split at h
    · split at h <;> cases h
      exact Nat.two_pos
    split at h
    · exact numericEscape_pos h
    split at h
    · obtain ⟨j, -, rfl⟩ := ok_of_map h
      exact Nat.succ_pos j
    split at h
    · obtain ⟨j, -, rfl⟩ := ok_of_map h
      exact Nat.succ_pos j
    split at h <;> cases h
    rename_i name found
    have table : ∀ name ∈ controlNames, 0 < name.length := by decide
    exact table name (List.mem_of_find?_eq_some found)

theorem escapeLength_take {b : Bool} (h : escapeLength b s = .ok m) (inside : m ≤ n) :
    escapeLength b (s.take n) = .ok m := by
  have pos := escapeLength_pos h
  obtain ⟨n, rfl⟩ : ∃ n', n = n' + 1 := ⟨n - 1, by omega⟩
  cases s with
  | nil => cases h
  | cons c r =>
    rw [List.take_succ_cons]
    simp only [escapeLength] at h ⊢
    split at h
    · rename_i short
      rw [if_pos short]
      exact h
    rename_i noShort
    rw [if_neg noShort]
    split at h
    · rename_i caret
      split at h <;> cases h
      rename_i control
      rw [if_pos caret, head?_take_of_pos (by omega), if_pos control]
    rename_i noCaret
    rw [if_neg noCaret]
    split at h
    · rename_i digit
      rw [if_pos digit, ← List.take_succ_cons]
      exact numericEscape_take h inside
    rename_i noDigit
    rw [if_neg noDigit]
    split at h
    · rename_i hex
      obtain ⟨j, hj, rfl⟩ := ok_of_map h
      rw [if_pos hex, numericEscape_take hj (by omega)]
      rfl
    rename_i noHex
    rw [if_neg noHex]
    split at h
    · rename_i octal
      obtain ⟨j, hj, rfl⟩ := ok_of_map h
      rw [if_pos octal, numericEscape_take hj (by omega)]
      rfl
    rename_i noOctal
    rw [if_neg noOctal]
    split at h <;> cases h
    rename_i name found
    have isName : name.isPrefixOf (c :: r) = true := by simpa using List.find?_some found
    have found' := find?_of_imp (q := (·.isPrefixOf ((c :: r).take (n + 1)))) found
      (isPrefixOf_take isName inside) (fun _ cut => isPrefixOf_of_take cut)
    rw [List.take_succ_cons] at found'
    rw [found']

theorem gapLength_take (h : gapLength s = .ok m) (inside : m ≤ n) :
    gapLength (s.take n) = .ok m := by
  simp only [gapLength] at h ⊢
  split at h
  · rename_i mark
    cases h
    rw [runLength_take (by omega), List.drop_take, head?_take_of_pos (by omega), if_pos mark]
  · cases h

theorem gapLength_pos (h : gapLength s = .ok m) : 0 < m := by
  simp only [gapLength] at h
  split at h <;> cases h
  exact Nat.succ_pos _

theorem backslashLength_take (h : backslashLength s = .ok m) (inside : m ≤ n) :
    backslashLength (s.take n) = .ok m := by
  unfold backslashLength at h ⊢
  split at h
  · rename_i blank
    have pos := gapLength_pos h
    rw [head?_take_of_pos (by omega), if_pos blank]
    exact gapLength_take h inside
  · rename_i noBlank
    have pos := escapeLength_pos h
    rw [head?_take_of_pos (by omega), if_neg noBlank]
    exact escapeLength_take h inside

theorem lt_stringLength {skip : Nat} (h : stringLength skip s = .ok m) : skip < m := by
  fun_induction stringLength skip s generalizing m with
  | case1 | case5 => cases h
  | case2 skip c r ih =>
    obtain ⟨j, hj, rfl⟩ := ok_of_map h
    exact Nat.succ_lt_succ (ih hj)
  | case3 =>
    cases h
    exact Nat.one_pos
  | case4 r noQuote ih =>
    obtain ⟨i, -, hr⟩ := ok_of_bind h
    obtain ⟨j, -, rfl⟩ := ok_of_map hr
    exact Nat.succ_pos j
  | case6 c r noQuote noBackslash noBreak ih =>
    obtain ⟨j, -, rfl⟩ := ok_of_map h
    exact Nat.succ_pos j

theorem stringLength_take {skip : Nat} (h : stringLength skip s = .ok m) (inside : m ≤ n) :
    stringLength skip (s.take n) = .ok m := by
  fun_induction stringLength skip s generalizing m n with
  | case1 | case5 => cases h
  | case2 skip c r ih =>
    obtain ⟨j, hj, rfl⟩ := ok_of_map h
    obtain ⟨n, rfl⟩ : ∃ n', n = n' + 1 := ⟨n - 1, by omega⟩
    rw [List.take_succ_cons, stringLength, ih hj (Nat.le_of_succ_le_succ inside)]
    rfl
  | case3 r =>
    cases h
    obtain ⟨n, rfl⟩ : ∃ n', n = n' + 1 := ⟨n - 1, by omega⟩
    rfl
  | case4 r noQuote ih =>
    obtain ⟨i, back, hr⟩ := ok_of_bind h
    obtain ⟨j, hj, rfl⟩ := ok_of_map hr
    obtain ⟨n, rfl⟩ : ∃ n', n = n' + 1 := ⟨n - 1, by omega⟩
    have within := lt_stringLength hj
    rw [List.take_succ_cons, stringLength, if_neg noQuote, if_pos rfl,
      backslashLength_take back (by omega)]
    simp only [bind, Except.bind, ih i hj (Nat.le_of_succ_le_succ inside)]
    rfl
  | case6 c r noQuote noBackslash noBreak ih =>
    obtain ⟨j, hj, rfl⟩ := ok_of_map h
    obtain ⟨n, rfl⟩ : ∃ n', n = n' + 1 := ⟨n - 1, by omega⟩
    rw [List.take_succ_cons, stringLength, if_neg noQuote, if_neg noBackslash, if_neg noBreak,
      ih hj (Nat.le_of_succ_le_succ inside)]
    rfl

theorem hashed_take (h : 0 < n) (s : List Char) : hashed on (s.take n) = hashed on s := by
  simp only [hashed, head?_take_of_pos h]

theorem hashed_nil : hashed on [] = false := by simp [hashed]

theorem scanString_take (h : scanString on r = .ok (k, n)) :
    scanString on (r.take n) = .ok (k, n) := by
  obtain ⟨m, hm, found⟩ := ok_of_bind h
  split at found
  · rename_i hash
    cases found
    rw [scanString, stringLength_take hm (Nat.le_succ m)]
    simp only [bind, Except.bind]
    rw [List.drop_take, hashed_take (by omega), if_pos hash]
    rfl
  · cases found
    rw [scanString, stringLength_take hm (Nat.le_refl _)]
    simp only [bind, Except.bind]
    rw [List.drop_take, Nat.sub_self, List.take_zero, hashed_nil]
    rfl

theorem charBody_take_some (h : charBody r = .ok (some m)) (inside : m ≤ n) :
    charBody (r.take n) = .ok (some m) := by
  cases r with
  | nil => cases h
  | cons c s =>
    by_cases backslash : c = '\\'
    · subst backslash
      obtain ⟨j, hj, same⟩ := ok_of_map h
      cases same
      obtain ⟨n, rfl⟩ : ∃ n', n = n' + 1 := ⟨n - 1, by omega⟩
      rw [List.take_succ_cons, charBody, escapeLength_take hj (Nat.le_of_succ_le_succ inside)]
      rfl
    · rw [charBody_cons backslash] at h
      obtain ⟨n, rfl⟩ : ∃ n', n = n' + 1 := by
        split at h <;> cases h
        exact ⟨n - 1, by omega⟩
      rw [List.take_succ_cons, charBody_cons backslash, h]

/-- A quoted name has no more to it than its quotes. -/
theorem scanQuote_of_quotedName (h : quotedName on r = .ok (k, n)) :
    scanQuote on (r.take n) = .ok (k, n) := by
  simp only [quotedName] at h
  split at h
  · rename_i quotes
    split at h <;> cases h
    · rename_i second
      obtain ⟨t, rfl⟩ := List.head?_eq_some_iff.1 second
      simp [scanQuote, charBody, quotedName, quotes, bind, Except.bind]
    · simp [scanQuote, charBody, quotedName, quotes, bind, Except.bind]
  · cases h

theorem scanQuote_take (h : scanQuote on r = .ok (k, n)) :
    scanQuote on (r.take n) = .ok (k, n) := by
  obtain ⟨body, hb, found⟩ := ok_of_bind h
  split at found
  · exact scanQuote_of_quotedName found
  · rename_i m
    split at found
    · rename_i quote
      have body' (n : Nat) (inside : m < n) : charBody (r.take n) = .ok (some m) :=
        charBody_take_some hb (Nat.le_of_lt inside)
      have first (n : Nat) (inside : m < n) : (r.take n).head? = r.head? :=
        head?_take_of_pos (Nat.lt_of_le_of_lt (Nat.zero_le m) inside) r
      have quote' (n : Nat) (inside : m < n) : ((r.take n).drop m).head? = some '\'' := by
        rw [List.drop_take, head?_take_of_pos (by omega), quote]
      split at found
      · cases found
      · rename_i noControl
        split at found
        · rename_i hash
          cases found
          have within : m < m + 2 := by omega
          simp only [scanQuote, body' _ within, bind, Except.bind, if_pos (quote' _ within),
            first _ within, noControl]
          rw [List.drop_take, hashed_take (by omega), if_pos hash]
        · cases found
          have within : m < m + 1 := by omega
          simp only [scanQuote, body' _ within, bind, Except.bind, if_pos (quote' _ within),
            first _ within, noControl]
          rw [List.drop_take, Nat.sub_self, List.take_zero, hashed_nil]
          rfl
    · exact scanQuote_of_quotedName found

end Literal

end HaskellLexis
