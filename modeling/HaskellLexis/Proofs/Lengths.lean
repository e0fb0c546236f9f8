import HaskellLexis.Proofs.Kinds

/-!
# Lengths of lexemes

Every scanner looks ahead, and says in the end how much of the text belongs to
the lexeme. It never says more than there is: wherever the text breaks off, a
mark, a digit or a quote that is counted has been seen.
-/

namespace HaskellLexis

variable {on : Extensions} {site : Site} {c : Char} {r s : List Char} {k : Kind} {n : Nat}

theorem runLength_le (p : Char → Bool) (s : List Char) : runLength p s ≤ s.length :=
  (List.takeWhile_prefix p).length_le

theorem wordLength_le (s : List Char) : wordLength s ≤ s.length := runLength_le isNameChar s

theorem isPrefixOf_length {pat : List Char} (h : pat.isPrefixOf s = true) :
    pat.length ≤ s.length :=
  (List.isPrefixOf_iff_prefix.1 h).length_le

theorem offsetOf?_le {pat : List Char} (h : offsetOf? pat s = some n) :
    n + pat.length ≤ s.length := by
  induction s generalizing n with
  | nil => cases h
  | cons c r ih =>
    simp only [offsetOf?] at h
    split at h
    · rename_i here
      cases h
      rw [Nat.zero_add]
      exact isPrefixOf_length here
    · obtain ⟨m, later, rfl⟩ := Option.map_eq_some_iff.1 h
      have := ih later
      simp only [List.length_cons]
      omega

namespace Comment

theorem lineLength_le (s : List Char) : lineLength s ≤ s.length := runLength_le _ s

theorem continuationLength_le (on : Extensions) (s : List Char) :
    continuationLength on s ≤ s.length := by
  fun_induction continuationLength on s with
  | case1 r blanks body _ n ih =>
    have hb : blanks ≤ r.length := runLength_le _ r
    have hn : n ≤ body.length := lineLength_le body
    have hbody : body.length = r.length - blanks := List.length_drop
    rw [List.length_drop] at ih
    rw [List.length_cons]
    omega
  | case2 | case3 => exact Nat.zero_le _

theorem scanLine_length (on : Extensions) (r : List Char) :
    (scanLine on r).2 = if (scanLine on r).1.continues then
      lineLength r + continuationLength on (r.drop (lineLength r)) else lineLength r := rfl

theorem scanLine_le (on : Extensions) (r : List Char) : (scanLine on r).2 ≤ r.length := by
  have hn := lineLength_le r
  rw [scanLine_length]
  split
  · have hm := continuationLength_le on (r.drop (lineLength r))
    rw [List.length_drop] at hm
    omega
  · exact hn

theorem closeLength?_le {depth : Nat} (h : closeLength? depth s = some n) : n ≤ s.length := by
  fun_induction closeLength? depth s generalizing n with
  | case1 => cases h
  | case2 depth r ih | case4 depth r ih =>
    obtain ⟨m, hm, rfl⟩ := Option.map_eq_some_iff.1 h
    have := ih hm
    simp only [List.length_cons]
    omega
  | case3 r =>
    cases h
    simp only [List.length_cons]
    omega
  | case5 depth c r _ _ _ ih =>
    obtain ⟨m, hm, rfl⟩ := Option.map_eq_some_iff.1 h
    have := ih hm
    simp only [List.length_cons]
    omega

theorem scanBlock_le {kind : Comment} (h : scanBlock on (c :: r) = .ok (kind, n)) :
    n ≤ r.length + 1 := by
  simp only [scanBlock, List.tail_cons] at h
  split at h
  · rename_i m hm
    cases h
    exact Nat.succ_le_succ (closeLength?_le hm)
  · cases h

end Comment

namespace Pragma

theorem word_le (s : List Char) : (word s).2 ≤ s.length := by
  have blanks := runLength_le isBlank s
  have rest := runLength_le isWordChar (s.drop (runLength isBlank s))
  rw [List.length_drop] at rest
  change runLength isBlank s + runLength isWordChar (s.drop (runLength isBlank s)) ≤ s.length
  omega

theorem secondWord_le (s : List Char) : (secondWord s).2 ≤ s.length := by
  have blanks := runLength_le isInlineBlank s
  have rest := runLength_le isWordChar (s.drop (runLength isInlineBlank s))
  rw [List.length_drop] at rest
  change runLength isInlineBlank s + runLength isWordChar (s.drop (runLength isInlineBlank s)) ≤ _
  omega

theorem opener_le {p : Pragma} (h : shape on s = .opener p n) : n ≤ s.length := by
  have hw := word_le s
  have hs := secondWord_le (s.drop (word s).2)
  rw [List.length_drop] at hs
  simp only [shape] at h
  split at h
  · cases h
  · split at h
    · cases h
    · split at h <;> cases h <;> omega

theorem scanWhole_le {kind : Kind} (h : scanWhole kind s = .ok (k, n)) : n ≤ s.length + 2 := by
  simp only [scanWhole] at h
  split at h
  · rename_i m hm
    cases h
    have : m + 3 ≤ s.length := offsetOf?_le hm
    omega
  · cases h

theorem scan_le (h : scan on s = .ok (k, n)) : n ≤ s.length + 2 := by
  unfold scan at h
  split at h
  · exact scanWhole_le h
  · rename_i p m hs
    cases h
    have := opener_le hs
    omega
  · exact scanWhole_le h

end Pragma

namespace Quotation

theorem quoter?_le {q b : Bool} (h : quoter? q s = some (b, n)) : n ≤ s.length := by
  fun_induction quoter? q s generalizing n with
  | case1 | case3 | case5 | case6 => cases h
  | case2 =>
    rename_i c r _ _ t dot ih
    obtain ⟨⟨b', m⟩, hm, same⟩ := Option.map_eq_some_iff.1 h
    cases same
    have inner := ih hm
    have outer := congrArg List.length dot
    simp only [List.length_drop, List.length_cons] at outer ⊢
    omega
  | case4 =>
    rename_i bar
    cases h
    rw [List.head?_drop] at bar
    exact (List.getElem?_eq_some_iff.1 bar).1

theorem scanQuasi?_le {q : Quotation} (h : scanQuasi? s = some (.ok (q, n))) : n ≤ s.length := by
  obtain ⟨⟨b, m⟩, hm, found⟩ := Option.map_eq_some_iff.1 h
  have hq := quoter?_le hm
  simp only at found
  split at found
  · rename_i j hj
    cases found
    have : j + 2 ≤ (s.drop m).length := offsetOf?_le hj
    rw [List.length_drop] at this
    omega
  · cases found

end Quotation

namespace Bracket

theorem scanRound_le (on : Extensions) (r : List Char) : (scanRound on r).2 ≤ r.length := by
  cases r with
  | nil => simp [scanRound]
  | cons c r =>
    simp only [scanRound]
    split
    · simp
    · split <;> simp

theorem scanSquare_le (h : scanSquare on r = .ok (k, n)) : n ≤ r.length := by
  simp only [scanSquare] at h
  split at h
  · rename_i mark q opener
    cases h
    split at opener
    · have isMark : mark.isPrefixOf r = true := by simpa using List.find?_some opener
      exact isPrefixOf_length isMark
    · cases opener
  · split at h
    · rename_i result quasi
      obtain ⟨⟨q, m⟩, rfl, same⟩ := ok_of_map h
      cases same
      split at quasi
      · exact Quotation.scanQuasi?_le quasi
      · cases quasi
    · split at h <;> cases h
      · rename_i colon
        cases r with
        | nil => simp at colon
        | cons c r => simp
      · exact Nat.zero_le _

theorem scan_le {p : Punctuation} (h : scan on c p r = .ok (k, n)) : n ≤ r.length := by
  unfold scan at h
  split at h
  · have same : (scanRound on r).2 = n := congrArg Prod.snd (Except.ok.inj h)
    exact same ▸ scanRound_le on r
  · split at h
    · exact scanSquare_le h
    · cases h
      exact Nat.zero_le _

end Bracket

namespace Name

theorem hashRun_of_ne (b : Bool) (h : c ≠ '#') (r : List Char) : hashRun b (c :: r) = 0 := by
  unfold hashRun
  split
  · rename_i same
    cases same
    exact absurd rfl h
  · rfl

theorem hashLength_of_ne (h : c ≠ '#') (site : Site) (r : List Char) :
    hashLength site (c :: r) = 0 := by
  rw [hashLength, hashRun_of_ne _ h, ite_self]

/-- What a dot behind a name does, by the character `d` behind the dot. -/
theorem scanQualified_dot (site : Site) (q : Bool) (d : Char) (r : List Char) :
    scanQualified site q ('.' :: d :: r) =
      let n := hashedWordLength site (d :: r)
      let run := (d :: r).takeWhile isSymbol
      let more := scanQualified site true ((d :: r).drop (wordLength (d :: r)))
      let stop := (if q then qconid else conid, 0)
      if startsUpper d then (more.1, 1 + wordLength (d :: r) + more.2)
      else if startsLower d then
        if (Keyword.ofWord? site.on ((d :: r).take n)).isSome then stop else (qvarid, 1 + n)
      else if isSymbol d then
        if run ≠ ['.'] && (ReservedOperator.listed? run).isSome then stop
        else (if d = ':' then qconsym else qvarsym, 1 + run.length)
      else stop := by
  rw [scanQualified, hashLength_of_ne (by decide)]

theorem scanQualified_of_ne (site : Site) (q : Bool) (other : ∀ d r, s ≠ '.' :: d :: r) :
    scanQualified site q s = (if q then qconid else conid, hashLength site s) := by
  rw [scanQualified]
  exact other

/-- The search along a qualified name starts again behind each word. -/
theorem qualified_induction {P : List Char → Prop}
    (dot : ∀ d r, P ((d :: r).drop (wordLength (d :: r))) → P ('.' :: d :: r))
    (other : ∀ s, (∀ d r, s ≠ '.' :: d :: r) → P s) (s : List Char) : P s := by
  generalize hn : s.length = n
  induction n using Nat.strongRecOn generalizing s with
  | ind n ih =>
    by_cases front : ∃ d r, s = '.' :: d :: r
    · obtain ⟨d, r, rfl⟩ := front
      apply dot
      refine ih _ ?_ _ rfl
      rw [← hn, List.length_drop]
      simp only [List.length_cons]
      omega
    · exact other s fun d r same => front ⟨d, r, same⟩

theorem scanQualified_nil (site : Site) (q : Bool) :
    scanQualified site q [] = (if q then qconid else conid, 0) := by
  have other (d : Char) (r : List Char) : [] ≠ '.' :: d :: r := (List.cons_ne_nil _ _).symm
  rw [scanQualified_of_ne site q other]
  simp only [hashLength, hashRun, ite_self]

theorem hashRun_le (b : Bool) (s : List Char) : hashRun b s ≤ s.length := by
  fun_induction hashRun b s with
  | case1 | case3 => exact Nat.zero_le _
  | case2 r _ ih => exact Nat.succ_le_succ ih

theorem hashLength_le (site : Site) (s : List Char) : hashLength site s ≤ s.length := by
  unfold hashLength
  split
  · exact hashRun_le _ s
  · exact Nat.zero_le _

theorem hashedWordLength_le (site : Site) (s : List Char) :
    hashedWordLength site s ≤ s.length := by
  have hw := wordLength_le s
  have hh := hashLength_le site (s.drop (wordLength s))
  rw [List.length_drop] at hh
  simp only [hashedWordLength]
  omega

theorem scanLower_le (site : Site) (c : Char) (r : List Char) :
    (scanLower site c r).2 ≤ r.length := by
  have := hashedWordLength_le site r
  simp only [scanLower]
  split
  · exact this
  · split <;> exact this

theorem scanQualified_le (site : Site) (q : Bool) (s : List Char) :
    (scanQualified site q s).2 ≤ s.length := by
  fun_induction scanQualified site q s with
  | case1 _ d r _ n kind m rest ih =>
    have hn := wordLength_le (d :: r)
    rw [rest, List.length_drop] at ih
    simp only [List.length_cons] at hn ih ⊢
    omega
  | case2 | case4 | case6 | case7 => exact hashLength_le site _
  | case3 _ d r _ _ n _ =>
    have hn : n ≤ (d :: r).length := hashedWordLength_le site (d :: r)
    simp only [List.length_cons] at hn ⊢
    omega
  | case5 _ d r _ _ _ run _ =>
    have hn : run.length ≤ (d :: r).length := runLength_le isSymbol (d :: r)
    simp only [List.length_cons] at hn ⊢
    omega

theorem scan_le (site : Site) (c : Char) (r : List Char) : (scan site c r).2 ≤ r.length := by
  unfold scan
  split
  · have hw := wordLength_le r
    have hm := scanQualified_le site false (r.drop (wordLength r))
    rw [List.length_drop] at hm
    simp only [scanUpper]
    omega
  · exact scanLower_le site c r

end Name

namespace Number

variable {digit : Char → Bool} {underscores : Bool}

theorem moreDigits_le (digit : Char → Bool) (underscores : Bool) (s : List Char) :
    moreDigits digit underscores s ≤ s.length := by
  fun_induction moreDigits digit underscores s with
  | case1 | case3 | case5 => exact Nat.zero_le _
  | case2 c r _ ih => exact Nat.succ_le_succ ih
  | case4 c r _ _ n hn ih =>
    rw [hn] at ih
    simpa using ih

theorem digitRun_le (digit : Char → Bool) (underscores : Bool) (s : List Char) :
    digitRun digit underscores s ≤ s.length := by
  cases s with
  | nil => exact Nat.zero_le _
  | cons c r =>
    have := moreDigits_le digit underscores r
    simp only [digitRun, List.length_cons]
    split <;> omega

theorem fractionLength_le (underscores : Bool) (s : List Char) :
    fractionLength underscores s ≤ s.length := by
  unfold fractionLength
  split
  · rename_i r
    have := digitRun_le isDigit underscores r
    split <;> simp only [List.length_cons] <;> omega
  · exact Nat.zero_le _

theorem exponentLength_le (underscores : Bool) (s : List Char) :
    exponentLength underscores s ≤ s.length := by
  cases s with
  | nil => exact Nat.zero_le _
  | cons e r =>
    have sign : (r.take 1).countP isSign ≤ r.length := by
      have := List.countP_le_length (p := isSign) (l := r.take 1)
      rw [List.length_take] at this
      omega
    have := digitRun_le isDigit underscores (r.drop ((r.take 1).countP isSign))
    rw [List.length_drop] at this
    simp only [exponentLength, List.length_cons]
    split
    · split <;> omega
    · exact Nat.zero_le _

theorem hashCount_le (on : Extensions) (s : List Char) : hashCount on s ≤ s.length := by
  unfold hashCount
  split
  · have := runLength_le (· = '#') (s.take 2)
    rw [List.length_take] at this
    omega
  · exact Nat.zero_le _

/-- The digits behind the radix letter that follows the first digit `c`. -/
def radixLength (on : Extensions) (c : Char) : List Char → Nat
  | x :: s =>
    if c = '0' then
      match radix? on x with
      | some digit => digitRun digit (on .numericUnderscores) s
      | none => 0
    else 0
  | [] => 0

/-- A literal in decimal, after its first digit. -/
def decimal (on : Extensions) (r : List Char) : Bool × Nat :=
  let n := moreDigits isDigit (on .numericUnderscores) r
  let fraction := fractionLength (on .numericUnderscores) (r.drop n)
  let exponent := exponentLength (on .numericUnderscores) (r.drop (n + fraction))
  (fraction ≠ 0 || exponent ≠ 0, n + fraction + exponent)

theorem body_eq (on : Extensions) (c : Char) (r : List Char) :
    body on c r =
      if radixLength on c r ≠ 0 then (false, 1 + radixLength on c r) else decimal on r := by
  cases r <;> rfl

theorem radixLength_le (on : Extensions) (c : Char) (r : List Char) (h : radixLength on c r ≠ 0) :
    1 + radixLength on c r ≤ r.length := by
  cases r with
  | nil => exact absurd rfl h
  | cons x s =>
    simp only [radixLength] at h ⊢
    split at h
    · split at h
      · rename_i digit known
        have := digitRun_le digit (on .numericUnderscores) s
        simp only [if_pos, *, List.length_cons]
        omega
      · exact absurd rfl h
    · exact absurd rfl h

theorem decimal_le (on : Extensions) (r : List Char) : (decimal on r).2 ≤ r.length := by
  have digits := moreDigits_le isDigit (on .numericUnderscores) r
  simp only [decimal]
  generalize moreDigits isDigit (on .numericUnderscores) r = n at *
  have fraction := fractionLength_le (on .numericUnderscores) (r.drop n)
  rw [List.length_drop] at fraction
  generalize fractionLength (on .numericUnderscores) (r.drop n) = f at *
  have exponent := exponentLength_le (on .numericUnderscores) (r.drop (n + f))
  rw [List.length_drop] at exponent
  omega

theorem body_le (on : Extensions) (c : Char) (r : List Char) : (body on c r).2 ≤ r.length := by
  rw [body_eq]
  split
  · rename_i radix
    exact radixLength_le on c r radix
  · exact decimal_le on r

theorem scan_le (on : Extensions) (c : Char) (r : List Char) : (scan on c r).2 ≤ r.length := by
  have hb := body_le on c r
  have hh := hashCount_le on (r.drop (body on c r).2)
  rw [List.length_drop] at hh
  simp only [scan]
  omega

end Number

namespace Literal

theorem numericEscape_eq_ok_iff {digit : Char → Bool} {base : Nat} :
    numericEscape digit base s = .ok n ↔ s.takeWhile digit ≠ [] ∧
      isTooLong base (s.takeWhile digit) = false ∧
      numeral base (s.takeWhile digit) ≤ maxCodePoint ∧ runLength digit s = n := by
  by_cases none : s.takeWhile digit = []
  · simp [numericEscape, none]
  cases long : isTooLong base (s.takeWhile digit) with
  | true => simp [numericEscape, none, long]
  | false =>
    by_cases range : maxCodePoint < numeral base (s.takeWhile digit)
    · simp [numericEscape, none, long, range, Nat.not_le.2 range]
    · simp [numericEscape, none, long, range, Nat.not_lt.1 range, runLength]

theorem numericEscape_le {digit : Char → Bool} {base : Nat}
    (h : numericEscape digit base s = .ok n) : n ≤ s.length := by
  obtain ⟨-, -, -, rfl⟩ := numericEscape_eq_ok_iff.1 h
  exact runLength_le digit s

theorem escapeLength_le {b : Bool} (h : escapeLength b s = .ok n) : n ≤ s.length := by
  cases s with
  | nil => cases h
  | cons c r =>
    simp only [escapeLength] at h
    split at h
    · cases h
      simp
    split at h
    · split at h <;> cases h
      rename_i caret
      cases r with
      | nil => simp at caret
      | cons => simp
    split at h
    · exact numericEscape_le h
    split at h
    · obtain ⟨m, hm, rfl⟩ := ok_of_map h
      exact Nat.succ_le_succ (numericEscape_le hm)
    split at h
    · obtain ⟨m, hm, rfl⟩ := ok_of_map h
      exact Nat.succ_le_succ (numericEscape_le hm)
    split at h <;> cases h
    rename_i name found
    have isName : name.isPrefixOf (c :: r) = true := by simpa using List.find?_some found
    exact isPrefixOf_length isName

theorem stringLength_le {skip : Nat} (h : stringLength skip s = .ok n) : n ≤ s.length := by
  fun_induction stringLength skip s generalizing n with
  | case1 | case5 => cases h
  | case2 skip c r ih =>
    obtain ⟨m, hm, rfl⟩ := ok_of_map h
    exact Nat.succ_le_succ (ih hm)
  | case3 =>
    cases h
    simp
  | case4 r _ ih =>
    obtain ⟨m, -, hr⟩ := ok_of_bind h
    obtain ⟨m', hm, rfl⟩ := ok_of_map hr
    exact Nat.succ_le_succ (ih m hm)
  | case6 c r _ _ _ ih =>
    obtain ⟨m, hm, rfl⟩ := ok_of_map h
    exact Nat.succ_le_succ (ih hm)

theorem scanString_le (h : scanString on r = .ok (k, n)) : n ≤ r.length := by
  obtain ⟨m, hm, found⟩ := ok_of_bind h
  have := stringLength_le hm
  split at found
  · rename_i hash
    cases found
    simp only [hashed, Bool.and_eq_true, decide_eq_true_eq, List.head?_drop] at hash
    exact (List.getElem?_eq_some_iff.1 hash.2).1
  · cases found
    exact this

theorem quotedName_le (h : quotedName on r = .ok (k, n)) : n ≤ r.length := by
  simp only [quotedName] at h
  split at h
  · split at h <;> cases h
    · rename_i quote
      cases r with
      | nil => simp at quote
      | cons => simp
    · exact Nat.zero_le _
  · cases h

theorem scanQuote_le (h : scanQuote on r = .ok (k, n)) : n ≤ r.length := by
  obtain ⟨body, hb, found⟩ := ok_of_bind h
  split at found
  · exact quotedName_le found
  · rename_i m
    split at found
    · rename_i quote
      rw [List.head?_drop] at quote
      have inside := (List.getElem?_eq_some_iff.1 quote).1
      split at found
      · cases found
      · split at found <;> cases found
        · rename_i hash
          simp only [hashed, Bool.and_eq_true, decide_eq_true_eq, List.head?_drop] at hash
          exact (List.getElem?_eq_some_iff.1 hash.2).1
        · exact inside
    · exact quotedName_le found

end Literal

namespace Operator

theorem closer?_le (h : closer? on s = some (k, n)) : n ≤ s.length := by
  obtain ⟨⟨mark, kind, needs⟩, found, same⟩ := Option.map_eq_some_iff.1 h
  cases same
  have isMark := List.find?_some found
  simp only [Bool.and_eq_true] at isMark
  exact isPrefixOf_length isMark.1

theorem mark?_le {run : List Char} (h : mark? on run s = some (k, n)) : n ≤ s.length := by
  have hw := wordLength_le s
  simp only [mark?] at h
  split at h
  · unfold scanSplice at h
    split at h
    · cases h
      simp
    · split at h <;> cases h
      exact hw
    · cases h
  · split at h
    · cases h
    split at h
    · cases h
      exact hw
    split at h
    · cases h
      exact hw
    split at h <;> cases h
    exact hw

theorem scan_le (site : Site) (c : Char) (r : List Char) : (scan site c r).2 ≤ r.length := by
  simp only [scan]
  split
  · rename_i kind n closes
    have := closer?_le closes
    simp only [List.length_cons] at this ⊢
    omega
  · have run : (r.takeWhile isSymbol).length ≤ r.length := runLength_le isSymbol r
    split
    · rename_i kind n marked
      have := mark?_le marked
      rw [List.length_drop] at this
      simp only
      omega
    · exact run

end Operator

namespace Lexeme

theorem scanBraceDash_le (opens : r.head? = some '-') (h : scanBraceDash on r = .ok (k, n)) :
    n ≤ r.length := by
  unfold scanBraceDash at h
  split at h
  · exact Pragma.scan_le h
  · cases r with
    | nil => cases opens
    | cons d r =>
      obtain ⟨⟨kind, m⟩, hm, same⟩ := ok_of_map h
      cases same
      exact Comment.scanBlock_le hm

theorem scanNegative_le (on : Extensions) (r : List Char) : (scanNegative on r).2 ≤ r.length := by
  cases r with
  | nil => exact Nat.le_refl 0
  | cons d s => exact Nat.succ_le_succ (Number.scan_le on d s)

/-- What a scanner counts has all been there to see. -/
theorem scan_le (h : scan site c r = .ok (k, n)) : n ≤ r.length := by
  cases scanned_of_scan h with
  | braceDash opens ok => exact scanBraceDash_le opens.2 ok
  | lineComment => exact Comment.scanLine_le site.on r
  | closePragma _ mark => exact Nat.le_of_succ_le_succ (isPrefixOf_length mark)
  | bracket _ _ ok => exact Bracket.scan_le ok
  | string _ ok => exact Literal.scanString_le ok
  | quote _ ok => exact Literal.scanQuote_le ok
  | number => exact Number.scan_le site.on c r
  | name => exact Name.scan_le site c r
  | negative => exact scanNegative_le site.on r
  | operator => exact Operator.scan_le site c r
  | unknown => exact Nat.zero_le _

end Lexeme

end HaskellLexis
