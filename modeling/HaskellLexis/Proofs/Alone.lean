import HaskellLexis.Proofs.Alone.Name
import HaskellLexis.Proofs.Shift

/-!
# A lexeme by itself

What the scanners look at behind a lexeme only tells them where it ends. With
nothing behind it they find the same lexeme, and all of it.

* `…_take`: brackets and operators, before a text that is cut off behind them;
* `Lexeme.scan_take`: all lexemes. Only a type application is none without the
  text behind it, and then it is the plain operator.
-/

namespace HaskellLexis

variable {on : Extensions} {site site' : Site} {c : Char} {r s : List Char} {k : Kind} {m n : Nat}

/-- What is left of a kind when there is no more than the lexeme. -/
def Kind.alone : Kind → Kind
  | .typeApplication => .operator .atSign
  | k => k

theorem Kind.alone_of_isIntrinsic (h : k.isIntrinsic = true) : k.alone = k := by
  unfold alone
  split
  · cases h
  · rfl

theorem Kind.alone_of_isPlain (h : k.isPlain = true) : k.alone = k :=
  alone_of_isIntrinsic (isIntrinsic_of_isPlain h)

namespace Quotation

/-- A word and the character behind it are left, if both are inside. -/
theorem word_take {d : Char} {u : List Char} (within : wordLength (c :: r) < n)
    (rest : (c :: r).drop (wordLength (c :: r)) = d :: u) :
    ∃ j, (c :: r).take n = c :: r.take j ∧ wordLength (c :: r.take j) = wordLength (c :: r) ∧
      (c :: r.take j).drop (wordLength (c :: r)) = d :: u.take (n - wordLength (c :: r) - 1) := by
  obtain ⟨j, rfl⟩ : ∃ j, n = j + 1 := ⟨n - 1, by omega⟩
  refine ⟨j, List.take_succ_cons, ?_, ?_⟩
  · rw [← List.take_succ_cons, wordLength_take (Nat.le_of_lt within)]
  · obtain ⟨i, hi⟩ : ∃ i, j + 1 - wordLength (c :: r) = i + 1 :=
      ⟨j - wordLength (c :: r), by omega⟩
    rw [← List.take_succ_cons, List.drop_take, rest, hi, List.take_succ_cons]
    rfl

theorem quoter?_take {q b : Bool} (h : quoter? q s = some (b, m)) (inside : m ≤ n) :
    quoter? q (s.take n) = some (b, m) := by
  induction s using quoter_induction generalizing q m n with
  | nil =>
    rw [quoter?] at h
    cases h
  | cons c r ih =>
    rw [quoter?_cons] at h
    simp only at h
    by_cases upper : startsUpper c = true
    · rw [if_pos upper] at h
      split at h
      · rename_i dot
        obtain ⟨⟨b', m'⟩, later, same⟩ := Option.map_eq_some_iff.1 h
        cases same
        obtain ⟨u, hu⟩ := List.head?_eq_some_iff.1 dot
        obtain ⟨j, taken, word, rest⟩ := word_take (n := n) (by omega) hu
        rw [hu, List.tail_cons] at later
        have ih' := ih u hu later (n := n - wordLength (c :: r) - 1) (by omega)
        rw [taken, quoter?_cons, if_pos upper, word, rest, List.head?_cons, if_pos rfl,
          List.tail_cons, ih']
        rfl
      · cases h
    · rw [if_neg upper] at h
      split at h
      · rename_i lower
        split at h
        · rename_i bar
          cases h
          obtain ⟨u, hu⟩ := List.head?_eq_some_iff.1 bar
          obtain ⟨j, taken, word, rest⟩ := word_take (n := n) (by omega) hu
          rw [taken, quoter?_cons, if_neg upper, if_pos lower, word, rest, List.head?_cons,
            if_pos rfl]
        · cases h
      · cases h

theorem scanQuasi?_take {q : Quotation} (h : scanQuasi? s = some (.ok (q, n))) :
    scanQuasi? (s.take n) = some (.ok (q, n)) := by
  obtain ⟨⟨b, m⟩, quoter, found⟩ := Option.map_eq_some_iff.1 h
  simp only at found
  split at found
  · rename_i j closes
    cases found
    have behind : (s.take (m + j + 2)).drop m = (s.drop m).take (j + 2) := by
      rw [List.drop_take, Nat.add_assoc, Nat.add_sub_cancel_left]
    have size : ['|', ']'].length = 2 := rfl
    rw [scanQuasi?, quoter?_take quoter (by omega)]
    simp only [Option.map_some, behind]
    rw [offsetOf?_take closes (by omega) (by omega)]
  · cases found

end Quotation

namespace Bracket

theorem scanRound_take (on : Extensions) (r : List Char) :
    scanRound on (r.take (scanRound on r).2) = scanRound on r := by
  cases found : scanRound on r with
  | mk k n =>
    simp only [scanRound] at found
    split at found
    · rename_i hash
      cases found
      cases r with
      | nil => simp at hash
      | cons c r =>
        simp only [Bool.and_eq_true, decide_eq_true_eq, List.head?_cons, Option.some.injEq] at hash
        simp [scanRound, hash.1.1, hash.1.2]
    · split at found
      · rename_i bar
        cases found
        cases r with
        | nil => simp at bar
        | cons c r =>
          simp only [Bool.and_eq_true, decide_eq_true_eq, List.head?_cons, Option.some.injEq] at bar
          simp [scanRound, bar.1.1, bar.1.2]
      · cases found
        rfl

theorem scanSquare_take (h : scanSquare on r = .ok (k, n)) :
    scanSquare on (r.take n) = .ok (k, n) := by
  simp only [scanSquare] at h ⊢
  split at h
  · rename_i mark q opener
    cases h
    split at opener
    · rename_i quotes
      have isMark : mark.isPrefixOf r = true := by simpa using List.find?_some opener
      rw [if_pos quotes]
      rw [find?_of_imp opener (isPrefixOf_take isMark (Nat.le_refl _))
        (fun _ found => isPrefixOf_of_take found)]
    · cases opener
  · rename_i noOpener
    have noOpener' : (if on .templateHaskell then
        Quotation.openers.find? (·.1.isPrefixOf (r.take n)) else none) = none := by
      split at noOpener
      · rename_i quotes
        rw [if_pos quotes]
        exact find?_none_of_imp noOpener fun _ found => isPrefixOf_of_take found
      · rename_i noQuotes
        rw [if_neg noQuotes]
    rw [noOpener']
    simp only
    split at h
    · rename_i result quasi
      obtain ⟨⟨q, m⟩, rfl, same⟩ := ok_of_map h
      cases same
      split at quasi
      · rename_i quotes
        rw [if_pos quotes, Quotation.scanQuasi?_take quasi]
        rfl
      · cases quasi
    · rename_i noQuasi
      have noQuasi' (t : List Char) (h : t = [] ∨ t = [':']) :
          (if on .quasiQuotes then Quotation.scanQuasi? t else none) = none := by
        have none : Quotation.scanQuasi? t = none := by
          rw [Quotation.scanQuasi?, Option.map_eq_none_iff]
          obtain rfl | rfl := h
          · rw [Quotation.quoter?]
          · rw [Quotation.quoter?_cons, if_neg (by decide), if_neg (by decide)]
        rw [none, ite_self]
      split at h <;> cases h
      · rename_i colon
        simp only [Bool.and_eq_true, decide_eq_true_eq] at colon
        obtain ⟨t, rfl⟩ := List.head?_eq_some_iff.1 colon.1
        simp [noQuasi', colon.2]
      · simp [noQuasi']

theorem scan_take {p : Punctuation} (h : scan on c p r = .ok (k, n)) :
    scan on c p (r.take n) = .ok (k, n) := by
  unfold scan at h ⊢
  split at h
  · rename_i round
    have taken := scanRound_take on r
    rw [Except.ok.inj h] at taken
    rw [if_pos round]
    exact congrArg Except.ok taken
  · rename_i noRound
    rw [if_neg noRound]
    split at h
    · rename_i square
      rw [if_pos square]
      exact scanSquare_take h
    · rename_i noSquare
      rw [if_neg noSquare]
      exact h

end Bracket

namespace Operator

theorem closer?_take (h : closer? on (c :: r) = some (k, n)) :
    closer? on (c :: r.take (n - 1)) = some (k, n) := by
  obtain ⟨⟨mark, kind, needs⟩, found, same⟩ := Option.map_eq_some_iff.1 h
  cases same
  have isMark := List.find?_some found
  simp only [Bool.and_eq_true] at isMark
  have some : 0 < mark.length := by
    have table : ∀ p ∈ closers, 0 < p.1.length := by decide
    exact table _ (List.mem_of_find?_eq_some found)
  have found' := find?_of_imp
    (q := fun p => p.1.isPrefixOf ((c :: r).take mark.length) && on p.2.2) found
    (Bool.and_eq_true_iff.2 ⟨isPrefixOf_take isMark.1 (Nat.le_refl _), isMark.2⟩)
    (fun p cut => by
      rw [Bool.and_eq_true] at cut ⊢
      exact ⟨isPrefixOf_of_take cut.1, cut.2⟩)
  rw [← Nat.sub_add_cancel some, List.take_succ_cons] at found'
  exact congrArg (Option.map fun p => (p.2.1, p.1.length)) found'

theorem closer?_none_take (h : closer? on (c :: r) = none) (n : Nat) :
    closer? on (c :: r.take n) = none := by
  rw [closer?, Option.map_eq_none_iff] at h ⊢
  refine find?_none_of_imp h fun p cut => ?_
  rw [Bool.and_eq_true] at cut ⊢
  rw [← List.take_succ_cons] at cut
  exact ⟨isPrefixOf_of_take cut.1, cut.2⟩

theorem scanSplice_take {name paren : Quotation} (h : scanSplice name paren s = some (k, n)) :
    scanSplice name paren (s.take n) = some (k, n) := by
  cases s with
  | nil => cases h
  | cons c t =>
    by_cases round : c = '('
    · subst round
      cases h
      rfl
    · rw [scanSplice_cons name paren round] at h
      split at h <;> cases h
      rename_i lower
      have pos := Name.wordLength_pos (Name.isNameChar_of_startsLower lower) t
      have word := wordLength_take (Nat.le_refl (wordLength (c :: t)))
      obtain ⟨j, hj⟩ : ∃ j, wordLength (c :: t) = j + 1 := ⟨wordLength (c :: t) - 1, by omega⟩
      rw [hj, List.take_succ_cons] at word ⊢
      rw [scanSplice_cons name paren round, if_pos lower, word]

theorem mark?_take {run : List Char} (h : mark? on run s = some (k, n)) :
    mark? on run (s.take n) = some (k, n) := by
  unfold mark? at h ⊢
  split at h
  · exact scanSplice_take h
  · simp only at h ⊢
    split at h
    · cases h
    rename_i lower
    have size : n = wordLength s := by
      split at h
      · cases h
        rfl
      · split at h
        · cases h
          rfl
        · split at h <;> cases h
          rfl
    have pos : 0 < wordLength s := by
      cases s with
      | nil => simp at lower
      | cons c t =>
        have first : startsLower c = true := by simpa using lower
        exact Name.wordLength_pos (Name.isNameChar_of_startsLower first) t
    rw [size, head?_take_of_pos pos, wordLength_take (Nat.le_refl _), if_neg lower, List.take_take,
      Nat.min_self, ← size]
    rw [← size] at h
    exact h

theorem mark?_nil (on : Extensions) (run : List Char) : mark? on run [] = none := by
  unfold mark?
  split <;> rfl

theorem ofRun_nil (h : site.Alike site') (run s : List Char) :
    ofRun site' run [] = (ofRun site run s).alone := by
  have none : isTypeApplication site' [] = false := by simp [isTypeApplication]
  unfold ofRun
  rw [h.on, none]
  split
  · cases isTypeApplication site s <;> rfl
  · rename_i hk
    exact (Kind.alone_of_isIntrinsic (ReservedOperator.ofRun?_intrinsic hk)).symm
  · rfl

theorem scan_take (h : site.Alike site') (c : Char) (r : List Char) :
    scan site' c (r.take (scan site c r).2) = ((scan site c r).1.alone, (scan site c r).2) := by
  cases closer : closer? site.on (c :: r) with
  | some found =>
    obtain ⟨kind, n⟩ := found
    have found : scan site c r = (kind, n - 1) := by rw [scan, closer]
    rw [found, scan, h.on, closer?_take closer]
    exact congrArg (·, n - 1) (Kind.alone_of_isPlain (closer?_plain closer)).symm
  | none =>
    have run (n : Nat) (inside : (r.takeWhile isSymbol).length ≤ n) :
        (r.take n).takeWhile isSymbol = r.takeWhile isSymbol := takeWhile_take inside
    cases mark : mark? site.on (c :: r.takeWhile isSymbol)
        (r.drop (r.takeWhile isSymbol).length) with
    | some found =>
      obtain ⟨kind, n⟩ := found
      have found : scan site c r = (kind, (r.takeWhile isSymbol).length + n) := by
        simp only [scan, closer, mark]
      rw [found, scan, h.on, closer?_none_take closer]
      simp only [run _ (Nat.le_add_right _ _), List.drop_take, Nat.add_sub_cancel_left,
        mark?_take mark]
      rw [Kind.alone_of_isPlain (mark?_plain mark)]
    | none =>
      have found : scan site c r = (ofRun site (c :: r.takeWhile isSymbol)
          (r.drop (r.takeWhile isSymbol).length), (r.takeWhile isSymbol).length) := by
        simp only [scan, closer, mark]
      rw [found, scan, h.on, closer?_none_take closer]
      simp only [run _ (Nat.le_refl _), List.drop_take, Nat.sub_self, List.take_zero, mark?_nil]
      rw [ofRun_nil h]

/-- A dash begins no bracket and no mark. -/
theorem scan_dash (site : Site) (r : List Char) :
    (scan site '-' r).2 = runLength isSymbol r := by
  have noCloser : closer? site.on ('-' :: r) = none := by
    simp [closer?, closers, List.isPrefixOf]
  have noMark (run s : List Char) : mark? site.on ('-' :: run) s = none := by
    simp [mark?, splice?]
  simp only [scan, noCloser, noMark]
  rfl

end Operator

namespace Lexeme

theorem scanBraceDash_take (opens : r.head? = some '-') (h : scanBraceDash on r = .ok (k, n)) :
    (r.take n).head? = some '-' ∧ scanBraceDash on (r.take n) = .ok (k, n) := by
  obtain ⟨t, rfl⟩ := List.head?_eq_some_iff.1 opens
  unfold scanBraceDash at h
  split at h
  · rename_i s front
    cases front
    obtain ⟨m, rfl, found⟩ := Pragma.scan_take h
    exact ⟨rfl, found⟩
  · rename_i noHash
    obtain ⟨⟨kind, m⟩, hm, same⟩ := ok_of_map h
    cases same
    obtain ⟨j, rfl⟩ : ∃ j, n = j + 1 := by
      simp only [Comment.scanBlock] at hm
      split at hm <;> cases hm
      exact ⟨_, rfl⟩
    refine ⟨rfl, ?_⟩
    unfold scanBraceDash
    split
    · rename_i s front
      obtain ⟨-, cut⟩ := List.cons.inj (List.take_succ_cons.symm.trans front)
      obtain ⟨u, whole⟩ := List.take_prefix j t
      rw [cut] at whole
      exact absurd whole.symm (fun same => noHash _ (congrArg _ same))
    · rw [Comment.scanBlock_take hm]
      rfl

/-! ## Lexemes that the text behind them might change -/

theorem lineComment_take (alike : site.Alike site')
    (starts : Comment.startsLineComment (c :: r) = true) :
    Scanned site' c (r.take (Comment.scanLine site.on r).2)
      (.comment (Comment.scanLine site.on r).1) (Comment.scanLine site.on r).2 := by
  have whole : Comment.lineLength (c :: r) ≤ (Comment.scanLine site.on r).2 + 1 :=
    Nat.le_trans (Comment.lineLength_cons_le c r)
      (Nat.succ_le_succ (Comment.lineLength_le_scanLine site.on r))
  have starts' :
      Comment.startsLineComment (c :: r.take (Comment.scanLine site.on r).2) = true := by
    rw [← List.take_succ_cons, Comment.startsLineComment_take whole, starts]
  obtain ⟨t, rfl⟩ := List.head?_eq_some_iff.1 (Comment.dash_of_starts starts)
  have found : Scanned site' c _ _ _ := .lineComment starts'
  rw [alike.on, Comment.scanLine_take (by decide)] at found
  exact found

theorem negative_take (alike : site.Alike site') (loose : site'.isLoose = true)
    (sign : isNegative site c r = true) :
    Scanned site' c (r.take (scanNegative site.on r).2)
      (.literal (scanNegative site.on r).1) (scanNegative site.on r).2 := by
  simp only [isNegative, Bool.and_eq_true] at sign
  obtain ⟨⟨⟨dash, digit⟩, negatives⟩, -⟩ := sign
  cases r with
  | nil => cases digit
  | cons d s =>
    have sign' : isNegative site' c (d :: s.take (Number.scan site.on d s).2) = true := by
      simp only [isNegative, Bool.and_eq_true]
      exact ⟨⟨⟨dash, digit⟩, alike.on ▸ negatives⟩, loose⟩
    have found := Scanned.negative sign'
    simp only [scanNegative, alike.on, Number.scan_take] at found
    exact found

theorem startsLineComment_take_operator (site : Site)
    (noComment : Comment.startsLineComment (c :: r) = false) :
    Comment.startsLineComment (c :: r.take (Operator.scan site c r).2) = false := by
  by_cases dash : c = '-'
  · subst dash
    have run : runLength isSymbol ('-' :: r) ≤ (Operator.scan site '-' r).2 + 1 := by
      rw [Operator.scan_dash, runLength, List.takeWhile_cons_of_pos (by decide)]
      exact Nat.le_refl _
    rw [← List.take_succ_cons, Comment.startsLineComment_take_symbols run, noComment]
  · exact Comment.startsLineComment_of_ne dash

/-- An operator ends before the digit that would make its dash a sign. -/
theorem isNegative_take_operator (site site' : Site) (c : Char) (r : List Char) :
    isNegative site' c (r.take (Operator.scan site c r).2) = false := by
  by_cases dash : c = '-'
  · subst dash
    have noDigit : (r.takeWhile isSymbol).head?.any isDigit = false := by
      cases first : (r.takeWhile isSymbol).head? with
      | none => rfl
      | some d =>
        have symbol : isSymbol d = true := List.mem_takeWhile_imp (List.mem_of_mem_head? first)
        rw [Option.any_some, Bool.eq_false_iff]
        intro digit
        rw [isSymbol_of_isDigit digit] at symbol
        cases symbol
    rw [Operator.scan_dash, take_runLength]
    simp [isNegative, noDigit]
  · simp [isNegative, dash]

theorem operator_take (alike : site.Alike site') (symbol : isSymbol c = true)
    (noComment : Comment.startsLineComment (c :: r) = false)
    (noClose : (site.inPragma && closePragmaMark.isPrefixOf (c :: r)) = false) :
    Scanned site' c (r.take (Operator.scan site c r).2) (Operator.scan site c r).1.alone
      (Operator.scan site c r).2 := by
  have noClose' : (site'.inPragma &&
      closePragmaMark.isPrefixOf (c :: r.take (Operator.scan site c r).2)) = false := by
    rw [Bool.eq_false_iff] at noClose ⊢
    intro closes
    rw [Bool.and_eq_true, ← List.take_succ_cons] at closes
    exact noClose (Bool.and_eq_true_iff.2
      ⟨alike.inPragma.symm.trans closes.1, isPrefixOf_of_take closes.2⟩)
  have found := Scanned.operator symbol (startsLineComment_take_operator site noComment) noClose'
    (isNegative_take_operator site site' c r)
  rw [Operator.scan_take alike] at found
  exact found

/-- The lexeme at the front of a text is found without the text behind it. -/
theorem scan_take (alike : site.Alike site') (loose : site'.isLoose = true)
    (regular : Name.Regular (c :: r)) (h : scan site c r = .ok (k, n)) :
    scan site' c (r.take n) = .ok (k.alone, n) := by
  have head {d : Char} (h : (r.take n).head? = some d) : r.head? = some d := by
    rw [List.head?_take] at h
    split at h
    · cases h
    · exact h
  apply scan_of_scanned
  cases scanned_of_scan h with
  | braceDash opens ok =>
    obtain ⟨dash, ok'⟩ := scanBraceDash_take opens.2 ok
    rw [Kind.alone_of_isIntrinsic (Kind.isIntrinsic_of_isBraced (scanBraceDash_braced ok))]
    exact .braceDash ⟨opens.1, dash⟩ (alike.on ▸ ok')
  | lineComment starts => exact lineComment_take alike starts
  | closePragma inside mark =>
    exact .closePragma (alike.inPragma.trans inside) (isPrefixOf_take (n := 3) mark (by decide))
  | bracket special single ok =>
    rw [Kind.alone_of_isPlain (Bracket.scan_plain ok)]
    exact .bracket special (fun opens => single ⟨opens.1, head opens.2⟩)
      (alike.on ▸ Bracket.scan_take ok)
  | string double ok =>
    rw [Kind.alone_of_isPlain (Literal.scanString_plain ok)]
    exact .string double (alike.on ▸ Literal.scanString_take ok)
  | quote single ok =>
    rw [Kind.alone_of_isPlain (Literal.scanQuote_plain ok)]
    exact .quote single (alike.on ▸ Literal.scanQuote_take ok)
  | number digit =>
    have found : Scanned site' c (r.take (Number.scan site.on c r).2) _ _ := .number digit
    rw [alike.on, Number.scan_take] at found
    exact found
  | name starts =>
    have regular' : Name.Regular r := fun d hd => regular d (List.mem_cons_of_mem c hd)
    have found : Scanned site' c (r.take (Name.scan site c r).2) _ _ := .name starts
    rw [Name.scan_congr alike, Name.scan_take site c regular'] at found
    rw [Kind.alone_of_isPlain Name.scan_plain]
    exact found
  | negative sign => exact negative_take alike loose sign
  | operator symbol noComment noClose noSign => exact operator_take alike symbol noComment noClose
  | unknown noName noSymbol noControl noSpecial noQuote noDigit =>
    exact .unknown noName noSymbol noControl noSpecial noQuote noDigit

end Lexeme

end HaskellLexis
