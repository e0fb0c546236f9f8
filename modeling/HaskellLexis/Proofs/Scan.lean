import HaskellLexis.Proofs.Classes

/-!
# What stands at the front of a text

`Scanned` lists, one constructor for each scanner, all that `Lexeme.scan` can
find, each with the tests that lead there. By `scanned_of_scan` nothing else is
found, and by `scan_of_scanned` all of it is. A property of all lexemes is
proved by cases on it, with what is known of the one scanner.
-/

namespace HaskellLexis

namespace Lexeme

inductive Scanned (site : Site) (c : Char) (r : List Char) : Kind → Nat → Prop where
  | braceDash {k n} (opens : c = '{' ∧ r.head? = some '-')
      (ok : scanBraceDash site.on r = .ok (k, n)) : Scanned site c r k n
  | lineComment (starts : Comment.startsLineComment (c :: r) = true) :
      Scanned site c r (.comment (Comment.scanLine site.on r).1) (Comment.scanLine site.on r).2
  | closePragma (inside : site.inPragma = true)
      (mark : closePragmaMark.isPrefixOf (c :: r) = true) : Scanned site c r .closePragma 2
  | bracket {p k n} (special : Punctuation.ofChar? c = some p)
      (single : ¬(c = '{' ∧ r.head? = some '-'))
      (ok : Bracket.scan site.on c p r = .ok (k, n)) : Scanned site c r k n
  | string {k n} (double : c = '"') (ok : Literal.scanString site.on r = .ok (k, n)) :
      Scanned site c r k n
  | quote {k n} (single : c = '\'') (ok : Literal.scanQuote site.on r = .ok (k, n)) :
      Scanned site c r k n
  | number (digit : isDigit c = true) :
      Scanned site c r (.literal (Number.scan site.on c r).1) (Number.scan site.on c r).2
  | name (starts : startsName c = true) :
      Scanned site c r (Name.scan site c r).1 (Name.scan site c r).2
  | negative (sign : isNegative site c r = true) :
      Scanned site c r (.literal (scanNegative site.on r).1) (scanNegative site.on r).2
  | operator (symbol : isSymbol c = true)
      (noComment : Comment.startsLineComment (c :: r) = false)
      (noClose : (site.inPragma && closePragmaMark.isPrefixOf (c :: r)) = false)
      (noSign : isNegative site c r = false) :
      Scanned site c r (Operator.scan site c r).1 (Operator.scan site c r).2
  | unknown (noName : startsName c = false) (noSymbol : isSymbol c = false)
      (noControl : isControl c = false) (noSpecial : Punctuation.ofChar? c = none)
      (noQuote : c ≠ '"' ∧ c ≠ '\'') (noDigit : isDigit c = false) : Scanned site c r .unknown 0

variable {site : Site} {c : Char} {r : List Char} {k : Kind} {n : Nat}

/-- The tests that every lexeme passes which no special character begins. -/
theorem scanned_of_none (h : Lexeme.scan site c r = .ok (k, n))
    (opens : ¬(c = '{' ∧ r.head? = some '-'))
    (noComment : Comment.startsLineComment (c :: r) = false)
    (noClose : (site.inPragma && closePragmaMark.isPrefixOf (c :: r)) = false)
    (special : Punctuation.ofChar? c = none) : Scanned site c r k n := by
  unfold scan at h
  rw [if_neg (by simpa using opens), if_neg (by simp [noComment]), if_neg (by simp [noClose])] at h
  simp only [special] at h
  by_cases double : c = '"'
  · rw [if_pos double] at h
    exact .string double h
  rw [if_neg double] at h
  by_cases single : c = '\''
  · rw [if_pos single] at h
    exact .quote single h
  rw [if_neg single] at h
  by_cases digit : isDigit c = true
  · rw [if_pos digit] at h
    cases h
    exact .number digit
  rw [if_neg digit] at h
  by_cases name : startsName c = true
  · rw [if_pos name] at h
    have found := Except.ok.inj h
    have both : Scanned site c r _ _ := .name name
    rwa [found] at both
  rw [if_neg name] at h
  by_cases sign : isNegative site c r = true
  · rw [if_pos sign] at h
    cases h
    exact .negative sign
  rw [if_neg sign] at h
  simp only [Bool.not_eq_true] at name sign
  by_cases symbol : isSymbol c = true
  · rw [if_pos symbol] at h
    have found := Except.ok.inj h
    have both := Scanned.operator symbol noComment noClose sign
    rwa [found] at both
  rw [if_neg symbol] at h
  simp only [Bool.not_eq_true] at symbol
  by_cases control : isControl c = true
  · rw [if_pos control] at h
    cases h
  rw [if_neg control] at h
  cases h
  exact .unknown name symbol (by simpa using control) special ⟨double, single⟩
    (by simpa using digit)

theorem scanned_of_scan (h : Lexeme.scan site c r = .ok (k, n)) : Scanned site c r k n := by
  by_cases opens : c = '{' ∧ r.head? = some '-'
  · unfold scan at h
    rw [if_pos (by simpa using opens)] at h
    exact .braceDash opens h
  cases comment : Comment.startsLineComment (c :: r) with
  | true =>
    unfold scan at h
    rw [if_neg (by simpa using opens), if_pos comment] at h
    cases h
    exact .lineComment comment
  | false =>
    cases close : site.inPragma && closePragmaMark.isPrefixOf (c :: r) with
    | true =>
      unfold scan at h
      rw [if_neg (by simpa using opens), if_neg (by simp [comment]), if_pos close] at h
      cases h
      obtain ⟨inside, mark⟩ := Bool.and_eq_true_iff.1 close
      exact .closePragma inside mark
    | false =>
      cases special : Punctuation.ofChar? c with
      | none => exact scanned_of_none h opens comment close special
      | some p =>
        unfold scan at h
        rw [if_neg (by simpa using opens), if_neg (by simp [comment]),
          if_neg (by simp [close])] at h
        simp only [special] at h
        exact .bracket special opens h

/-- The tests before the one for special characters are passed by all but a
brace, a dash and a hash. -/
theorem scan_of_plain (brace : c ≠ '{') (dash : c ≠ '-') (hash : c ≠ '#') :
    scan site c r =
      match Punctuation.ofChar? c with
      | some p => Bracket.scan site.on c p r
      | none =>
        if c = '"' then Literal.scanString site.on r
        else if c = '\'' then Literal.scanQuote site.on r
        else if isDigit c then
          .ok (.literal (Number.scan site.on c r).1, (Number.scan site.on c r).2)
        else if startsName c then .ok (Name.scan site c r)
        else if isNegative site c r then
          .ok (.literal (scanNegative site.on r).1, (scanNegative site.on r).2)
        else if isSymbol c then .ok (Operator.scan site c r)
        else if isControl c then .error (.character c)
        else .ok (.unknown, 0) := by
  have noBrace : ¬(decide (c = '{') && decide (r.head? = some '-')) = true := by simp [brace]
  have noComment : ¬Comment.startsLineComment (c :: r) = true := by
    simp [Comment.startsLineComment_of_ne dash]
  have noClose : ¬(site.inPragma && closePragmaMark.isPrefixOf (c :: r)) = true := by
    simp [closePragmaMark_of_ne hash]
  exact (if_neg noBrace).trans ((if_neg noComment).trans (if_neg noClose))

theorem scan_string (site : Site) (r : List Char) :
    scan site '"' r = Literal.scanString site.on r :=
  scan_of_plain (by decide) (by decide) (by decide)

theorem scan_character (site : Site) (r : List Char) :
    scan site '\'' r = Literal.scanQuote site.on r :=
  scan_of_plain (by decide) (by decide) (by decide)

theorem scan_of_negative (h : isNegative site c r = true) :
    scan site c r = .ok (.literal (scanNegative site.on r).1, (scanNegative site.on r).2) := by
  have test := h
  simp only [isNegative, Bool.and_eq_true, decide_eq_true_eq] at test
  obtain ⟨⟨⟨rfl, digit⟩, -⟩, -⟩ := test
  have noComment : Comment.startsLineComment ('-' :: r) = false := by
    cases r with
    | nil => rfl
    | cons d r =>
      have noDash : d ≠ '-' := ne_of_apart (p := isDigit) (by simpa using digit) (by decide)
      simp [Comment.startsLineComment, runLength, noDash]
  unfold scan
  rw [if_neg (by simp), if_neg (by simp [noComment]),
    if_neg (by simp [closePragmaMark_of_ne (c := '-') (by decide)])]
  simp only [show Punctuation.ofChar? '-' = none from rfl, show isDigit '-' = false from rfl,
    show startsName '-' = false from rfl, h, if_true]
  rfl

theorem scan_of_operator (symbol : isSymbol c = true)
    (noComment : Comment.startsLineComment (c :: r) = false)
    (noClose : (site.inPragma && closePragmaMark.isPrefixOf (c :: r)) = false)
    (noSign : isNegative site c r = false) : scan site c r = .ok (Operator.scan site c r) := by
  have noBrace : c ≠ '{' := ne_of_apart symbol (by decide)
  have noDouble : c ≠ '"' := ne_of_apart symbol (by decide)
  have noSingle : c ≠ '\'' := ne_of_apart symbol (by decide)
  have noDigit : ¬isDigit c = true := by
    intro digit
    rw [isSymbol_of_isDigit digit] at symbol
    cases symbol
  unfold scan
  rw [if_neg (by simp [noBrace]), if_neg (by simp [noComment]), if_neg (by simp [noClose])]
  simp only [Punctuation.ofChar?_of_isSymbol symbol]
  rw [if_neg noDouble, if_neg noSingle, if_neg noDigit,
    if_neg (by simp [startsName_of_isSymbol symbol]), if_neg (by simp [noSign]), if_pos symbol]

theorem scan_of_scanned (h : Scanned site c r k n) : scan site c r = .ok (k, n) := by
  cases h with
  | braceDash opens ok =>
    unfold scan
    rw [if_pos (by simpa using opens), ok]
  | lineComment starts =>
    have dash := Comment.dash_of_startsLineComment starts
    unfold scan
    rw [if_neg (by simp [dash]), if_pos starts]
  | closePragma inside mark =>
    have hash := hash_of_closePragmaMark mark
    have noDash : c ≠ '-' := hash ▸ by decide
    unfold scan
    rw [if_neg (by simp [hash]), if_neg (by simp [Comment.startsLineComment_of_ne noDash]),
      if_pos (by simp [inside, mark])]
  | bracket special single ok =>
    have noDash : c ≠ '-' := by
      rintro rfl
      cases special
    have noHash : c ≠ '#' := by
      rintro rfl
      cases special
    unfold scan
    rw [if_neg (by simpa using single), if_neg (by simp [Comment.startsLineComment_of_ne noDash]),
      if_neg (by simp [closePragmaMark_of_ne noHash])]
    simp only [special, ok]
  | string double ok =>
    subst double
    rwa [scan_string]
  | quote single ok =>
    subst single
    rwa [scan_character]
  | number digit =>
    rw [scan_of_plain (ne_of_apart digit (by decide)) (ne_of_apart digit (by decide))
      (ne_of_apart digit (by decide))]
    simp only [Punctuation.ofChar?_of_isDigit digit]
    rw [if_neg (ne_of_apart digit (by decide)), if_neg (ne_of_apart digit (by decide)),
      if_pos digit]
  | name starts =>
    rw [scan_of_plain (ne_of_apart starts (by decide)) (ne_of_apart starts (by decide))
      (ne_of_apart starts (by decide))]
    simp only [Punctuation.ofChar?_of_startsName starts]
    rw [if_neg (ne_of_apart starts (by decide)), if_neg (ne_of_apart starts (by decide)),
      if_neg (by simp [isDigit_of_startsName starts]), if_pos starts]
  | negative sign => exact scan_of_negative sign
  | operator symbol noComment noClose noSign =>
    exact scan_of_operator symbol noComment noClose noSign
  | unknown noName noSymbol noControl noSpecial noQuote noDigit =>
    have noBrace : c ≠ '{' := by
      rintro rfl
      cases noSpecial
    have noDash : c ≠ '-' := by
      rintro rfl
      exact absurd noSymbol (by decide)
    have noHash : c ≠ '#' := by
      rintro rfl
      exact absurd noSymbol (by decide)
    have noNegative : isNegative site c r = false := by simp [isNegative, noDash]
    rw [scan_of_plain noBrace noDash noHash]
    simp only [noSpecial, noQuote.1, noQuote.2, noDigit, noName, noNegative, noSymbol, noControl,
      if_false, Bool.false_eq_true]

end Lexeme

end HaskellLexis
