import HaskellLexis.Lexeme

/-!
# Classes of characters tell lexemes apart

The first character of a text goes to one scanner: a digit is no letter, a
letter no symbol, and the special characters and the quotes are none of these.
-/

namespace HaskellLexis

variable {c : Char} {r : List Char}

theorem ascii_forall (P : Char → Prop) (h : ∀ n < 128, P (Char.ofNat n)) (hc : c.toNat < 128) :
    P c := by
  have at_c := h c.toNat hc
  rwa [Char.ofNat_toNat] at at_c

theorem ne_of_apart {p : Char → Bool} {d : Char} (h : p c = true) (apart : p d = false) :
    c ≠ d := by
  rintro rfl
  rw [h] at apart
  cases apart

theorem ascii_of_isDigit (h : isDigit c = true) : c.toNat < 128 := by
  simp only [isDigit, Bool.and_eq_true, decide_eq_true_eq] at h
  have upper : c.toNat ≤ '9'.toNat := h.2
  have nine : '9'.toNat = 57 := rfl
  omega

/-- A code point has one class. -/
theorem class_unique {k l : CharClass} (hk : k.is c = true) (hl : l.is c = true) : k = l := by
  simp only [CharClass.is, decide_eq_true_eq] at hk hl
  exact Option.some.inj (hk.symm.trans hl)

theorem startsName_of_isSymbol (h : isSymbol c = true) : startsName c = false := by
  by_cases ascii : c.toNat < 128
  · revert h
    exact ascii_forall (fun c => isSymbol c = true → startsName c = false) (by decide +kernel) ascii
  · have symbol : CharClass.symbol.is c = true := by rwa [isSymbol, if_neg ascii] at h
    have noLetter : isLetter c = false := by
      rw [isLetter, if_neg ascii, Bool.eq_false_iff]
      intro letter
      cases class_unique symbol letter
    have noUnderscore : c ≠ '_' := by
      rintro rfl
      exact ascii (by decide)
    simp [startsName, noLetter, noUnderscore]

theorem isDigit_of_startsName (h : startsName c = true) : isDigit c = false := by
  rw [Bool.eq_false_iff]
  intro digit
  have apart := ascii_forall (fun c => isDigit c = true → startsName c = false) (by decide +kernel)
    (ascii_of_isDigit digit) digit
  rw [h] at apart
  cases apart

theorem isSymbol_of_isDigit (h : isDigit c = true) : isSymbol c = false :=
  ascii_forall (fun c => isDigit c = true → isSymbol c = false) (by decide +kernel)
    (ascii_of_isDigit h) h

theorem isSymbol_of_isBlank (h : isBlank c = true) : isSymbol c = false := by
  by_cases ascii : c.toNat < 128
  · revert h
    exact ascii_forall (fun c => isBlank c = true → isSymbol c = false) (by decide +kernel) ascii
  · rw [isSymbol, if_neg ascii, Bool.eq_false_iff]
    intro symbol
    simp only [isBlank, Bool.or_eq_true, Bool.and_eq_true] at h
    obtain simple | ⟨-, blank⟩ := h
    · apply ascii
      simp only [isAsciiBlank, Bool.or_eq_true, decide_eq_true_eq] at simple
      obtain ((((rfl | rfl) | rfl) | rfl) | rfl) | rfl := simple <;> decide
    · cases class_unique symbol blank

namespace Punctuation

def specials : List Char := ['(', ')', ',', ';', '[', ']', '\x60', '{', '}']

theorem mem_of_ofChar? {p : Punctuation} (h : ofChar? c = some p) : c ∈ specials := by
  unfold ofChar? at h
  split at h
  case h_10 => cases h
  all_goals decide

/-- A class without special characters keeps apart from them. -/
theorem ofChar?_eq_none {p : Char → Bool} (apart : specials.any p = false)
    (h : p c = true) : ofChar? c = none := by
  cases special : ofChar? c with
  | none => rfl
  | some q =>
    rw [List.any_eq_false] at apart
    exact absurd h (apart c (mem_of_ofChar? special))

theorem ofChar?_of_isDigit (h : isDigit c = true) : ofChar? c = none :=
  ofChar?_eq_none (by decide) h

theorem ofChar?_of_startsName (h : startsName c = true) : ofChar? c = none :=
  ofChar?_eq_none (by decide) h

theorem ofChar?_of_isSymbol (h : isSymbol c = true) : ofChar? c = none :=
  ofChar?_eq_none (by decide) h

end Punctuation

namespace Comment

/-- Only a dash begins a line comment. -/
theorem dash_of_startsLineComment (h : startsLineComment (c :: r) = true) : c = '-' := by
  by_cases dash : c = '-'
  · exact dash
  · simp [startsLineComment, runLength, dash] at h

theorem startsLineComment_of_ne (h : c ≠ '-') : startsLineComment (c :: r) = false := by
  rw [Bool.eq_false_iff]
  exact fun starts => h (dash_of_startsLineComment starts)

end Comment

/-- Only a hash begins the mark that closes a pragma. -/
theorem closePragmaMark_of_ne (h : c ≠ '#') : closePragmaMark.isPrefixOf (c :: r) = false := by
  simp [closePragmaMark, List.isPrefixOf, Ne.symm h]

theorem hash_of_closePragmaMark (h : closePragmaMark.isPrefixOf (c :: r) = true) : c = '#' := by
  by_cases hash : c = '#'
  · exact hash
  · rw [closePragmaMark_of_ne hash] at h
    cases h

end HaskellLexis
