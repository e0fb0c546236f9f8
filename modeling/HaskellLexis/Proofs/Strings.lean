import HaskellLexis.Proofs.Breaks
import HaskellLexis.Proofs.Run
import Mathlib.Data.Nat.Digits.Defs

/-!
# What a string may hold

A string ends at the first quote that no item of it takes. What the items are
is said by a grammar, and the scanner accepts just that, as long as it need not
read a decimal numeral that is too long for it.

* `Escape`, `Closed`: the items, each with what comes behind it;
* `Completes.unique`: a text goes on as a string in one way at most;
* `Exceeds`: items up to a numeral that is too long, `stringLength_eq_numeral_iff`
  says that this is where the scanner gives up;
* `closed_of_stringLength`, `stringLength_of_closed`: what is accepted is in
  the grammar, and all of the grammar is accepted that does not exceed;
* `string_grammar`: a quote begins a string where the text goes on in the
  grammar, and is an error elsewhere.
-/

namespace HaskellLexis

namespace Literal

variable {on : Extensions} {c : Char} {d e e' r s t t' u u' v : List Char} {m n : Nat}
  {o : NumeralError}

/-! ## The grammar -/

/-- The characters that stand for themselves. -/
def isPlainChar (c : Char) : Bool :=
  !(['"', '\\', '\n', '\r', '\x0c', '\x0b'].contains c || isControl c)

inductive Radix where
  | decimal
  | hex
  | octal

namespace Radix

def mark : Radix → List Char
  | decimal => []
  | hex => ['x']
  | octal => ['o']

def base : Radix → Nat
  | decimal => 10
  | hex => 16
  | octal => 8

def digit : Radix → Char → Bool
  | decimal => isDigit
  | hex => Number.isHex
  | octal => Number.isOctal

/-- The number that digits denote, the last of them being the lowest. -/
def value (k : Radix) (digits : List Char) : Nat :=
  Nat.ofDigits k.base (digits.map digitValue).reverse

example : hex.value ['1', '0', 'f', 'F'] = 0x10FF := by decide

end Radix

/-- What a backslash may have behind it, in front of `s`. -/
inductive Escape : List Char → List Char → Prop where
  | single {c : Char} {s : List Char} (known : c ∈ "abfnrtv\\\"'&".toList) : Escape [c] s
  | caret {c : Char} {s : List Char} (known : c ∈ "@ABCDEFGHIJKLMNOPQRSTUVWXYZ[\\]^_".toList) :
      Escape ['^', c] s
  | numeral {digits s : List Char} (k : Radix) (some : digits ≠ [])
      (all : ∀ d ∈ digits, k.digit d = true) (maximal : s.head?.any k.digit = false)
      (inRange : k.value digits ≤ 0x10FFFF) : Escape (k.mark ++ digits) s
  | name {e s : List Char} (known : e ∈ controlNames) : Escape e s
  | gap {blanks s : List Char} (some : blanks ≠ []) (all : ∀ d ∈ blanks, isBlank d = true) :
      Escape (blanks ++ ['\\']) s

/-- Items up to the quote that closes the string, that quote included. -/
inductive Closed : List Char → Prop where
  | close : Closed ['"']
  | plain {c : Char} {s : List Char} (ok : isPlainChar c = true) (more : Closed s) :
      Closed (c :: s)
  | escape {e s : List Char} (ok : Escape e s) (more : Closed s) : Closed ('\\' :: (e ++ s))

/-- `t` is what a string has behind its opening quote, in a text that goes on
with `r` there. -/
def Completes (t r : List Char) : Prop := Closed t ∧ t <+: r

/-- The text goes on with a decimal numeral that is too long to be read. -/
structure Overlong (o : NumeralError) (s : List Char) : Prop where
  run : runLength isDigit s = o.digits
  many : NumeralError.maxDigits < o.digits

/-- Items up to the first numeral that is too long, and whatever follows. -/
inductive Exceeds (o : NumeralError) : List Char → Prop where
  | numeral {s : List Char} (here : Overlong o s) : Exceeds o ('\\' :: s)
  | plain {c : Char} {s : List Char} (ok : isPlainChar c = true) (more : Exceeds o s) :
      Exceeds o (c :: s)
  | escape {e s : List Char} (ok : Escape e s) (short : ¬∃ o', Overlong o' (e ++ s))
      (more : Exceeds o s) : Exceeds o ('\\' :: (e ++ s))

/-- An escape looks no further than at the next character. -/
theorem Escape.congr (h : Escape e s) (same : s.head? = t.head?) : Escape e t := by
  cases h with
  | single known => exact .single known
  | caret known => exact .caret known
  | numeral k some all maximal inRange => exact .numeral k some all (same ▸ maximal) inRange
  | name known => exact .name known
  | gap some all => exact .gap some all

theorem Closed.ne_nil (h : Closed t) : t ≠ [] := by
  cases h <;> exact List.cons_ne_nil _ _

theorem Closed.head?_append (h : Closed t) (u : List Char) : (t ++ u).head? = t.head? := by
  obtain ⟨c, s, rfl⟩ := List.exists_cons_of_ne_nil h.ne_nil
  rfl

theorem Closed.plains (plain : d.all isPlainChar = true) (h : Closed s) : Closed (d ++ s) := by
  induction d with
  | nil => exact h
  | cons c d ih =>
    rw [List.all_cons, Bool.and_eq_true] at plain
    exact .plain plain.1 (ih plain.2)

/-- Characters that stand for themselves are items in front of any others. -/
theorem Closed.drop_plains (plain : d.all isPlainChar = true) (h : Closed s)
    (split : s ++ u = d ++ v) : ∃ t, s = d ++ t ∧ Closed t := by
  induction d generalizing s with
  | nil => exact ⟨s, rfl, h⟩
  | cons c d ih =>
    rw [List.all_cons, Bool.and_eq_true] at plain
    cases h with
    | close =>
      obtain ⟨rfl, -⟩ := List.cons.inj split
      cases plain.1
    | escape =>
      obtain ⟨rfl, -⟩ := List.cons.inj split
      cases plain.1
    | plain _ more =>
      obtain ⟨rfl, rest⟩ := List.cons.inj split
      obtain ⟨t, rfl, closed⟩ := ih plain.2 more rest
      exact ⟨t, rfl, closed⟩

/-! ## What is accepted is in the grammar -/

theorem isPlainChar_iff :
    isPlainChar c = true ↔ c ≠ '"' ∧ c ≠ '\\' ∧ isStringBreak c = false := by
  simp [isPlainChar, isStringBreak, and_assoc]

theorem mem_singles : c ∈ "abfnrtv\\\"'&".toList ↔ (isShortEscape c || c = '&') = true := by
  change c ∈ ['a', 'b', 'f', 'n', 'r', 't', 'v', '\\', '"', '\'', '&'] ↔ _
  simp [isShortEscape, or_assoc]

theorem mem_carets : c ∈ "@ABCDEFGHIJKLMNOPQRSTUVWXYZ[\\]^_".toList ↔ isCaretEscape c = true := by
  constructor
  · exact List.all_eq_true.1 (by decide : List.all _ isCaretEscape = true) c
  · intro caret
    have bounds := caret
    simp only [isCaretEscape, Bool.and_eq_true, decide_eq_true_eq] at bounds
    have upper : c.toNat ≤ '_'.toNat := bounds.2
    have last : '_'.toNat = 95 := rfl
    revert caret
    apply ascii_forall (fun c => isCaretEscape c = true → c ∈ _) (by decide +kernel)
    omega

theorem numeral_eq_ofDigits (base : Nat) (digits : List Char) :
    numeral base digits = Nat.ofDigits base (digits.map digitValue).reverse := by
  rw [Nat.ofDigits_eq_foldr, List.foldr_reverse, List.foldl_map, numeral]
  congr
  funext n d
  simp [Nat.mul_comm, Nat.add_comm]

theorem escape_of_numericEscape (k : Radix) (h : numericEscape k.digit k.base s = .ok n) :
    Escape (k.mark ++ s.take n) (s.drop n) := by
  obtain ⟨some, -, inRange, rfl⟩ := numericEscape_eq_ok_iff.1 h
  rw [take_runLength, drop_runLength]
  apply Escape.numeral k some
  · intro d mem
    exact List.mem_takeWhile_imp mem
  · exact stops_dropWhile k.digit s
  · rwa [Radix.value, ← numeral_eq_ofDigits]

theorem escape_of_escapeLength (h : escapeLength true s = .ok n) :
    Escape (s.take n) (s.drop n) := by
  cases s with
  | nil => cases h
  | cons c r =>
    simp only [escapeLength] at h
    split at h
    · rename_i single
      cases h
      exact .single (mem_singles.2 single)
    split at h
    · rename_i caret
      subst caret
      split at h <;> cases h
      rename_i control
      cases r with
      | nil => cases control
      | cons d r => exact .caret (mem_carets.2 control)
    split at h
    · exact escape_of_numericEscape .decimal h
    split at h
    · rename_i mark
      obtain ⟨m, digits, rfl⟩ := ok_of_map h
      rw [mark]
      exact escape_of_numericEscape .hex digits
    split at h
    · rename_i mark
      obtain ⟨m, digits, rfl⟩ := ok_of_map h
      rw [mark]
      exact escape_of_numericEscape .octal digits
    split at h <;> cases h
    rename_i name found
    have front : name.isPrefixOf (c :: r) = true := by simpa using List.find?_some found
    rw [← List.prefix_iff_eq_take.1 (List.isPrefixOf_iff_prefix.1 front)]
    exact .name (List.mem_of_find?_eq_some found)

theorem escape_of_gapLength (blank : s.head?.any isBlank = true) (h : gapLength s = .ok n) :
    Escape (s.take n) (s.drop n) := by
  simp only [gapLength] at h
  split at h <;> cases h
  rename_i mark
  obtain ⟨u, behind⟩ := List.head?_eq_some_iff.1 mark
  have taken : s.take (runLength isBlank s + 1) = s.takeWhile isBlank ++ ['\\'] := by
    rw [List.take_add, take_runLength, behind]
    rfl
  rw [taken]
  apply Escape.gap
  · cases s with
    | nil => cases blank
    | cons c r =>
      rw [List.takeWhile_cons_of_pos (by simpa using blank)]
      exact List.cons_ne_nil _ _
  · intro d mem
    exact List.mem_takeWhile_imp mem

theorem escape_of_backslashLength (h : backslashLength s = .ok n) :
    Escape (s.take n) (s.drop n) := by
  unfold backslashLength at h
  split at h
  · rename_i blank
    exact escape_of_gapLength blank h
  · exact escape_of_escapeLength h

/-- What the scanner takes behind what it skips is in the grammar. -/
theorem closed_of_stringLength (h : stringLength m s = .ok n) :
    ∃ t, Completes t (s.drop m) ∧ n = m + t.length := by
  fun_induction stringLength m s generalizing n with
  | case1 | case5 => cases h
  | case2 m c r ih =>
    obtain ⟨j, hj, rfl⟩ := ok_of_map h
    obtain ⟨t, completes, rfl⟩ := ih hj
    exact ⟨t, completes, by omega⟩
  | case3 r =>
    cases h
    exact ⟨['"'], ⟨.close, r, rfl⟩, rfl⟩
  | case4 r _ ih =>
    obtain ⟨i, back, hr⟩ := ok_of_bind h
    obtain ⟨j, hj, rfl⟩ := ok_of_map hr
    obtain ⟨t, ⟨closed, u, behind⟩, rfl⟩ := ih i hj
    have escape := escape_of_backslashLength back
    rw [← behind] at escape
    refine ⟨'\\' :: (r.take i ++ t), ⟨?_, u, ?_⟩, ?_⟩
    · exact .escape (escape.congr (closed.head?_append u)) closed
    · simp only [List.cons_append, List.append_assoc, behind, List.take_append_drop, List.drop_zero]
    · have some := List.length_pos_iff.2 closed.ne_nil
      have inside := congrArg List.length behind
      rw [List.length_append, List.length_drop] at inside
      simp only [List.length_cons, List.length_append, List.length_take]
      omega
  | case6 c r noQuote noBackslash noBreak ih =>
    obtain ⟨j, hj, rfl⟩ := ok_of_map h
    obtain ⟨t, ⟨closed, u, behind⟩, rfl⟩ := ih hj
    refine ⟨c :: t, ⟨.plain ?_ closed, u, congrArg (c :: ·) behind⟩, ?_⟩
    · exact isPlainChar_iff.2 ⟨noQuote, noBackslash, by simpa using noBreak⟩
    · simp only [List.length_cons]
      omega

/-! ## Numerals that are too long -/

theorem numericEscape_eq_numeral_iff {digit : Char → Bool} {base : Nat} :
    numericEscape digit base s = .error (.numeral o) ↔
      isTooLong base (s.takeWhile digit) = true ∧ runLength digit s = o.digits := by
  by_cases none : s.takeWhile digit = []
  · simp [numericEscape, none, isTooLong]
  cases long : isTooLong base (s.takeWhile digit) with
  | true =>
    obtain ⟨digits⟩ := o
    simp [numericEscape, none, long, runLength]
  | false =>
    by_cases range : maxCodePoint < numeral base (s.takeWhile digit)
    · simp [numericEscape, none, long, range]
    · simp [numericEscape, none, long, range]

theorem isTooLong_decimal : isTooLong 10 s = true ↔ NumeralError.maxDigits < s.length := by
  simp [isTooLong]

theorem numericEscape_decimal_iff :
    numericEscape isDigit 10 s = .error (.numeral o) ↔ Overlong o s := by
  rw [numericEscape_eq_numeral_iff, isTooLong_decimal]
  constructor
  · rintro ⟨many, run⟩
    exact ⟨run, run ▸ many⟩
  · rintro ⟨run, many⟩
    rw [← run] at many
    exact ⟨many, run⟩

/-- Only decimal numerals can be too long. -/
theorem numericEscape_bits {digit : Char → Bool} {base : Nat} (bits : base ≠ 10) :
    (numericEscape digit base s).map (· + 1) ≠ .error (.numeral o) := by
  intro h
  have long := (numericEscape_eq_numeral_iff.1 (error_of_map h)).1
  simp [isTooLong, bits] at long

theorem overlong_of_digits (all : ∀ d ∈ s, isDigit d = true) (stops : u.head?.any isDigit = false)
    (many : NumeralError.maxDigits < s.length) : Overlong ⟨s.length⟩ (s ++ u) where
  run := by rw [runLength_append_of_stops stops, runLength, List.takeWhile_eq_self_iff.2 all]
  many := many

theorem Overlong.digit (h : Overlong o s) : ∃ c r, s = c :: r ∧ isDigit c = true := by
  obtain ⟨run, many⟩ := h
  cases s with
  | nil =>
    rw [← run] at many
    cases many
  | cons c r =>
    refine ⟨c, r, rfl, ?_⟩
    by_contra noDigit
    rw [runLength, List.takeWhile_cons_of_neg noDigit, List.length_nil] at run
    rw [← run] at many
    cases many

/-- A digit is none of the escapes that are tried before numbers. -/
theorem escapeLength_digit {b : Bool} (digit : isDigit c = true) (u : List Char) :
    escapeLength b (c :: u) = numericEscape isDigit 10 (c :: u) := by
  obtain ⟨noShort, noEmpty, noCaret⟩ := ascii_forall
    (fun c => isDigit c = true → isShortEscape c = false ∧ c ≠ '&' ∧ c ≠ '^')
    (by decide +kernel) (ascii_of_isDigit digit) digit
  rw [escapeLength, if_neg (by simp [noShort, noEmpty]), if_neg noCaret, if_pos digit]

theorem escapeLength_eq_numeral_iff {b : Bool} :
    escapeLength b s = .error (.numeral o) ↔ Overlong o s := by
  constructor
  · intro h
    cases s with
    | nil => cases h
    | cons c r =>
      simp only [escapeLength] at h
      split at h
      · cases h
      split at h
      · split at h <;> cases h
      split at h
      · exact numericEscape_decimal_iff.1 h
      split at h
      · exact absurd h (numericEscape_bits (by decide))
      split at h
      · exact absurd h (numericEscape_bits (by decide))
      split at h <;> cases h
  · intro h
    obtain ⟨c, r, rfl, digit⟩ := h.digit
    rw [escapeLength_digit digit]
    exact numericEscape_decimal_iff.2 h

theorem backslashLength_digit (digit : isDigit c = true) (u : List Char) :
    backslashLength (c :: u) = numericEscape isDigit 10 (c :: u) := by
  have noBlank : isBlank c = false := ascii_forall (fun c => isDigit c = true → isBlank c = false)
    (by decide +kernel) (ascii_of_isDigit digit) digit
  rw [backslashLength, if_neg (by simp [noBlank]), escapeLength_digit digit]

theorem backslashLength_eq_numeral_iff :
    backslashLength s = .error (.numeral o) ↔ Overlong o s := by
  constructor
  · intro h
    unfold backslashLength at h
    split at h
    · simp only [gapLength] at h
      split at h <;> cases h
    · exact escapeLength_eq_numeral_iff.1 h
  · intro h
    obtain ⟨c, r, rfl, digit⟩ := h.digit
    rw [backslashLength_digit digit]
    exact numericEscape_decimal_iff.2 h

/-- Where the scanner meets a numeral that is too long, it has taken items up to
it, behind what it skips. -/
theorem exceeds_of_stringLength (h : stringLength m s = .error (.numeral o)) :
    Exceeds o (s.drop m) := by
  fun_induction stringLength m s with
  | case1 | case3 | case5 => cases h
  | case2 m c r ih => exact ih (error_of_map h)
  | case4 r _ ih =>
    cases back : backslashLength r with
    | error cause =>
      rw [back] at h
      cases h
      exact .numeral (backslashLength_eq_numeral_iff.1 back)
    | ok i =>
      rw [back] at h
      have escape := Exceeds.escape (escape_of_backslashLength back) ?_ (ih i (error_of_map h))
      · rwa [List.take_append_drop] at escape
      · rw [List.take_append_drop]
        rintro ⟨o', long⟩
        rw [backslashLength_eq_numeral_iff.2 long] at back
        cases back
  | case6 c r noQuote noBackslash noBreak ih =>
    apply Exceeds.plain
    · exact isPlainChar_iff.2 ⟨noQuote, noBackslash, by simpa using noBreak⟩
    · exact ih (error_of_map h)

/-! ## All of the grammar is accepted -/

theorem stringLength_skip (p u : List Char) :
    stringLength p.length (p ++ u) = (stringLength 0 u).map (· + p.length) := by
  induction p with
  | nil =>
    simp only [List.length_nil, List.nil_append, Nat.add_zero]
    cases stringLength 0 u <;> rfl
  | cons c p ih =>
    simp only [List.length_cons, List.cons_append, stringLength, ih]
    cases stringLength 0 u <;> rfl

theorem stringLength_plain (h : isPlainChar c = true) (u : List Char) :
    stringLength 0 (c :: u) = (stringLength 0 u).map (· + 1) := by
  obtain ⟨noQuote, noBackslash, noBreak⟩ := isPlainChar_iff.1 h
  rw [stringLength, if_neg noQuote, if_neg noBackslash, if_neg (by simp [noBreak])]

theorem stringLength_plains (h : t.all isPlainChar = true) (u : List Char) :
    stringLength 0 (t ++ u) = (stringLength 0 u).map (· + t.length) := by
  induction t with
  | nil => exact stringLength_skip [] u
  | cons c t ih =>
    rw [List.all_cons, Bool.and_eq_true] at h
    rw [List.cons_append, stringLength_plain h.1, ih h.2]
    cases stringLength 0 u <;> rfl

theorem numericEscape_of_digits (k : Radix) (some : s ≠ []) (all : ∀ d ∈ s, k.digit d = true)
    (maximal : u.head?.any k.digit = false) (inRange : k.value s ≤ maxCodePoint)
    (short : isTooLong k.base s = false) :
    numericEscape k.digit k.base (s ++ u) = .ok s.length := by
  have run : (s ++ u).takeWhile k.digit = s := by
    rw [takeWhile_append_of_stops maximal]
    exact List.takeWhile_eq_self_iff.2 all
  rw [Radix.value, ← numeral_eq_ofDigits] at inRange
  rw [numericEscape_eq_ok_iff, runLength, run]
  exact ⟨some, short, inRange, rfl⟩

/-- What begins none of the escapes that are tried before the names. -/
def isNameFront (c : Char) : Bool :=
  !(isShortEscape c || c = '&') && c ≠ '^' && !isDigit c && c ≠ 'x' && c ≠ 'o' && !isBlank c

/-- Longer names are tried first. Where one is found that goes on a shorter one,
it does so with characters that could stand for themselves. -/
theorem find_name (known : e ∈ controlNames) (u : List Char) :
    ∃ d v, controlNames.find? (·.isPrefixOf (e ++ u)) = some (e ++ d) ∧ u = d ++ v ∧
      d.all isPlainChar = true := by
  have front : e <+: e ++ u := List.prefix_append e u
  cases found : controlNames.find? (·.isPrefixOf (e ++ u)) with
  | none => exact absurd (List.isPrefixOf_iff_prefix.2 front) (List.find?_eq_none.1 found e known)
  | some name =>
    obtain ⟨isFront, before, behind, split, earlier⟩ := List.find?_eq_some_iff_append.1 found
    have order : controlNames.Pairwise fun a b => a.isPrefixOf b = false := by decide
    have plain : ∀ a ∈ controlNames, ∀ b ∈ controlNames, a.isPrefixOf b = true →
        (b.drop a.length).all isPlainChar = true := by decide
    have listed := List.mem_of_find?_eq_some found
    have place := known
    rw [split, List.mem_append, List.mem_cons] at place
    rw [split] at order
    obtain early | rfl | late := place
    · have passed := earlier e early
      rw [List.isPrefixOf_iff_prefix.2 front] at passed
      cases passed
    · exact ⟨[], u, by rw [List.append_nil], rfl, rfl⟩
    · have apart := (List.pairwise_cons.1 (List.pairwise_append.1 order).2.1).1 e late
      obtain ⟨v, whole⟩ := List.isPrefixOf_iff_prefix.1 isFront
      obtain ⟨d, rfl⟩ | longer := List.prefix_or_prefix_of_prefix front ⟨v, whole⟩
      · rw [List.append_assoc] at whole
        refine ⟨d, v, rfl, (List.append_cancel_left whole).symm, ?_⟩
        have rest := plain e known _ listed (List.isPrefixOf_iff_prefix.2 (List.prefix_append e d))
        rwa [List.drop_left] at rest
      · rw [List.isPrefixOf_iff_prefix.2 longer] at apart
        cases apart

theorem backslashLength_name (known : e ∈ controlNames) (u : List Char) :
    ∃ d v, backslashLength (e ++ u) = .ok (e ++ d).length ∧ u = d ++ v ∧
      d.all isPlainChar = true := by
  obtain ⟨d, v, found, rest, plain⟩ := find_name known u
  have table : ∀ name ∈ controlNames, name.head?.any isNameFront = true := by decide
  have first := table e known
  cases e with
  | nil => cases first
  | cons c e =>
    simp only [List.head?_cons, Option.any_some, isNameFront, Bool.and_eq_true, Bool.not_eq_true',
      decide_eq_true_eq] at first
    obtain ⟨⟨⟨⟨⟨noSingle, noCaret⟩, noDigit⟩, noHex⟩, noOctal⟩, noBlank⟩ := first
    refine ⟨d, v, ?_, rest, plain⟩
    rw [List.cons_append] at found
    simp [backslashLength, escapeLength, noSingle, noCaret, noDigit, noHex, noOctal, noBlank, found]

theorem backslashLength_single (known : c ∈ "abfnrtv\\\"'&".toList) (u : List Char) :
    backslashLength (c :: u) = .ok 1 := by
  have noBlank := List.all_eq_true.1
    (by decide : List.all "abfnrtv\\\"'&".toList (!isBlank ·) = true) c known
  rw [Bool.not_eq_true'] at noBlank
  rw [backslashLength, if_neg (by simp [noBlank]), escapeLength,
    if_pos (by simpa using mem_singles.1 known)]

theorem backslashLength_caret (known : isCaretEscape c = true) (u : List Char) :
    backslashLength ('^' :: c :: u) = .ok 2 := by
  have noBlank : ¬('^' :: c :: u).head?.any isBlank = true := (by decide : ¬isBlank '^' = true)
  have control : (c :: u).head?.any isCaretEscape = true := known
  rw [backslashLength, if_neg noBlank, escapeLength, if_neg (by decide), if_pos rfl, if_pos control]

theorem backslashLength_numeral (k : Radix) (some : s ≠ []) (all : ∀ d ∈ s, k.digit d = true)
    (found : numericEscape k.digit k.base (s ++ u) = .ok s.length) :
    backslashLength (k.mark ++ s ++ u) = .ok (k.mark ++ s).length := by
  cases k with
  | decimal =>
    obtain ⟨c, s, rfl⟩ := List.exists_cons_of_ne_nil some
    exact (backslashLength_digit (all c List.mem_cons_self) (s ++ u)).trans found
  | hex =>
    change (numericEscape Number.isHex 16 (s ++ u)).map (· + 1) = .ok (s.length + 1)
    exact congrArg (Except.map (· + 1)) found
  | octal =>
    change (numericEscape Number.isOctal 8 (s ++ u)).map (· + 1) = .ok (s.length + 1)
    exact congrArg (Except.map (· + 1)) found

theorem backslashLength_gap (some : s ≠ []) (all : ∀ d ∈ s, isBlank d = true) (u : List Char) :
    backslashLength (s ++ '\\' :: u) = .ok (s.length + 1) := by
  obtain ⟨c, r, rfl⟩ := List.exists_cons_of_ne_nil some
  have stops : ('\\' :: u).head?.any isBlank = false := (by decide : isBlank '\\' = false)
  have run : runLength isBlank (c :: r ++ '\\' :: u) = (c :: r).length := by
    rw [runLength_append_of_stops stops, runLength, List.takeWhile_eq_self_iff.2 all]
  have blank : isBlank c = true := all c List.mem_cons_self
  rw [backslashLength, if_pos (by simpa using blank), gapLength]
  simp only [run, List.drop_left, List.head?_cons, if_true]

/-- An escape is taken whole, and with a name perhaps some of what follows. A
numeral may be too long to be taken. -/
theorem backslashLength_of_escape (h : Escape e u) :
    (∃ d v, backslashLength (e ++ u) = .ok (e ++ d).length ∧ u = d ++ v ∧
        d.all isPlainChar = true) ∨
      backslashLength (e ++ u) = .error (.numeral ⟨e.length⟩) := by
  have alone (found : backslashLength (e ++ u) = .ok e.length) :
      ∃ d v, backslashLength (e ++ u) = .ok (e ++ d).length ∧ u = d ++ v ∧
        d.all isPlainChar = true :=
    ⟨[], u, by rw [found, List.append_nil], rfl, rfl⟩
  cases h with
  | single known => exact .inl (alone (backslashLength_single known u))
  | caret known => exact .inl (alone (backslashLength_caret (mem_carets.1 known) u))
  | @numeral digits _ k some all maximal inRange =>
    cases short : isTooLong k.base digits with
    | false =>
      have found := numericEscape_of_digits k some all maximal inRange short
      exact .inl (alone (backslashLength_numeral k some all found))
    | true =>
      right
      cases k with
      | decimal =>
        have long := overlong_of_digits all maximal (isTooLong_decimal.1 short)
        exact backslashLength_eq_numeral_iff.2 long
      | hex | octal => cases short
  | name known => exact .inl (backslashLength_name known u)
  | gap some all =>
    left
    apply alone
    rw [List.append_assoc, List.length_append]
    exact backslashLength_gap some all u

theorem stringLength_escape (h : Escape e u) (short : ¬∃ o, Overlong o (e ++ u)) :
    stringLength 0 ('\\' :: (e ++ u)) = (stringLength 0 u).map (· + (e.length + 1)) := by
  obtain ⟨d, v, found, rfl, plain⟩ | long := backslashLength_of_escape h
  · rw [stringLength, if_neg (by decide), if_pos rfl, found]
    change (stringLength (e ++ d).length (e ++ (d ++ v))).map (· + 1) = _
    rw [← List.append_assoc, stringLength_skip, stringLength_plains plain]
    cases stringLength 0 v with
    | error cause => rfl
    | ok n =>
      simp only [Except.map, List.length_append]
      congr 1
      omega
  · exact absurd ⟨_, backslashLength_eq_numeral_iff.1 long⟩ short

theorem stringLength_eq_numeral_iff : stringLength 0 r = .error (.numeral o) ↔ Exceeds o r := by
  constructor
  · intro h
    exact exceeds_of_stringLength h
  · intro h
    induction h with
    | numeral here =>
      rw [stringLength, if_neg (by decide), if_pos rfl, backslashLength_eq_numeral_iff.2 here]
      rfl
    | plain ok _ ih =>
      rw [stringLength_plain ok, ih]
      rfl
    | escape ok short _ ih =>
      rw [stringLength_escape ok short, ih]
      rfl

theorem stringLength_of_closed (h : Closed t) (u : List Char)
    (short : ¬∃ o, Exceeds o (t ++ u)) : stringLength 0 (t ++ u) = .ok t.length := by
  induction h with
  | close => rfl
  | plain ok _ ih =>
    rw [List.cons_append, stringLength_plain ok, ih fun ⟨o, more⟩ => short ⟨o, .plain ok more⟩]
    rfl
  | @escape e s ok more ih =>
    have escape := ok.congr (more.head?_append u).symm
    rw [List.cons_append, List.append_assoc] at short ⊢
    have first : ¬∃ o, Overlong o (e ++ (s ++ u)) := fun ⟨o, long⟩ => short ⟨o, .numeral long⟩
    rw [stringLength_escape escape first, ih fun ⟨o, more⟩ => short ⟨o, .escape escape first more⟩]
    simp only [Except.map, List.length_cons, List.length_append]
    congr 1
    omega

theorem stringLength_eq_ok_iff :
    stringLength 0 r = .ok n ↔
      (∃ t, Completes t r ∧ n = t.length) ∧ ¬∃ o, Exceeds o r := by
  constructor
  · intro h
    obtain ⟨t, completes, rfl⟩ := closed_of_stringLength h
    refine ⟨⟨t, completes, Nat.zero_add _⟩, ?_⟩
    rintro ⟨o, long⟩
    rw [stringLength_eq_numeral_iff.2 long] at h
    cases h
  · rintro ⟨⟨t, ⟨closed, u, rfl⟩, rfl⟩, short⟩
    exact stringLength_of_closed closed u short

/-! ## There is one way to go on -/

/-- Of two escapes in one place the longer one goes on with characters that
stand for themselves. -/
theorem Escape.comparable (h : Escape e u) (h' : Escape e' u') (same : e ++ u = e' ++ u') :
    ∃ d, d.all isPlainChar = true ∧ (e' = e ++ d ∨ e = e' ++ d) := by
  have length := backslashLength_of_escape h
  have length' := backslashLength_of_escape h'
  rw [← same] at length'
  obtain ⟨d, v, found, rfl, plain⟩ | long := length
  · obtain ⟨d', v', found', rfl, plain'⟩ | long' := length'
    · have ends : (e ++ d).length = (e' ++ d').length :=
        Except.ok.inj (found.symm.trans found')
      rw [← List.append_assoc, ← List.append_assoc] at same
      have both := (List.append_inj same ends).1
      obtain ⟨f, rfl, rfl⟩ | ⟨f, rfl, rfl⟩ := List.append_eq_append_iff.1 both
      · rw [List.all_append, Bool.and_eq_true] at plain
        exact ⟨f, plain.1, .inl rfl⟩
      · rw [List.all_append, Bool.and_eq_true] at plain'
        exact ⟨f, plain'.1, .inr rfl⟩
    · rw [found] at long'
      cases long'
  · obtain ⟨d', v', found', rfl, plain'⟩ | long' := length'
    · rw [found'] at long
      cases long
    · rw [long] at long'
      injection long' with cause
      injection cause with numeral
      injection numeral with digits
      refine ⟨[], rfl, .inl ?_⟩
      rw [List.append_nil]
      exact (List.append_inj same digits).1.symm

theorem Closed.eq_of_append (h : Closed t) (h' : Closed t') (same : t ++ u = t' ++ u') :
    t = t' := by
  induction h generalizing t' with
  | close =>
    cases h' with
    | close => rfl
    | plain ok =>
      obtain ⟨rfl, -⟩ := List.cons.inj same
      cases ok
    | escape => cases (List.cons.inj same).1
  | plain ok more ih =>
    cases h' with
    | close =>
      obtain ⟨rfl, -⟩ := List.cons.inj same
      cases ok
    | plain _ more' =>
      obtain ⟨rfl, rest⟩ := List.cons.inj same
      rw [ih more' rest]
    | escape =>
      obtain ⟨rfl, -⟩ := List.cons.inj same
      cases ok
  | @escape e s ok more ih =>
    cases h' with
    | close => cases (List.cons.inj same).1
    | plain ok' =>
      obtain ⟨rfl, -⟩ := List.cons.inj same
      cases ok'
    | @escape e' s' ok' more' =>
      have rest := (List.cons.inj same).2
      simp only [List.append_eq, List.append_assoc] at rest
      have escape := ok.congr (more.head?_append u).symm
      have escape' := ok'.congr (more'.head?_append u').symm
      obtain ⟨d, plain, rfl | rfl⟩ := escape.comparable escape' rest
      · rw [List.append_assoc] at rest
        have inner := List.append_cancel_left rest
        rw [← List.append_assoc] at inner
        rw [ih (.plains plain more') inner, List.append_assoc]
      · rw [List.append_assoc] at rest
        have inner := List.append_cancel_left rest
        obtain ⟨v, rfl, closed⟩ := Closed.drop_plains plain more' inner.symm
        rw [List.append_assoc] at inner
        rw [ih closed (List.append_cancel_left inner), List.append_assoc]

theorem Completes.unique (h : Completes t r) (h' : Completes t' r) : t' = t := by
  obtain ⟨closed, u, rfl⟩ := h
  obtain ⟨closed', u', same⟩ := h'
  exact closed'.eq_of_append closed same

theorem scanString_of_completes (h : Completes t r) (short : ¬∃ o, Exceeds o r) :
    scanString on r = .ok (if hashed on (r.drop t.length) then (.literal .primString, t.length + 1)
      else (.literal .string, t.length)) := by
  rw [scanString, stringLength_eq_ok_iff.2 ⟨⟨t, h, rfl⟩, short⟩]
  rfl

theorem completes_of_scanString {kind : Kind} (h : scanString on r = .ok (kind, n)) :
    (∃ t, Completes t r ∧ (kind, n) = if hashed on (r.drop t.length)
        then (.literal .primString, t.length + 1) else (.literal .string, t.length)) ∧
      ¬∃ o, Exceeds o r := by
  obtain ⟨m, length, -⟩ := ok_of_bind h
  obtain ⟨⟨t, completes, -⟩, short⟩ := stringLength_eq_ok_iff.1 length
  rw [scanString_of_completes completes short] at h
  exact ⟨⟨t, completes, (Except.ok.inj h).symm⟩, short⟩

theorem scanString_eq_numeral_iff : scanString on r = .error (.numeral o) ↔ Exceeds o r := by
  rw [← stringLength_eq_numeral_iff]
  constructor
  · intro h
    obtain length | ⟨n, -, found⟩ := error_of_bind h
    · exact length
    · cases found
  · intro h
    rw [scanString, h]
    rfl

end Literal

namespace Lexer

variable {x y : Lexer} {l : Lexeme} {out : List (Token × Lexer)} {r t : List Char}

theorem scan_quote (x : Lexer) (r : List Char) :
    Lexeme.scan x.site '"' r = Literal.scanString x.config.enabled r :=
  Lexeme.scan_string x.site r

theorem completes_of_step (front : x.skipBlanks.rest = '"' :: r) (h : Step x l out y) :
    (∃ t, Literal.Completes t r) ∧ ¬∃ o, Literal.Exceeds o r := by
  obtain ⟨n, scanned, -⟩ := scan_of_step front h
  rw [scan_quote] at scanned
  obtain ⟨⟨t, completes, -⟩, short⟩ := Literal.completes_of_scanString scanned
  exact ⟨⟨t, completes⟩, short⟩

theorem step_of_completes (front : x.skipBlanks.rest = '"' :: r) (h : Literal.Completes t r)
    (short : ¬∃ o, Literal.Exceeds o r) : ∃ l out y, Step x l out y := by
  have scanned := (scan_quote x.skipBlanks r).trans (Literal.scanString_of_completes h short)
  split at scanned
  · exact ⟨_, _, _, .take front scanned rfl⟩
  · exact ⟨_, _, _, .take front scanned rfl⟩

/-- A string is what completes it, and a hash makes it primitive. -/
theorem string_of_step (front : x.skipBlanks.rest = '"' :: r) (completes : Literal.Completes t r)
    (h : Step x l out y) :
    l.span.start = x.skipBlanks.here ∧
      if x.config.enabled .magicHash = true ∧ (r.drop t.length).head? = some '#' then
        l.kind = .literal .primString ∧ l.text = '"' :: t ++ ['#']
      else l.kind = .literal .string ∧ l.text = '"' :: t := by
  have short := (completes_of_step front h).2
  obtain ⟨n, scanned, text, start⟩ := scan_of_step front h
  rw [scan_quote, Literal.scanString_of_completes completes short] at scanned
  obtain ⟨-, u, rfl⟩ := completes
  have hash : Literal.hashed x.skipBlanks.config.enabled ((t ++ u).drop t.length) = true ↔
      x.config.enabled .magicHash = true ∧ u.head? = some '#' := by
    rw [List.drop_left, Literal.hashed, Bool.and_eq_true, decide_eq_true_eq]
    rfl
  refine ⟨start, ?_⟩
  rw [List.drop_left, text]
  split at scanned
  · rename_i hashed
    obtain ⟨kind, rfl⟩ := Prod.mk.inj (Except.ok.inj scanned)
    obtain ⟨v, rfl⟩ := List.head?_eq_some_iff.1 (hash.1 hashed).2
    rw [if_pos (hash.1 hashed), List.take_length_add_append]
    exact ⟨kind.symm, rfl⟩
  · rename_i plain
    obtain ⟨kind, rfl⟩ := Prod.mk.inj (Except.ok.inj scanned)
    rw [if_neg fun both => plain (hash.2 both), List.take_left]
    exact ⟨kind.symm, rfl⟩

/-- A string that is not taken ends the trace where it begins. -/
theorem failed_of_scanString {cause : LexCause} (front : x.skipBlanks.rest = '"' :: r)
    (h : Literal.scanString x.config.enabled r = .error cause) :
    x.trace.items = [] ∧ x.trace.error? = some ⟨cause, x.skipBlanks.here⟩ :=
  trace_of_failed front ((scan_quote x.skipBlanks r).trans h)

end Lexer

open Lexer Literal in
/-- **Strings.** A lexer that comes to a double quote takes a lexeme there just
if the text goes on with items and a quote, none of the items a decimal numeral
that is too long to be read. There is one way to go on so, and the lexeme is that
text, or with a hash behind it that makes it primitive. Where the text does not
go on so, it does not lex, and the report stands at the quote that opens the
string. At a numeral that is too long the lexer gives up without a report. -/
theorem string_grammar (x : Lexer) {r : List Char} (front : x.skipBlanks.rest = '"' :: r) :
    ((∃ l out y, Step x l out y) ↔ (∃ t, Completes t r) ∧ ¬∃ o, Exceeds o r) ∧
      (∀ t, Completes t r → (∀ t', Completes t' r → t' = t) ∧
        ∀ l out y, Step x l out y → l.span.start = x.skipBlanks.here ∧
          if x.config.enabled .magicHash = true ∧ (r.drop t.length).head? = some '#' then
            l.kind = .literal .primString ∧ l.text = '"' :: t ++ ['#']
          else l.kind = .literal .string ∧ l.text = '"' :: t) ∧
      ((¬∃ t, Completes t r) → (¬∃ o, Exceeds o r) → ∃ cause, x.trace.items = [] ∧
        x.trace.error? = some ⟨cause, x.skipBlanks.here⟩ ∧
        ∀ config text ls out, Run (start config text) ls out x →
          lex config text = .error (.lexical (.ofCause config cause x.skipBlanks.here))) ∧
      ∀ o, Exceeds o r → x.trace.items = [] ∧
        x.trace.error? = some ⟨.numeral o, x.skipBlanks.here⟩ ∧
        ∀ config text ls out, Run (start config text) ls out x →
          lex config text = .error (.numeral o) := by
  refine ⟨⟨?_, ?_⟩, ?_, ?_, ?_⟩
  · rintro ⟨l, out, y, step⟩
    exact completes_of_step front step
  · rintro ⟨⟨t, completes⟩, short⟩
    exact step_of_completes front completes short
  · intro t completes
    refine ⟨fun t' => completes.unique, ?_⟩
    intro l out y step
    exact string_of_step front completes step
  · intro incomplete short
    cases scanned : scanString x.config.enabled r with
    | ok found =>
      obtain ⟨⟨t, completes, -⟩, -⟩ := completes_of_scanString scanned
      exact absurd ⟨t, completes⟩ incomplete
    | error cause =>
      obtain ⟨items, error⟩ := failed_of_scanString front scanned
      refine ⟨cause, items, error, ?_⟩
      intro config text ls out run
      rw [lex_of_failed_run run error]
      cases cause with
      | numeral o => exact absurd ⟨o, scanString_eq_numeral_iff.1 scanned⟩ short
      | _ => rfl
  · intro o long
    obtain ⟨items, error⟩ := failed_of_scanString front (scanString_eq_numeral_iff.2 long)
    refine ⟨items, error, ?_⟩
    intro config text ls out run
    exact lex_of_failed_run run error

open Lexer Literal in
/-- A name, a gap over a line feed and a number, in a primitive string. -/
theorem string_grammar_gap :
    let t := ['\\', 'S', 'O', 'H', '\\', '\n', ' ', '\\', '\\', 'x', '4', '1', '"']
    let x := start .permissive ('"' :: t ++ ['#'])
    x.skipBlanks.rest = '"' :: (t ++ ['#']) ∧ Completes t (t ++ ['#']) ∧
      ∃ l out y, Step x l out y ∧ l.kind = .literal .primString ∧ l.text = '"' :: t ++ ['#'] := by
  intro t x
  have front : x.skipBlanks.rest = '"' :: (t ++ ['#']) := by decide
  have number : Closed ['\\', 'x', '4', '1', '"'] := by
    apply Closed.escape (e := ['x', '4', '1'])
    · apply Escape.numeral .hex (List.cons_ne_nil _ _)
      · exact List.all_eq_true.1 (by decide : List.all ['4', '1'] Number.isHex = true)
      · rfl
      · decide
    · exact .close
  have gap : Closed ['\\', '\n', ' ', '\\', '\\', 'x', '4', '1', '"'] := by
    have blanks : ∀ d ∈ ['\n', ' '], isBlank d = true :=
      List.all_eq_true.1 (by decide : List.all ['\n', ' '] isBlank = true)
    apply Closed.escape (e := ['\n', ' ', '\\'])
    · exact .gap (List.cons_ne_nil _ _) blanks
    · exact number
  have closed : Closed t := by
    apply Closed.escape (e := ['S', 'O', 'H'])
    · exact .name (by decide)
    · exact gap
  have completes : Completes t (t ++ ['#']) := ⟨closed, ['#'], rfl⟩
  have short : ¬∃ o, Exceeds o (t ++ ['#']) := by
    rintro ⟨o, long⟩
    rw [← stringLength_eq_numeral_iff] at long
    cases long
  obtain ⟨begins, found, -⟩ := string_grammar x front
  obtain ⟨l, out, y, step⟩ := begins.2 ⟨⟨t, completes⟩, short⟩
  have primitive := ((found t completes).2 l out y step).2
  rw [if_pos ⟨rfl, rfl⟩] at primitive
  exact ⟨front, completes, l, out, y, step, primitive⟩

end HaskellLexis
