import HaskellLexis.Proofs.Breaks
import HaskellLexis.Proofs.Run

/-!
# How far a number goes

Numbers are scanned part by part, each as far as it goes, and a part that comes
to nothing is left out. No other way to read the text goes further, for no part
can begin inside the one before it.

* `IsRun`, `Body`, `Numeral`: what a number is, with the kind that goes with it;
* `Longest`, `Longest.seq`: the longest front of a text that has a form, and
  when the longest fronts of two forms make up that of both in turn;
* `number_longest`: a lexer takes the longest number, and its kind.
-/

namespace HaskellLexis

/-! ## Longest fronts -/

/-- The first `n` characters are the longest front of `s` in the form `P`. -/
structure Longest (P : List Char → Prop) (s : List Char) (n : Nat) : Prop where
  inside : n ≤ s.length
  taken : P (s.take n)
  most : ∀ t, P t → t <+: s → t.length ≤ n

/-- A text in the form `P` and then one in the form `Q`. -/
def Then (P Q : List Char → Prop) (t : List Char) : Prop :=
  ∃ a b, t = a ++ b ∧ P a ∧ Q b

namespace Longest

variable {P Q : List Char → Prop} {c : Char} {s t : List Char} {m n : Nat}

theorem length_take (h : Longest P s n) : (s.take n).length = n := by
  rw [List.length_take, Nat.min_eq_left h.inside]

theorem take_ne_nil (h : Longest P s n) : s.take n ≠ [] ↔ n ≠ 0 := by
  rw [← not_iff_not, not_not, not_not, ← List.length_eq_zero_iff, h.length_take]

theorem congr (h : Longest P s n) (same : ∀ t, t <+: s → (Q t ↔ P t)) : Longest Q s n where
  inside := h.inside
  taken := (same _ (List.take_prefix n s)).2 h.taken
  most t ht front := h.most t ((same t front).1 ht) front

/-- Nothing is the longest front where no other one has the form. -/
theorem zero (empty : P []) (none : ∀ d u, P (d :: u) → ¬(d :: u) <+: s) : Longest P s 0 where
  inside := Nat.zero_le _
  taken := empty
  most t ht front := by
    cases t with
    | nil => exact Nat.le_refl 0
    | cons d u => exact absurd front (none d u ht)

theorem nil (empty : P []) : Longest P [] 0 := by
  apply zero empty
  intro d u _ front
  cases List.prefix_nil.1 front

theorem barred (empty : P []) (bar : ∀ u, ¬P (c :: u)) : Longest P (c :: s) 0 := by
  apply zero empty
  intro d u hu front
  obtain ⟨rfl, -⟩ := List.cons_prefix_cons.1 front
  exact bar u hu

theorem cons (h : Longest P s n) (build : Q (c :: s.take n)) (inner : ∀ t, Q (c :: t) → P t) :
    Longest Q (c :: s) (n + 1) where
  inside := Nat.succ_le_succ h.inside
  taken := build
  most t ht front := by
    cases t with
    | nil => exact Nat.zero_le _
    | cons d u =>
      obtain ⟨rfl, behind⟩ := List.cons_prefix_cons.1 front
      exact Nat.succ_le_succ (h.most u (inner u ht) behind)

theorem orNil (h : Longest P s n) : Longest (fun t => t = [] ∨ P t) s n where
  inside := h.inside
  taken := .inr h.taken
  most t ht front := by
    obtain rfl | ht := ht
    · exact Nat.zero_le n
    · exact h.most t ht front

/-- A mark counts only with something behind it. -/
theorem marked (h : Longest P s n) (empty : Q []) (mark : ∀ t, Q (c :: t) ↔ P t ∧ t ≠ []) :
    Longest Q (c :: s) (if n = 0 then 0 else n + 1) := by
  split
  · rename_i nothing
    apply zero empty
    intro d u hu front
    obtain ⟨rfl, behind⟩ := List.cons_prefix_cons.1 front
    obtain ⟨inner, more⟩ := (mark u).1 hu
    have none := h.most u inner behind
    rw [nothing, Nat.le_zero, List.length_eq_zero_iff] at none
    exact more none
  · rename_i counts
    apply h.cons
    · exact (mark _).2 ⟨h.taken, h.take_ne_nil.2 counts⟩
    · intro t ht
      exact ((mark t).1 ht).1

/-- The longest fronts in turn are the longest, unless the second form may
begin inside the first. -/
theorem seq (h : Longest P s n) (h' : Longest Q (s.drop n) m)
    (apart : ∀ a, P a → ∀ d u, Q (d :: u) → d ∉ a) : Longest (Then P Q) s (n + m) where
  inside := by
    have first := h.inside
    have second := h'.inside
    rw [List.length_drop] at second
    omega
  taken := ⟨s.take n, (s.drop n).take m, List.take_add, h.taken, h'.taken⟩
  most t ht front := by
    obtain ⟨a, b, rfl, ha, hb⟩ := ht
    obtain ⟨v, rfl⟩ := front
    have short := h.most a ha ⟨b ++ v, (List.append_assoc a b v).symm⟩
    rw [List.length_append]
    obtain less | same := Nat.lt_or_eq_of_le short
    · cases b with
      | nil => exact Nat.le_trans short (Nat.le_add_right n m)
      | cons d u =>
        -- the second form would begin at a character of the longest first one
        obtain ⟨j, rfl⟩ : ∃ j, n = a.length + (j + 1) := ⟨n - a.length - 1, by omega⟩
        have taken := h.taken
        rw [List.append_assoc, List.take_length_add_append] at taken
        have inside : d ∈ a ++ (d :: u ++ v).take (j + 1) :=
          List.mem_append_right a List.mem_cons_self
        exact absurd inside (apart _ taken d u hb)
    · subst same
      rw [List.append_assoc, List.drop_left] at h'
      exact Nat.add_le_add_left (h'.most b hb (List.prefix_append b v)) _

end Longest

namespace Number

variable {on : Extensions} {digit : Char → Bool} {underscores : Bool} {c : Char}
  {r s t : List Char}

/-! ## The grammar -/

/-- Digits, and underscores between them where these are allowed. -/
structure IsRun (digit : Char → Bool) (underscores : Bool) (t : List Char) : Prop where
  first : t.head?.any digit = true
  last : t.getLast?.any digit = true
  inner : ∀ d ∈ t, digit d = true ∨ underscores = true ∧ d = '_'

inductive Announces (on : Extensions) : Char → (Char → Bool) → Prop where
  | hex {x : Char} (letter : x = 'x' ∨ x = 'X') : Announces on x isHex
  | octal {x : Char} (letter : x = 'o' ∨ x = 'O') : Announces on x isOctal
  | binary {x : Char} (letter : x = 'b' ∨ x = 'B') (allowed : on .binaryLiterals = true) :
      Announces on x isBinary

inductive Fraction (underscores : Bool) : List Char → Prop where
  | none : Fraction underscores []
  | point {t : List Char} (run : IsRun isDigit underscores t) : Fraction underscores ('.' :: t)

inductive Exponent (underscores : Bool) : List Char → Prop where
  | none : Exponent underscores []
  | power {e : Char} {sign t : List Char} (mark : e = 'e' ∨ e = 'E')
      (signed : sign = [] ∨ sign = ['+'] ∨ sign = ['-']) (run : IsRun isDigit underscores t) :
      Exponent underscores (e :: (sign ++ t))

/-- A number without the hashes, and whether it has a fraction or an exponent. -/
inductive Body (on : Extensions) : Bool → List Char → Prop where
  | radix {x : Char} {digit : Char → Bool} {t : List Char} (letter : Announces on x digit)
      (run : IsRun digit (on .numericUnderscores) t) : Body on false ('0' :: x :: t)
  | decimal {whole fraction exponent : List Char}
      (run : IsRun isDigit (on .numericUnderscores) whole)
      (part : Fraction (on .numericUnderscores) fraction)
      (power : Exponent (on .numericUnderscores) exponent) :
      Body on (fraction ≠ [] || exponent ≠ []) (whole ++ fraction ++ exponent)

inductive Numeral (on : Extensions) : Literal → List Char → Prop where
  | plain {rational : Bool} {t : List Char} (body : Body on rational t) :
      Numeral on (if rational then .rational else .integer) t
  | hash {rational : Bool} {t : List Char} (body : Body on rational t)
      (magic : on .magicHash = true) :
      Numeral on (if rational then .primFloat else .primInt) (t ++ ['#'])
  | hashes {rational : Bool} {t : List Char} (body : Body on rational t)
      (magic : on .magicHash = true) :
      Numeral on (if rational then .primDouble else .primWord) (t ++ ['#', '#'])

/-- `t` is the longest number that `s` begins with, and `k` its kind. -/
structure Leads (on : Extensions) (s : List Char) (k : Literal) (t : List Char) : Prop where
  numeral : Numeral on k t
  front : t <+: s
  longest : ∀ k' t', Numeral on k' t' → t' <+: s → t'.length ≤ t.length
  only : ∀ k', Numeral on k' t → k' = k

/-! ## Runs -/

/-- What goes on a run behind a digit. -/
structure IsTail (digit : Char → Bool) (underscores : Bool) (t : List Char) : Prop where
  last : t.getLast?.all digit = true
  inner : ∀ d ∈ t, digit d = true ∨ underscores = true ∧ d = '_'

theorem isTail_nil : IsTail digit underscores [] := ⟨rfl, nofun⟩

theorem IsRun.ne_nil (h : IsRun digit underscores t) : t ≠ [] := by
  rintro rfl
  cases h.first

theorem isRun_cons :
    IsRun digit underscores (c :: t) ↔ digit c = true ∧ IsTail digit underscores t := by
  constructor
  · rintro ⟨first, last, inner⟩
    refine ⟨first, ?_, (List.forall_mem_cons.1 inner).2⟩
    rw [List.getLast?_cons] at last
    cases behind : t.getLast? with
    | none => rfl
    | some d =>
      rw [behind] at last
      exact last
  · rintro ⟨first, last, inner⟩
    refine ⟨first, ?_, List.forall_mem_cons.2 ⟨.inl first, inner⟩⟩
    rw [List.getLast?_cons]
    cases behind : t.getLast? with
    | none => exact first
    | some d =>
      rw [behind] at last
      exact last

theorem isTail_cons :
    IsTail digit underscores (c :: t) ↔
      IsTail digit underscores t ∧ (digit c = true ∨ underscores = true ∧ c = '_' ∧ t ≠ []) := by
  cases t with
  | nil =>
    constructor
    · rintro ⟨last, _⟩
      exact ⟨isTail_nil, .inl last⟩
    · rintro ⟨_, front⟩
      have first : digit c = true := front.resolve_right fun ⟨_, _, more⟩ => more rfl
      exact ⟨first, List.forall_mem_cons.2 ⟨.inl first, nofun⟩⟩
  | cons d t =>
    have last : (c :: d :: t).getLast? = (d :: t).getLast? := List.getLast?_cons_cons
    constructor
    · intro tail
      obtain ⟨first, inner⟩ := List.forall_mem_cons.1 tail.inner
      refine ⟨⟨last ▸ tail.last, inner⟩, first.imp_right ?_⟩
      rintro ⟨allowed, underscore⟩
      exact ⟨allowed, underscore, List.cons_ne_nil d t⟩
    · rintro ⟨tail, first⟩
      refine ⟨last ▸ tail.last, List.forall_mem_cons.2 ⟨first.imp_right ?_, tail.inner⟩⟩
      rintro ⟨allowed, underscore, _⟩
      exact ⟨allowed, underscore⟩

theorem longest_moreDigits (digit : Char → Bool) (underscores : Bool) (s : List Char) :
    Longest (IsTail digit underscores) s (moreDigits digit underscores s) := by
  induction s with
  | nil => exact Longest.nil isTail_nil
  | cons c r ih =>
    by_cases isDigit : digit c = true
    · rw [moreDigits, if_pos isDigit]
      apply ih.cons
      · exact isTail_cons.2 ⟨ih.taken, .inl isDigit⟩
      · intro t tail
        exact (isTail_cons.1 tail).1
    by_cases allowed : underscores = true ∧ c = '_'
    · have count : moreDigits digit underscores (c :: r) =
          if moreDigits digit underscores r = 0 then 0 else moreDigits digit underscores r + 1 := by
        rw [moreDigits, if_neg isDigit, if_pos (by simpa using allowed)]
        cases moreDigits digit underscores r <;> rfl
      rw [count]
      apply ih.marked isTail_nil
      intro t
      rw [isTail_cons, or_iff_right isDigit, ← and_assoc (a := underscores = true),
        and_iff_right allowed]
    · rw [moreDigits, if_neg isDigit, if_neg (by simpa using allowed)]
      apply Longest.barred isTail_nil
      intro u tail
      obtain digit | ⟨on, underscore, -⟩ := (isTail_cons.1 tail).2
      · exact isDigit digit
      · exact allowed ⟨on, underscore⟩

theorem longest_run (isDigit : digit c = true) (r : List Char) :
    Longest (IsRun digit underscores) (c :: r) (moreDigits digit underscores r + 1) := by
  have tail := longest_moreDigits digit underscores r
  apply tail.cons
  · exact isRun_cons.2 ⟨isDigit, tail.taken⟩
  · intro t run
    exact (isRun_cons.1 run).2

/-- A run of digits, or nothing if there is no digit to start with. -/
theorem longest_digitRun (digit : Char → Bool) (underscores : Bool) (s : List Char) :
    Longest (fun t => t = [] ∨ IsRun digit underscores t) s (digitRun digit underscores s) := by
  cases s with
  | nil => exact Longest.nil (.inl rfl)
  | cons c r =>
    by_cases isDigit : digit c = true
    · rw [digitRun, if_pos isDigit]
      exact (longest_run isDigit r).orNil
    · rw [digitRun, if_neg isDigit]
      apply Longest.barred (.inl rfl)
      intro u run
      exact isDigit (isRun_cons.1 (run.resolve_left (List.cons_ne_nil c u))).1

/-! ## Fractions and exponents -/

theorem fractionLength_point (underscores : Bool) (r : List Char) :
    fractionLength underscores ('.' :: r) =
      if digitRun isDigit underscores r = 0 then 0 else digitRun isDigit underscores r + 1 := by
  simp only [fractionLength]
  cases digitRun isDigit underscores r <;> rfl

theorem fraction_point :
    Fraction underscores ('.' :: t) ↔ (t = [] ∨ IsRun isDigit underscores t) ∧ t ≠ [] := by
  constructor
  · intro h
    cases h with
    | point run => exact ⟨.inr run, run.ne_nil⟩
  · rintro ⟨rfl | run, more⟩
    · exact absurd rfl more
    · exact .point run

theorem longest_fractionLength (underscores : Bool) (s : List Char) :
    Longest (Fraction underscores) s (fractionLength underscores s) := by
  cases s with
  | nil => exact Longest.nil .none
  | cons c r =>
    by_cases point : c = '.'
    · subst point
      rw [fractionLength_point]
      apply (longest_digitRun isDigit underscores r).marked .none
      intro t
      exact fraction_point
    · rw [fractionLength_of_ne underscores point]
      apply Longest.barred .none
      intro u fraction
      cases fraction with
      | point _ => exact point rfl

/-- What an exponent has behind its letter. -/
def Signed (underscores : Bool) (t : List Char) : Prop :=
  ∃ sign run, t = sign ++ run ∧ (sign = [] ∨ sign = ['+'] ∨ sign = ['-']) ∧
    IsRun isDigit underscores run

/-- How much of a text is digits with a sign or without, if there are any. -/
def signedLength (underscores : Bool) : List Char → Nat
  | [] => 0
  | d :: s =>
    if isSign d then
      if digitRun isDigit underscores s = 0 then 0 else digitRun isDigit underscores s + 1
    else digitRun isDigit underscores (d :: s)

theorem exponentLength_cons (underscores : Bool) (c : Char) (r : List Char) :
    exponentLength underscores (c :: r) =
      if c = 'e' ∨ c = 'E' then
        if signedLength underscores r = 0 then 0 else signedLength underscores r + 1
      else 0 := by
  cases r with
  | nil =>
    simp only [exponentLength, signedLength, Bool.or_eq_true, decide_eq_true_eq]
    rfl
  | cons d s =>
    by_cases sign : isSign d = true
    · have signs : ((d :: s).take 1).countP isSign = 1 := by simp [sign]
      have count : signedLength underscores (d :: s) =
          if digitRun isDigit underscores s = 0 then 0 else digitRun isDigit underscores s + 1 :=
        if_pos sign
      simp only [exponentLength, Bool.or_eq_true, decide_eq_true_eq, signs, count,
        List.drop_succ_cons, List.drop_zero]
      cases digitRun isDigit underscores s <;> rfl
    · have signs : ((d :: s).take 1).countP isSign = 0 := by simp [sign]
      have count : signedLength underscores (d :: s) = digitRun isDigit underscores (d :: s) :=
        if_neg sign
      simp only [exponentLength, Bool.or_eq_true, decide_eq_true_eq, signs, count, List.drop_zero]
      cases digitRun isDigit underscores (d :: s) <;> rfl

theorem IsRun.isSign (h : IsRun isDigit underscores (c :: t)) : isSign c = false :=
  ascii_forall (fun c => isDigit c = true → Number.isSign c = false) (by decide +kernel)
    (ascii_of_isDigit h.first) h.first

theorem signed_cons_of_sign (sign : isSign c = true) :
    Signed underscores (c :: t) ↔ IsRun isDigit underscores t := by
  constructor
  · rintro ⟨_, run, whole, rfl | rfl | rfl, isRun⟩
    · rw [List.nil_append] at whole
      rw [← whole] at isRun
      rw [isRun.isSign] at sign
      cases sign
    · cases whole
      exact isRun
    · cases whole
      exact isRun
  · intro run
    simp only [isSign, Bool.or_eq_true, decide_eq_true_eq] at sign
    obtain rfl | rfl := sign
    · exact ⟨['+'], t, rfl, .inr (.inl rfl), run⟩
    · exact ⟨['-'], t, rfl, .inr (.inr rfl), run⟩

theorem signed_cons_of_noSign (noSign : ¬isSign c = true) :
    Signed underscores (c :: t) ↔ IsRun isDigit underscores (c :: t) := by
  constructor
  · rintro ⟨_, run, whole, rfl | rfl | rfl, isRun⟩
    · rw [List.nil_append] at whole
      exact whole ▸ isRun
    · cases whole
      exact absurd rfl noSign
    · cases whole
      exact absurd rfl noSign
  · intro run
    exact ⟨[], c :: t, rfl, .inl rfl, run⟩

theorem Signed.ne_nil (h : Signed underscores t) : t ≠ [] := by
  obtain ⟨sign, run, rfl, -, isRun⟩ := h
  exact List.append_ne_nil_of_right_ne_nil sign isRun.ne_nil

theorem longest_signedLength (underscores : Bool) (r : List Char) :
    Longest (fun t => t = [] ∨ Signed underscores t) r (signedLength underscores r) := by
  cases r with
  | nil => exact Longest.nil (.inl rfl)
  | cons d s =>
    rw [signedLength]
    split
    · rename_i sign
      apply (longest_digitRun isDigit underscores s).marked (.inl rfl)
      intro t
      rw [or_iff_right (List.cons_ne_nil d t), signed_cons_of_sign sign]
      constructor
      · intro run
        exact ⟨.inr run, run.ne_nil⟩
      · rintro ⟨run, more⟩
        exact run.resolve_left more
    · rename_i noSign
      apply (longest_digitRun isDigit underscores (d :: s)).congr
      intro t front
      cases t with
      | nil => exact iff_of_true (.inl rfl) (.inl rfl)
      | cons c t =>
        obtain ⟨rfl, -⟩ := List.cons_prefix_cons.1 front
        rw [signed_cons_of_noSign noSign]

theorem exponent_cons (mark : c = 'e' ∨ c = 'E') :
    Exponent underscores (c :: t) ↔ (t = [] ∨ Signed underscores t) ∧ t ≠ [] := by
  constructor
  · intro h
    cases h with
    | @power _ sign run _ signed isRun =>
      have signed : Signed underscores (sign ++ run) := ⟨sign, run, rfl, signed, isRun⟩
      exact ⟨.inr signed, signed.ne_nil⟩
  · rintro ⟨signed, more⟩
    obtain ⟨sign, run, rfl, signed, isRun⟩ := signed.resolve_left more
    exact .power mark signed isRun

theorem longest_exponentLength (underscores : Bool) (s : List Char) :
    Longest (Exponent underscores) s (exponentLength underscores s) := by
  cases s with
  | nil => exact Longest.nil .none
  | cons c r =>
    rw [exponentLength_cons]
    split
    · rename_i mark
      apply (longest_signedLength underscores r).marked .none
      intro t
      exact exponent_cons mark
    · rename_i noMark
      apply Longest.barred .none
      intro u exponent
      cases exponent with
      | power mark _ _ => exact noMark mark

/-! ## Characters of numbers -/

theorem IsRun.not_mem (h : IsRun digit underscores t) (noDigit : digit c = false)
    (noUnderscore : c ≠ '_') : c ∉ t := by
  intro mem
  obtain isDigit | ⟨-, rfl⟩ := h.inner c mem
  · rw [isDigit] at noDigit
    cases noDigit
  · exact noUnderscore rfl

theorem Fraction.not_mem (h : Fraction underscores t) (noDigit : isDigit c = false)
    (noMark : c ∉ ['_', '.']) : c ∉ t := by
  cases h with
  | none => exact List.not_mem_nil
  | point run =>
    simp only [List.mem_cons, List.not_mem_nil, or_false, not_or] at noMark ⊢
    exact ⟨noMark.2, run.not_mem noDigit noMark.1⟩

theorem Exponent.not_mem (h : Exponent underscores t) (noDigit : isDigit c = false)
    (noMark : c ∉ ['_', 'e', 'E', '+', '-']) : c ∉ t := by
  cases h with
  | none => exact List.not_mem_nil
  | power mark signed run =>
    simp only [List.mem_cons, List.not_mem_nil, or_false, not_or] at noMark
    rw [List.mem_cons, List.mem_append, not_or, not_or]
    refine ⟨?_, ?_, run.not_mem noDigit noMark.1⟩
    · rintro rfl
      exact mark.elim noMark.2.1 noMark.2.2.1
    · obtain rfl | rfl | rfl := signed
      · exact List.not_mem_nil
      · exact fun mem => noMark.2.2.2.1 (List.mem_singleton.1 mem)
      · exact fun mem => noMark.2.2.2.2 (List.mem_singleton.1 mem)

/-! ## Bodies -/

/-- A decimal number, whatever parts it has. -/
abbrev Decimal (underscores : Bool) : List Char → Prop :=
  Then (Then (IsRun isDigit underscores) (Fraction underscores)) (Exponent underscores)

theorem decimal_of_parts {whole fraction exponent : List Char}
    (run : IsRun isDigit underscores whole) (part : Fraction underscores fraction)
    (power : Exponent underscores exponent) : Decimal underscores (whole ++ fraction ++ exponent) :=
  ⟨whole ++ fraction, exponent, rfl, ⟨whole, fraction, rfl, run, part⟩, power⟩

theorem Decimal.not_mem (h : Decimal underscores t) (noDigit : isDigit c = false)
    (noMark : c ∉ ['_', '.', 'e', 'E', '+', '-']) : c ∉ t := by
  obtain ⟨_, exponent, rfl, ⟨whole, fraction, rfl, run, part⟩, power⟩ := h
  have point : ['_', '.'].Sublist ['_', '.', 'e', 'E', '+', '-'] := by decide
  have marks : ['_', 'e', 'E', '+', '-'].Sublist ['_', '.', 'e', 'E', '+', '-'] := by decide
  rw [List.mem_append, List.mem_append, not_or, not_or]
  refine ⟨⟨run.not_mem noDigit ?_, part.not_mem noDigit ?_⟩, power.not_mem noDigit ?_⟩
  · rintro rfl
    exact noMark List.mem_cons_self
  · intro mem
    exact noMark (point.subset mem)
  · intro mem
    exact noMark (marks.subset mem)

/-- Each part that the scanner finds is the longest one where it begins. -/
theorem exists_parts (on : Extensions) (first : isDigit c = true) (r : List Char) :
    ∃ n f e, Longest (IsRun isDigit (on .numericUnderscores)) (c :: r) n ∧
      Longest (Fraction (on .numericUnderscores)) ((c :: r).drop n) f ∧
      Longest (Exponent (on .numericUnderscores)) ((c :: r).drop (n + f)) e ∧
      (decimal on r).1 = (f ≠ 0 || e ≠ 0) ∧ (decimal on r).2 + 1 = n + f + e := by
  refine ⟨_, _, _, longest_run first r, longest_fractionLength _ _, ?_, rfl, ?_⟩
  · rw [Nat.add_right_comm, List.drop_succ_cons]
    exact longest_exponentLength _ _
  · simp only [decimal, List.drop_succ_cons]
    omega

theorem longest_decimal (on : Extensions) (first : isDigit c = true) (r : List Char) :
    Longest (Decimal (on .numericUnderscores)) (c :: r) ((decimal on r).2 + 1) := by
  obtain ⟨n, f, e, run, part, power, -, size⟩ := exists_parts on first r
  rw [size]
  apply Longest.seq
  · apply run.seq part
    intro whole isRun d u fraction
    cases fraction with
    | point => exact isRun.not_mem rfl (by decide)
  · exact power
  · rintro _ ⟨whole, fraction, rfl, isRun, part⟩ d u exponent
    rw [List.mem_append, not_or]
    cases exponent with
    | power mark =>
      obtain rfl | rfl := mark
      · exact ⟨isRun.not_mem rfl (by decide), part.not_mem rfl (by decide)⟩
      · exact ⟨isRun.not_mem rfl (by decide), part.not_mem rfl (by decide)⟩

theorem body_decimal (on : Extensions) (first : isDigit c = true) (r : List Char) :
    Body on (decimal on r).1 ((c :: r).take ((decimal on r).2 + 1)) := by
  obtain ⟨n, f, e, run, part, power, rational, size⟩ := exists_parts on first r
  have body := Body.decimal run.taken part.taken power.taken
  rw [size, rational, List.take_add, List.take_add]
  simpa only [part.take_ne_nil, power.take_ne_nil] using body

theorem body_of_decimal (h : Decimal (on .numericUnderscores) t) :
    ∃ rational, Body on rational t := by
  obtain ⟨_, exponent, rfl, ⟨whole, fraction, rfl, run, part⟩, power⟩ := h
  exact ⟨_, .decimal run part power⟩

/-! ## Radices -/

theorem announces_iff {x : Char} : Announces on x digit ↔ radix? on x = some digit := by
  constructor
  · intro h
    cases h with
    | hex letter | octal letter => obtain rfl | rfl := letter <;> rfl
    | binary letter allowed => obtain rfl | rfl := letter <;> simp [radix?, allowed]
  · intro h
    simp only [radix?, Bool.or_eq_true, Bool.and_eq_true, decide_eq_true_eq] at h
    split at h
    · rename_i letter
      cases h
      exact .hex letter
    split at h
    · rename_i letter
      cases h
      exact .octal letter
    split at h <;> cases h
    rename_i letter
    exact .binary letter.1 letter.2

/-- The letters that announce a radix. -/
def radixLetters : List Char := ['x', 'X', 'o', 'O', 'b', 'B']

theorem Announces.mem {x : Char} (h : Announces on x digit) : x ∈ radixLetters := by
  cases h with
  | hex letter | octal letter | binary letter => obtain rfl | rfl := letter <;> decide

theorem Decimal.no_letter {x : Char} (h : Decimal underscores t) (letter : x ∈ radixLetters) :
    x ∉ t := by
  simp only [radixLetters, List.mem_cons, List.not_mem_nil, or_false] at letter
  obtain rfl | rfl | rfl | rfl | rfl | rfl := letter
  all_goals exact h.not_mem rfl (by decide)

/-- A front without the second character stops before it. -/
theorem length_le_one_of_not_mem {x : Char} (front : t <+: c :: x :: s) (h : x ∉ t) :
    t.length ≤ 1 := by
  cases t with
  | nil => exact Nat.zero_le 1
  | cons d t =>
    cases t with
    | nil => exact Nat.le_refl 1
    | cons e t =>
      obtain ⟨-, behind⟩ := List.cons_prefix_cons.1 front
      obtain ⟨rfl, -⟩ := List.cons_prefix_cons.1 behind
      exact absurd (List.mem_cons_of_mem d List.mem_cons_self) h

/-- With digits of the radix there, only they go on behind the letter. -/
theorem longest_radix {x : Char} {n : Nat} (letter : Announces on x digit)
    (digits : Longest (fun t => t = [] ∨ IsRun digit (on .numericUnderscores) t) s n)
    (some : n ≠ 0) :
    Longest (fun t => ∃ rational, Body on rational t) ('0' :: x :: s) (n + 2) where
  inside := Nat.add_le_add_right digits.inside 2
  taken := ⟨false, .radix letter (digits.taken.resolve_left (digits.take_ne_nil.2 some))⟩
  most t ht front := by
    obtain ⟨rational, body⟩ := ht
    cases body with
    | radix letter' run =>
      obtain ⟨-, behind⟩ := List.cons_prefix_cons.1 front
      obtain ⟨rfl, digitsBehind⟩ := List.cons_prefix_cons.1 behind
      have same := (announces_iff.1 letter).symm.trans (announces_iff.1 letter')
      cases same
      exact Nat.add_le_add_right (digits.most _ (.inr run) digitsBehind) 2
    | decimal run part power =>
      have noLetter := (decimal_of_parts run part power).no_letter letter.mem
      refine Nat.le_trans (length_le_one_of_not_mem front noLetter) ?_
      omega

theorem radixLength_of_announces {x : Char} (letter : Announces on x digit) (s : List Char) :
    radixLength on '0' (x :: s) = digitRun digit (on .numericUnderscores) s := by
  simp only [radixLength, announces_iff.1 letter, if_true]

theorem exists_of_radixLength (h : radixLength on c r ≠ 0) :
    ∃ x digit s, c = '0' ∧ r = x :: s ∧ Announces on x digit := by
  cases r with
  | nil => exact absurd rfl h
  | cons x s =>
    simp only [radixLength] at h
    split at h
    · rename_i zero
      split at h
      · rename_i digit known
        exact ⟨x, digit, s, zero, rfl, announces_iff.2 known⟩
      · exact absurd rfl h
    · exact absurd rfl h

/-- Without digits of a radix, a number is a decimal one. -/
theorem decimal_of_body {rational : Bool} (noRadix : radixLength on c r = 0)
    (body : Body on rational t) (front : t <+: c :: r) : Decimal (on .numericUnderscores) t := by
  cases body with
  | decimal run part power => exact decimal_of_parts run part power
  | @radix x digit t letter run =>
    obtain ⟨zero, behind⟩ := List.cons_prefix_cons.1 front
    cases r with
    | nil => cases List.prefix_nil.1 behind
    | cons y s =>
      obtain ⟨rfl, digitsBehind⟩ := List.cons_prefix_cons.1 behind
      rw [← zero, radixLength_of_announces letter] at noRadix
      have digits := longest_digitRun digit (on .numericUnderscores) s
      have none := digits.most t (.inr run) digitsBehind
      rw [noRadix, Nat.le_zero, List.length_eq_zero_iff] at none
      exact absurd none run.ne_nil

theorem longest_body (on : Extensions) (first : isDigit c = true) (r : List Char) :
    Longest (fun t => ∃ rational, Body on rational t) (c :: r) ((body on c r).2 + 1) ∧
      Body on (body on c r).1 ((c :: r).take ((body on c r).2 + 1)) := by
  rw [body_eq]
  split
  · rename_i radix
    obtain ⟨x, digit, s, rfl, rfl, letter⟩ := exists_of_radixLength radix
    have digits := longest_digitRun digit (on .numericUnderscores) s
    rw [radixLength_of_announces letter] at radix ⊢
    have body := longest_radix letter digits radix
    dsimp only
    rw [Nat.add_comm 1]
    refine ⟨body, ?_⟩
    exact .radix letter (digits.taken.resolve_left (digits.take_ne_nil.2 radix))
  · rename_i noRadix
    refine ⟨(longest_decimal on first r).congr ?_, body_decimal on first r⟩
    intro t front
    constructor
    · rintro ⟨rational, body⟩
      exact decimal_of_body (not_not.1 noRadix) body front
    · exact body_of_decimal

/-! ## Hashes -/

def Hashes (on : Extensions) (t : List Char) : Prop :=
  ∃ h ≤ 2, t = List.replicate h '#' ∧ (h = 0 ∨ on .magicHash = true)

/-- Of `limit` characters the hashes are taken that come first. -/
theorem take_hashes (limit : Nat) (s : List Char) :
    s.take (runLength (· = '#') (s.take limit)) =
      List.replicate (runLength (· = '#') (s.take limit)) '#' := by
  have inside := runLength_le (· = '#') (s.take limit)
  have few := Nat.le_trans inside (List.length_take_le limit s)
  rw [← Nat.min_eq_left few, ← List.take_take, Nat.min_eq_left few, take_runLength,
    List.eq_replicate_iff]
  refine ⟨rfl, ?_⟩
  intro d mem
  simpa using List.mem_takeWhile_imp mem

theorem hash_of_mem_replicate (h : Nat) :
    ∀ d ∈ List.replicate h '#', decide (d = '#') = true := by
  intro d mem
  simpa using List.eq_of_mem_replicate mem

theorem longest_hashCount (on : Extensions) (s : List Char) :
    Longest (Hashes on) s (hashCount on s) where
  inside := hashCount_le on s
  taken := by
    unfold hashCount
    split
    · rename_i magic
      have few : runLength (· = '#') (s.take 2) ≤ 2 :=
        Nat.le_trans (runLength_le _ _) (List.length_take_le 2 s)
      exact ⟨_, few, take_hashes 2 s, .inr magic⟩
    · exact ⟨0, Nat.zero_le 2, rfl, .inl rfl⟩
  most t ht front := by
    obtain ⟨h, few, rfl, rfl | magic⟩ := ht
    · exact Nat.zero_le _
    · obtain ⟨v, rfl⟩ := front
      have split : (List.replicate h '#' ++ v).take 2 = List.replicate h '#' ++ v.take (2 - h) := by
        rw [List.take_append, List.length_replicate, List.take_replicate, Nat.min_eq_right few]
      rw [hashCount, if_pos magic, split, runLength,
        List.takeWhile_append_of_pos (hash_of_mem_replicate h), List.length_append]
      exact Nat.le_add_right _ _

theorem numeral_of_body {rational : Bool} {h : Nat} (body : Body on rational t) (few : h ≤ 2)
    (magic : h = 0 ∨ on .magicHash = true) :
    Numeral on (kind rational h) (t ++ List.replicate h '#') := by
  match h, few, magic with
  | 0, _, _ =>
    rw [List.replicate_zero, List.append_nil]
    cases rational <;> exact .plain body
  | 1, _, .inr magic => cases rational <;> exact .hash body magic
  | 2, _, .inr magic => cases rational <;> exact .hashes body magic

theorem exists_of_numeral {k : Literal} (numeral : Numeral on k t) :
    ∃ rational body h, k = kind rational h ∧ t = body ++ List.replicate h '#' ∧
      Body on rational body ∧ Hashes on (List.replicate h '#') := by
  cases numeral with
  | @plain rational _ body =>
    refine ⟨rational, t, 0, ?_, (List.append_nil t).symm, body, 0, Nat.zero_le 2, rfl, .inl rfl⟩
    cases rational <;> rfl
  | @hash rational t body magic =>
    refine ⟨rational, t, 1, ?_, rfl, body, 1, by decide, rfl, .inr magic⟩
    cases rational <;> rfl
  | @hashes rational t body magic =>
    refine ⟨rational, t, 2, ?_, rfl, body, 2, by decide, rfl, .inr magic⟩
    cases rational <;> rfl

theorem Body.no_hash {rational : Bool} (h : Body on rational t) : '#' ∉ t := by
  cases h with
  | @radix x digit t letter run =>
    have noLetter : '#' ≠ x := by
      rintro rfl
      exact absurd letter.mem (by decide)
    have noDigit : digit '#' = false := by
      cases letter <;> rfl
    simp only [List.mem_cons, not_or]
    exact ⟨by decide, noLetter, run.not_mem noDigit (by decide)⟩
  | decimal run part power =>
    exact (decimal_of_parts run part power).not_mem rfl (by decide)

/-! ## The kind of a number -/

/-- Whether a number has a fraction or an exponent, told from its characters. -/
def isRational (t : List Char) : Bool :=
  !(t.tail.head?.any radixLetters.contains) && t.any ['.', 'e', 'E'].contains

theorem any_eq_false_of_not_mem {marks : List Char} (h : ∀ d ∈ marks, d ∉ t) :
    t.any marks.contains = false := by
  rw [List.any_eq_false]
  intro d mem isMark
  exact h d (List.contains_iff_mem.1 isMark) mem

theorem Decimal.second (h : Decimal underscores t) :
    t.tail.head?.any radixLetters.contains = false := by
  cases second : t.tail.head? with
  | none => rfl
  | some x =>
    rw [Option.any_some, Bool.eq_false_iff]
    intro letter
    apply h.no_letter (List.contains_iff_mem.1 letter)
    exact List.mem_of_mem_tail (List.mem_of_mem_head? second)

theorem rational_of_body {rational : Bool} (h : Body on rational t) :
    isRational t = rational := by
  cases h with
  | @radix x digit t letter run =>
    have isLetter : radixLetters.contains x = true := List.contains_iff_mem.2 letter.mem
    simp only [isRational, List.tail_cons, List.head?_cons, Option.any_some, isLetter,
      Bool.not_true, Bool.false_and]
  | @decimal whole fraction exponent run part power =>
    have noLetter := (decimal_of_parts run part power).second
    have integral : whole.any ['.', 'e', 'E'].contains = false := by
      apply any_eq_false_of_not_mem
      intro d mark
      simp only [List.mem_cons, List.not_mem_nil, or_false] at mark
      obtain rfl | rfl | rfl := mark
      all_goals exact run.not_mem rfl (by decide)
    have fractional : fraction.any ['.', 'e', 'E'].contains = decide (fraction ≠ []) := by
      cases part with
      | none => rfl
      | point => rfl
    have exponential : exponent.any ['.', 'e', 'E'].contains = decide (exponent ≠ []) := by
      cases power with
      | none => rfl
      | power mark => obtain rfl | rfl := mark <;> rfl
    rw [isRational, noLetter, List.any_append, List.any_append, integral, fractional, exponential]
    rfl

theorem Body.ne_nil {rational : Bool} (h : Body on rational t) : t ≠ [] := by
  cases h with
  | radix => exact List.cons_ne_nil _ _
  | decimal run => simp [run.ne_nil]

/-- Hashes do not hide what a number is. -/
theorem isRational_append (more : t ≠ []) (h : Nat) :
    isRational (t ++ List.replicate h '#') = isRational t := by
  have hashes : (List.replicate h '#').any ['.', 'e', 'E'].contains = false := by
    apply any_eq_false_of_not_mem
    intro d mark mem
    rw [List.eq_of_mem_replicate mem] at mark
    exact absurd mark (by decide)
  have second : (t ++ List.replicate h '#').tail.head?.any radixLetters.contains =
      t.tail.head?.any radixLetters.contains := by
    match t, h with
    | [], _ => exact absurd rfl more
    | [_], 0 | [_], _ + 1 | _ :: _ :: _, _ => rfl
  rw [isRational, isRational, second, List.any_append, hashes, Bool.or_false]

theorem kind_of_numeral {k : Literal} (h : Numeral on k t) :
    k = kind (isRational t) (t.count '#') := by
  obtain ⟨rational, body, h, rfl, rfl, isBody, -⟩ := exists_of_numeral h
  rw [isRational_append isBody.ne_nil, rational_of_body isBody, List.count_append,
    List.count_eq_zero_of_not_mem isBody.no_hash, List.count_replicate_self, Nat.zero_add]

theorem hashCount_spec (on : Extensions) (s : List Char) :
    s.take (hashCount on s) = List.replicate (hashCount on s) '#' ∧ hashCount on s ≤ 2 ∧
      (hashCount on s = 0 ∨ on .magicHash = true) := by
  have longest := longest_hashCount on s
  obtain ⟨h, few, taken, magic⟩ := longest.taken
  have count : hashCount on s = h := by
    rw [← longest.length_take, taken, List.length_replicate]
  rw [count] at taken ⊢
  exact ⟨taken, few, magic⟩

/-- The body is scanned as far as it goes, and then the hashes; none of these
can stand in the body. -/
theorem leads_scan (on : Extensions) (first : isDigit c = true) (r : List Char) :
    Leads on (c :: r) (scan on c r).1 ((c :: r).take ((scan on c r).2 + 1)) := by
  obtain ⟨bodies, body⟩ := longest_body on first r
  have hashes := longest_hashCount on ((c :: r).drop ((Number.body on c r).2 + 1))
  obtain ⟨taken, few, magic⟩ := hashCount_spec on ((c :: r).drop ((Number.body on c r).2 + 1))
  have apart : ∀ a, (∃ rational, Body on rational a) → ∀ d u, Hashes on (d :: u) → d ∉ a := by
    rintro a ⟨rational, isBody⟩ d u ⟨h, -, whole, -⟩
    have hash : d = '#' := List.eq_of_mem_replicate (whole ▸ List.mem_cons_self)
    rw [hash]
    exact isBody.no_hash
  have both := bodies.seq hashes apart
  have numeral := numeral_of_body body few magic
  rw [← taken, ← List.take_add] at numeral
  have found : scan on c r = (kind (Number.body on c r).1
      (hashCount on ((c :: r).drop ((Number.body on c r).2 + 1))), (Number.body on c r).2 +
      hashCount on ((c :: r).drop ((Number.body on c r).2 + 1))) := rfl
  rw [found, Nat.add_right_comm]
  refine ⟨numeral, List.take_prefix _ _, ?_, ?_⟩
  · intro k t isNumeral front
    obtain ⟨rational, body, h, -, rfl, isBody, isHashes⟩ := exists_of_numeral isNumeral
    rw [both.length_take]
    exact both.most _ ⟨body, _, rfl, ⟨rational, isBody⟩, isHashes⟩ front
  · intro k isNumeral
    rw [kind_of_numeral isNumeral, ← kind_of_numeral numeral]

end Number

namespace Lexer

variable {x y : Lexer} {l : Lexeme} {out : List (Token × Lexer)} {sign : List Char} {c : Char}
  {r : List Char}

/-- A sign counts as part of a number where nothing is attached to it. -/
theorem scan_signed (front : x.skipBlanks.rest = sign ++ c :: r) (digit : isDigit c = true)
    (signed : sign = [] ∨ sign = ['-'] ∧ x.config.enabled .negativeLiterals = true ∧
      x.skipBlanks.site.isLoose = true) :
    ∃ d s, x.skipBlanks.rest = d :: s ∧
      Lexeme.scan x.skipBlanks.site d s = .ok (.literal (Number.scan x.config.enabled c r).1,
        sign.length + (Number.scan x.config.enabled c r).2) := by
  obtain rfl | ⟨rfl, allowed, loose⟩ := signed
  · refine ⟨c, r, front, ?_⟩
    rw [List.length_nil, Nat.zero_add]
    exact Lexeme.scan_of_scanned (.number digit)
  · have negative : Lexeme.isNegative x.skipBlanks.site '-' (c :: r) = true := by
      have on : x.skipBlanks.site.on .negativeLiterals = true := allowed
      simp [Lexeme.isNegative, digit, on, loose]
    refine ⟨'-', c :: r, front, ?_⟩
    rw [List.length_singleton, Nat.add_comm]
    exact Lexeme.scan_of_negative negative

end Lexer

open Lexer Number in
/-- **Numbers.** A lexer that comes to a digit, or to a sign that belongs to
the digit behind it, takes a number there. It is the longest that the text goes
on with at the digit, and only one kind goes with it. -/
theorem number_longest (x : Lexer) {sign : List Char} {c : Char} {r : List Char}
    (front : x.skipBlanks.rest = sign ++ c :: r) (digit : isDigit c = true)
    (signed : sign = [] ∨ sign = ['-'] ∧ x.config.enabled .negativeLiterals = true ∧
      x.skipBlanks.site.isLoose = true) :
    (∃ l out y, Step x l out y) ∧
      ∀ l out y, Step x l out y → ∃ k t, l.kind = .literal k ∧ l.text = sign ++ t ∧
        l.span.start = x.skipBlanks.here ∧ Leads x.config.enabled (c :: r) k t := by
  obtain ⟨d, s, front', scanned⟩ := scan_signed front digit signed
  refine ⟨⟨_, _, _, .take front' scanned rfl⟩, ?_⟩
  intro l out y step
  obtain ⟨n, found, text, start⟩ := scan_of_step front' step
  obtain ⟨kind, rfl⟩ := Prod.mk.inj (Except.ok.inj (scanned.symm.trans found))
  refine ⟨_, _, kind.symm, ?_, start, leads_scan x.config.enabled digit r⟩
  rw [text, ← List.take_succ_cons, ← front', front, Nat.add_assoc, List.take_length_add_append]

open Lexer Number in
/-- A point with a digit behind it, and an exponent that comes to nothing. -/
theorem number_longest_negative :
    let x := start .permissive ['-', '1', '_', '0', '.', '5', 'e', '+', 'x']
    x.skipBlanks.rest = ['-'] ++ ['1', '_', '0', '.', '5', 'e', '+', 'x'] ∧
      isDigit '1' = true ∧ x.skipBlanks.site.isLoose = true ∧
      ((x.trace.items.filterMap Token.lexeme?).head?.map fun l => (l.kind, l.text)) =
        some (.literal .rational, ['-', '1', '_', '0', '.', '5']) ∧
      ∃ l out y, Step x l out y ∧ ∃ k t, l.kind = .literal k ∧ l.text = ['-'] ++ t ∧
        l.span.start = x.skipBlanks.here ∧
        Leads x.config.enabled ['1', '_', '0', '.', '5', 'e', '+', 'x'] k t := by
  intro x
  have front : x.skipBlanks.rest = ['-'] ++ ['1', '_', '0', '.', '5', 'e', '+', 'x'] := by decide
  have loose : x.skipBlanks.site.isLoose = true := by decide
  obtain ⟨⟨l, out, y, step⟩, found⟩ :=
    number_longest x front (by decide) (.inr ⟨rfl, rfl, loose⟩)
  exact ⟨front, by decide, loose, by decide +kernel, l, out, y, step, found l out y step⟩

end HaskellLexis
