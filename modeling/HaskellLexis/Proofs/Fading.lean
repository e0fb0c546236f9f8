import HaskellLexis.Proofs.Alone

/-!
# Lexemes beside a comment that fades

A comment may fade to blanks. What stands beside it is found all the same, for
both are breaks. Only lexemes that look at what is right beside them, or through
blanks, can tell the difference.

* `Fades`: a text, and the same with a comment in it faded;
* `scan_attached`: a scanner looks to the left for signs and type applications
  only;
* `scanned_fades`: what is found where something is attached from the left, but
  for pragmas;
* `opener_fades`: pragmas, some of which look for a second word;
* `Shows`, `scan_fades`: the ways to tell, and that there are no others.
-/

namespace HaskellLexis

variable {on : Extensions} {site site' : Site} {c : Char} {a r s s' v w : List Char} {k : Kind}
  {m n : Nat}

/-! ## Something attached from the left -/

/-- The same place with something attached to it from the left. -/
def Site.attached (site : Site) : Site := { site with before := some '}' }

theorem Site.alike_attached (site : Site) : site.Alike site.attached := ⟨rfl, rfl⟩

theorem Site.isLoose_attached (site : Site) : site.attached.isLoose = false := rfl

/-- What an operator is with the text `s` behind it. -/
def Kind.before (site : Site) (s : List Char) (k : Kind) : Kind :=
  if k = .operator .atSign ∧ Operator.isTypeApplication site s = true then .typeApplication else k

theorem Kind.before_of_isReserved (h : k.isReserved = false) : k.before site s = k := by
  rw [before, if_neg]
  rintro ⟨rfl, -⟩
  cases h

theorem Kind.isReserved_of_isPlain (h : k.isPlain = true) : k.isReserved = false := by
  cases k <;> first | rfl | cases h

theorem Kind.isReserved_of_isBraced (h : k.isBraced = true) : k.isReserved = false := by
  cases k <;> first | rfl | cases h

theorem Kind.before_of_isPlain (h : k.isPlain = true) : k.before site s = k :=
  before_of_isReserved (isReserved_of_isPlain h)

namespace Operator

theorem isTypeApplication_attached (site : Site) (s : List Char) :
    isTypeApplication site.attached s = false := by
  rw [isTypeApplication, site.isLoose_attached, Bool.and_false]

theorem before_attached (site : Site) (s : List Char) (k : Kind) :
    k.before site.attached s = k := by
  rw [Kind.before, if_neg]
  rintro ⟨-, application⟩
  rw [isTypeApplication_attached] at application
  cases application

theorem ofRun_eq (site : Site) (run s : List Char) :
    ofRun site run s =
      ((ReservedOperator.ofRun? site.on run).getD
        (.name (if run.head? = some ':' then .consym else .varsym))).before site s := by
  unfold ofRun
  split
  · rename_i known
    rw [known]
    simp only [Option.getD_some, Kind.before, true_and]
  · rename_i kind other known
    rw [known, Option.getD_some, Kind.before, if_neg]
    rintro ⟨rfl, -⟩
    exact other rfl
  · rename_i none
    rw [none]
    rfl

theorem ofRun_attached (site : Site) (run s : List Char) :
    ofRun site run s = (ofRun site.attached run s).before site s := by
  rw [ofRun_eq, ofRun_eq, before_attached, site.alike_attached.on]

theorem scan_attached (site : Site) (c : Char) (r : List Char) :
    scan site c r =
      ((scan site.attached c r).1.before site (r.drop (scan site.attached c r).2),
        (scan site.attached c r).2) := by
  unfold scan
  rw [site.alike_attached.on]
  cases closer : closer? site.on (c :: r) with
  | some found =>
    obtain ⟨kind, n⟩ := found
    simp only [Kind.before_of_isPlain (closer?_plain closer)]
  | none =>
    simp only
    generalize r.takeWhile isSymbol = more
    cases mark : mark? site.on (c :: more) (r.drop more.length) with
    | some found =>
      obtain ⟨kind, n⟩ := found
      simp only [Kind.before_of_isPlain (mark?_plain mark)]
    | none => simp only [ofRun_attached site]

end Operator

namespace Lexeme

theorem map_before {x : Except LexCause (Kind × Nat)}
    (h : ∀ k n, x = .ok (k, n) → k.isReserved = false) :
    x.map (fun p => (p.1.before site (r.drop p.2), p.2)) = x := by
  cases x with
  | error e => rfl
  | ok p => exact congrArg (fun k => Except.ok (k, p.2)) (Kind.before_of_isReserved (h _ _ rfl))

/-- What is attached from the left only takes type applications and signs from
what a scanner finds. -/
theorem scan_attached (sign : isNegative site c r = false) :
    scan site c r =
      (scan site.attached c r).map fun p => (p.1.before site (r.drop p.2), p.2) := by
  have sign' : isNegative site.attached c r = false := by
    rw [isNegative, site.isLoose_attached, Bool.and_false]
  have on : site.attached.on = site.on := rfl
  have inPragma : site.attached.inPragma = site.inPragma := rfl
  unfold scan
  rw [on, inPragma, sign, sign', Name.scan_congr site.alike_attached]
  by_cases opens : (c = '{' && r.head? = some '-') = true
  · rw [if_pos opens, if_pos opens]
    exact (map_before fun k n found =>
      Kind.isReserved_of_isBraced (scanBraceDash_braced found)).symm
  rw [if_neg opens, if_neg opens]
  by_cases starts : Comment.startsLineComment (c :: r) = true
  · rw [if_pos starts, if_pos starts]
    rfl
  rw [if_neg starts, if_neg starts]
  by_cases closes : (site.inPragma && closePragmaMark.isPrefixOf (c :: r)) = true
  · rw [if_pos closes, if_pos closes]
    rfl
  rw [if_neg closes, if_neg closes]
  cases Punctuation.ofChar? c with
  | some p =>
    exact (map_before fun k n found =>
      Kind.isReserved_of_isPlain (Bracket.scan_plain found)).symm
  | none =>
    simp only
    by_cases double : c = '"'
    · rw [if_pos double, if_pos double]
      exact (map_before fun k n found =>
        Kind.isReserved_of_isPlain (Literal.scanString_plain found)).symm
    rw [if_neg double, if_neg double]
    by_cases single : c = '\''
    · rw [if_pos single, if_pos single]
      exact (map_before fun k n found =>
        Kind.isReserved_of_isPlain (Literal.scanQuote_plain found)).symm
    rw [if_neg single, if_neg single]
    by_cases digit : isDigit c = true
    · rw [if_pos digit, if_pos digit]
      rfl
    rw [if_neg digit, if_neg digit]
    by_cases starts : startsName c = true
    · rw [if_pos starts, if_pos starts]
      exact congrArg Except.ok (Prod.ext (Kind.before_of_isPlain Name.scan_plain).symm rfl)
    rw [if_neg starts, if_neg starts, if_neg Bool.false_ne_true, if_neg Bool.false_ne_true]
    by_cases symbol : isSymbol c = true
    · rw [if_pos symbol, if_pos symbol]
      exact congrArg Except.ok (Operator.scan_attached site c r)
    rw [if_neg symbol, if_neg symbol]
    by_cases control : isControl c = true
    · rw [if_pos control]
      rfl
    · rw [if_neg control]
      rfl

end Lexeme

/-! ## The text before a break -/

namespace Quotation

theorem scanQuasi?_cut {q : Quotation} (b : Breaks v) (inside : n ≤ s.length)
    (h : scanQuasi? (s ++ v) = some (.ok (q, n))) : scanQuasi? s = some (.ok (q, n)) := by
  obtain ⟨⟨isQualified, m⟩, quoter, found⟩ := Option.map_eq_some_iff.1 h
  rw [quoter?_break b] at quoter
  simp only at found
  split at found
  · rename_i j closes
    cases found
    have size : ['|', ']'].length = 2 := rfl
    have within : j + ['|', ']'].length ≤ (s.drop m).length := by
      rw [List.length_drop]
      omega
    rw [List.drop_append_of_le_length (quoter?_le quoter)] at closes
    have cut := offsetOf?_take closes within (by decide)
    rw [List.take_left] at cut
    rw [scanQuasi?, quoter]
    simp only [Option.map_some, cut]
  · cases found

end Quotation

namespace Bracket

theorem scanSquare_cut (b : Breaks v) (inside : n ≤ r.length)
    (h : scanSquare on (r ++ v) = .ok (k, n)) : scanSquare on r = .ok (k, n) := by
  have openers := Quotation.find?_openers_break b r
  have colon : (r ++ v).head? = some ':' ↔ r.head? = some ':' :=
    head?_append_iff (b.head?_ne (by decide))
  simp only [scanSquare, openers, colon] at h ⊢
  split at h
  · exact h
  by_cases quasiQuotes : on .quasiQuotes = true
  · simp only [if_pos quasiQuotes] at h ⊢
    split at h
    · rename_i result found
      obtain ⟨⟨q, m⟩, rfl, same⟩ := ok_of_map h
      cases same
      rw [Quotation.scanQuasi?_cut b inside found]
      rfl
    · rename_i none
      rw [(Quotation.scanQuasi?_eq_none_break b r).1 none]
      exact h
  · simp only [if_neg quasiQuotes] at h ⊢
    exact h

theorem scan_cut {p : Punctuation} (b : Breaks v) (settled : Settled n r v) (inside : n ≤ r.length)
    (h : scan on c p (r ++ v) = .ok (k, n)) : scan on c p r = .ok (k, n) := by
  unfold scan at h ⊢
  split at h
  · rename_i round
    have found := Except.ok.inj h
    have settled' : Settled (scanRound on (r ++ v)).2 r v := by rwa [found]
    rw [if_pos round, ← scanRound_break b settled', found]
  · rename_i noRound
    rw [if_neg noRound]
    split at h
    · rename_i square
      rw [if_pos square]
      exact scanSquare_cut b inside h
    · rename_i noSquare
      rw [if_neg noSquare]
      exact h

end Bracket

namespace Literal

theorem scanString_cut (b : Breaks v) (inside : n ≤ r.length)
    (h : scanString on (r ++ v) = .ok (k, n)) : scanString on r = .ok (k, n) := by
  obtain ⟨m, hm, found⟩ := ok_of_bind h
  have within : m ≤ r.length := by
    split at found <;> cases found
    · omega
    · exact inside
  have cut := stringLength_take hm within
  rw [List.take_left] at cut
  rw [List.drop_append_of_le_length within, hashed_break b] at found
  rw [scanString, cut]
  exact found

theorem scanQuote_cut (b : Breaks v) (h : scanQuote on (r ++ v) = .ok (k, n)) :
    scanQuote on r = .ok (k, n) := by
  rw [← scanQuote_break b, h]
  rintro rfl
  obtain ⟨e, failed⟩ := scanQuote_backslash_break b on
  rw [List.cons_append, List.nil_append, failed] at h
  cases h

end Literal

theorem runLength_cons_le (p : Char → Bool) (c : Char) (s : List Char) :
    runLength p (c :: s) ≤ runLength p s + 1 := by
  simp only [runLength, List.takeWhile_cons]
  split
  · exact Nat.le_refl _
  · exact Nat.zero_le _

/-- The run of symbols tells whether a line comment starts with it. -/
theorem Comment.startsLineComment_of_run
    (run : (r ++ v).takeWhile isSymbol = r.takeWhile isSymbol) :
    startsLineComment (c :: (r ++ v)) = startsLineComment (c :: r) := by
  have size : runLength isSymbol (r ++ v) = runLength isSymbol r := congrArg List.length run
  have whole := startsLineComment_take_symbols (runLength_cons_le isSymbol c (r ++ v))
  have short := startsLineComment_take_symbols (runLength_cons_le isSymbol c r)
  rw [List.take_succ_cons, take_runLength] at whole short
  rw [← whole, ← short, run]

namespace Lexeme

/-- What stands before a break is there without the break. -/
theorem scanned_cut (b : Breaks v) (settled : Settled n r v) (inside : n ≤ r.length)
    (other : k.isBraced = false) (h : Scanned site.attached c (r ++ v) k n) :
    Scanned site.attached c r k n := by
  have blind (u : List Char) : Operator.isTypeApplication site.attached (u ++ v) =
      Operator.isTypeApplication site.attached u := by
    rw [Operator.isTypeApplication_attached, Operator.isTypeApplication_attached]
  cases h with
  | braceDash opens ok =>
    rw [scanBraceDash_braced ok] at other
    cases other
  | lineComment starts => cases other
  | closePragma inPragma mark =>
    exact .closePragma inPragma ((closePragmaMark_break b).symm.trans mark)
  | bracket special single ok =>
    refine .bracket special ?_ (Bracket.scan_cut b settled inside ok)
    rintro ⟨brace, dash⟩
    obtain ⟨t, rfl⟩ := List.head?_eq_some_iff.1 dash
    exact single ⟨brace, rfl⟩
  | string double ok => exact .string double (Literal.scanString_cut b inside ok)
  | quote single ok => exact .quote single (Literal.scanQuote_cut b ok)
  | number digit =>
    rw [Number.scan_break b]
    exact .number digit
  | name starts =>
    rw [Name.scan_break b _ c settled]
    exact .name starts
  | negative sign =>
    rw [isNegative, site.isLoose_attached, Bool.and_false] at sign
    cases sign
  | operator symbol noComment noClose noSign =>
    have run := settled.run (Operator.run_le_scan site.attached c (r ++ v))
    rw [Operator.scan_break b settled blind]
    refine .operator symbol ?_ ?_ ((isNegative_break b).symm.trans noSign)
    · rw [← Comment.startsLineComment_of_run run]
      exact noComment
    · rw [← closePragmaMark_break b]
      exact noClose
  | unknown noName noSymbol noControl noSpecial noQuote noDigit =>
    exact .unknown noName noSymbol noControl noSpecial noQuote noDigit

end Lexeme

/-! ## Comments that fade -/

/-- The texts are the same up to a comment that is blank in the second one, or
at all. Right before dashes no symbol stands by itself. -/
inductive Fades : List Char → List Char → Prop where
  | same (s : List Char) : Fades s s
  | comment {u v : List Char} (z : List Char) (opens : Breaks v)
      (settled : v.head?.any isSymbol = true → u = [] ∨ ∃ d ∈ u, isSymbol d = false) :
      Fades (u ++ v) (u ++ ' ' :: ' ' :: z)

namespace Fades

/-- Whoever sees no more than the text before a break sees the same. -/
theorem congr {α : Type} {f : List Char → α} (h : Fades s s')
    (blind : ∀ u v, Breaks v → f (u ++ v) = f u) : f s' = f s := by
  cases h with
  | same => rfl
  | comment z opens settled => rw [blind _ _ (.blanks z), blind _ _ opens]

theorem head?_any (h : Fades s s') {p : Char → Bool} (stops : Breaks.fronts.any p = false) :
    s'.head?.any p = s.head?.any p :=
  h.congr (f := fun s => s.head?.any p) fun _ _ b => head?_any_append (b.stops stops)

/-- What is blank stays blank. -/
theorem blank (h : Fades s s') (blank : s.head?.any (!isBlank ·) = false) :
    s'.head?.any (!isBlank ·) = false := by
  cases h with
  | same => exact blank
  | @comment u v z opens settled =>
    cases u with
    | nil => rfl
    | cons d u => exact blank

end Fades

/-- Where something is attached from the left, no lexeme but a pragma sees that
a comment behind it has faded. -/
theorem Lexeme.scanned_fades (fades : Fades s s') (other : k.isBraced = false)
    (h : Scanned site.attached c (w ++ s) k w.length) :
    Scanned site.attached c (w ++ s') k w.length := by
  cases fades with
  | same => exact h
  | @comment u v z opens settled =>
    have inside : w.length ≤ (w ++ u).length := by
      rw [List.length_append]
      exact Nat.le_add_right _ _
    have settled : Settled w.length (w ++ u) v := by
      intro symbol
      rw [List.drop_left]
      exact ⟨inside, settled symbol⟩
    rw [← List.append_assoc] at h ⊢
    refine scanned_break (.blanks z) rfl ?_ other (scanned_cut opens settled inside other h)
    intro t
    rw [Operator.isTypeApplication_attached, Operator.isTypeApplication_attached]

/-! ## Pragmas -/

namespace Pragma

/-- The next word in the line makes another pragma of `p`. -/
def GoesOn (p : Pragma) (s : List Char) : Prop :=
  ∃ first, words.lookup first = some p ∧ (pair? first (upperCase (secondWord s).1)).isSome = true

/-- No single word is a pragma of two. -/
theorem lookup_of_pair? {first second name : List Char} {p : Pragma}
    (h : pair? first second = some p) : words.lookup name ≠ some p := by
  have double : p = .specialiseInline ∨ p = .vectoriseScalar := by
    simp only [pair?] at h
    split at h
    · split at h <;> cases h
      exact .inl rfl
    split at h
    · split at h <;> cases h
      exact .inr rfl
    · cases h
  have table : ∀ e ∈ words, e.2 ≠ .specialiseInline ∧ e.2 ≠ .vectoriseScalar := by decide
  intro single
  obtain ⟨noSpecialise, noVectorise⟩ := table _ (mem_of_lookup single)
  obtain rfl | rfl := double
  · exact noSpecialise rfl
  · exact noVectorise rfl

/-- Two spellings of a pragma go on with the same words. -/
theorem pair?_congr {first first' : List Char} {p : Pragma} (h : words.lookup first = some p)
    (h' : words.lookup first' = some p) (second : List Char) :
    pair? first second = pair? first' second := by
  have table : ∀ e ∈ words, ∀ f ∈ words, e.2 = f.2 →
      (["SPECIALISE".toList, "SPECIALIZE".toList].contains e.1 =
          ["SPECIALISE".toList, "SPECIALIZE".toList].contains f.1 ∧
        ["VECTORISE".toList, "VECTORIZE".toList].contains e.1 =
          ["VECTORISE".toList, "VECTORIZE".toList].contains f.1) := by decide +kernel
  obtain ⟨specialise, vectorise⟩ := table _ (mem_of_lookup h) _ (mem_of_lookup h') rfl
  unfold pair?
  rw [specialise, vectorise]

theorem goesOn_iff {first : List Char} {p : Pragma} (h : words.lookup first = some p) :
    GoesOn p s ↔ (pair? first (upperCase (secondWord s).1)).isSome = true := by
  constructor
  · rintro ⟨first', h', found⟩
    rwa [pair?_congr h h']
  · intro found
    exact ⟨first, h, found⟩

theorem secondWord_break (b : Breaks v) (solid : ∃ d ∈ s, isInlineBlank d = false) :
    secondWord (s ++ v) = secondWord s := by
  have blanks : runLength isInlineBlank (s ++ v) = runLength isInlineBlank s :=
    congrArg List.length (takeWhile_append_of_stop solid)
  simp only [secondWord]
  rw [blanks, List.drop_append_of_le_length (runLength_le isInlineBlank s),
    takeWhile_append_of_stops (b.stops (by decide))]

theorem word_fades (fades : Fades s s') (solid : ∃ d ∈ a, isBlank d = false) :
    word (a ++ s') = word (a ++ s) := by
  obtain ⟨d, mem, noBlank⟩ := solid
  apply fades.congr (f := fun s => word (a ++ s))
  intro u v b
  rw [← List.append_assoc]
  exact word_break b ⟨d, List.mem_append_left u mem, noBlank⟩

theorem secondWord_fades (fades : Fades s s') (solid : ∃ d ∈ a, isInlineBlank d = false) :
    secondWord (a ++ s') = secondWord (a ++ s) := by
  obtain ⟨d, mem, noBlank⟩ := solid
  apply fades.congr (f := fun s => secondWord (a ++ s))
  intro u v b
  rw [← List.append_assoc]
  exact secondWord_break b ⟨d, List.mem_append_left u mem, noBlank⟩

/-- A pragma that is one lexeme has its closing mark. -/
theorem scanWhole_fades {kind : Kind} (fades : Fades s s')
    (h : scanWhole kind (a ++ s) = .ok (k, a.length + 2)) :
    word (a ++ s') = word (a ++ s) ∧ scanWhole kind (a ++ s') = .ok (k, a.length + 2) := by
  obtain ⟨m, size, -, found⟩ := scanWhole_take h
  obtain rfl : a.length = m := by omega
  rw [List.take_left] at found
  exact ⟨word_fades fades (solid_of_scanWhole found), scanWhole_before found s'⟩

theorem scan_fades (fades : Fades s s') (closed : ∀ p, k ≠ .openPragma p)
    (h : scan on (a ++ s) = .ok (k, a.length + 2)) : scan on (a ++ s') = .ok (k, a.length + 2) := by
  unfold scan at h
  split at h
  · rename_i kind whole
    obtain ⟨same, found⟩ := scanWhole_fades fades h
    rw [scan, shape_congr same (by simp [whole]), whole]
    exact found
  · obtain ⟨rfl, -⟩ := Prod.mk.inj (Except.ok.inj h)
    exact absurd rfl (closed _)
  · rename_i other
    obtain ⟨same, found⟩ := scanWhole_fades fades h
    rw [scan, shape_congr same (by simp [other]), other]
    exact found

theorem whole?_closed {w : List Char} {p : Pragma} (h : whole? on w = some k) :
    k ≠ .openPragma p := by
  rintro rfl
  simp only [whole?] at h
  split at h
  · cases h
  split at h
  · cases h
  · split at h <;> cases h

section

variable {p q : Pragma}

theorem shape_of_pair (noWhole : whole? on (upperCase (word s).1) = none)
    (known : words.lookup (upperCase (word s).1) = some p)
    (pair : pair? (upperCase (word s).1) (upperCase (secondWord (s.drop (word s).2)).1) = some q) :
    shape on s = .opener q ((word s).2 + (secondWord (s.drop (word s).2)).2) := by
  simp only [shape, noWhole, known, pair]

theorem shape_of_single (noWhole : whole? on (upperCase (word s).1) = none)
    (known : words.lookup (upperCase (word s).1) = some p)
    (single : pair? (upperCase (word s).1) (upperCase (secondWord (s.drop (word s).2)).1) = none) :
    shape on s = .opener p (word s).2 := by
  simp only [shape, noWhole, known, single]

/-- What an opener consists of: a word that is known, and maybe a second one. -/
theorem opener_cases (h : shape on s = .opener p n) :
    whole? on (upperCase (word s).1) = none ∧
      ∃ single, words.lookup (upperCase (word s).1) = some single ∧
        (pair? (upperCase (word s).1) (upperCase (secondWord (s.drop (word s).2)).1) = some p ∧
            n = (word s).2 + (secondWord (s.drop (word s).2)).2 ∨
          p = single ∧ n = (word s).2) := by
  simp only [shape] at h
  split at h
  · cases h
  rename_i noWhole
  split at h
  · cases h
  rename_i single known
  refine ⟨noWhole, single, known, ?_⟩
  split at h
  · rename_i q pair
    obtain ⟨rfl, rfl⟩ := Shape.opener.inj h
    exact .inl ⟨pair, rfl⟩
  · obtain ⟨rfl, rfl⟩ := Shape.opener.inj h
    exact .inr ⟨rfl, rfl⟩

theorem scan_opener_iff : scan on s = .ok (.openPragma p, n + 2) ↔ shape on s = .opener p n := by
  constructor
  · intro h
    unfold scan at h
    split at h
    · rename_i kind whole
      have same : Kind.openPragma p = kind := scanWhole_kind h
      simp only [shape] at whole
      split at whole
      · rename_i k found
        cases whole
        exact absurd same.symm (whole?_closed found)
      split at whole
      · cases whole
      · split at whole <;> cases whole
    · rename_i q m opener
      obtain ⟨same, size⟩ := Prod.mk.inj (Except.ok.inj h)
      cases same
      obtain rfl : m = n := by omega
      exact opener
    · cases scanWhole_kind h
  · intro h
    rw [scan, h]
    exact congrArg (fun n => Except.ok (Kind.openPragma p, n)) (Nat.add_comm 2 n)

/-- An opener that is one word sees the word behind it, through blanks. -/
theorem opener_fades (fades : Fades s s') (h : shape on (a ++ s) = .opener p a.length) :
    shape on (a ++ s') = .opener p a.length ↔ ¬GoesOn p s' := by
  obtain ⟨noWhole, single, known, words⟩ := opener_cases h
  have inside : (word (a ++ s)).2 ≤ a.length := by
    obtain ⟨-, size⟩ | ⟨-, size⟩ := words <;> omega
  have solid : ∃ d ∈ a, isBlank d = false := by
    have first := word_take inside
    rw [List.take_left] at first
    apply solid_of_word
    rw [first]
    intro none
    rw [none] at known
    cases known
  have same : word (a ++ s') = word (a ++ s) := word_fades fades solid
  have behind (t : List Char) : (a ++ t).drop (word (a ++ s)).2 = a.drop (word (a ++ s)).2 ++ t :=
    List.drop_append_of_le_length inside
  rw [behind s] at words
  rw [← same] at noWhole known
  obtain ⟨pair, size⟩ | ⟨rfl, size⟩ := words
  · -- Both words are in the lexeme.
    have second := secondWord_take (n := (a.drop (word (a ++ s)).2).length)
      (s := a.drop (word (a ++ s)).2 ++ s) (by rw [List.length_drop]; omega)
    rw [List.take_left] at second
    have solid : ∃ d ∈ a.drop (word (a ++ s)).2, isInlineBlank d = false := by
      apply solid_of_secondWord
      rw [second]
      intro none
      rw [none, show upperCase [] = [] from rfl, pair?_nil] at pair
      cases pair
    have second' : secondWord ((a ++ s').drop (word (a ++ s')).2) =
        secondWord (a.drop (word (a ++ s)).2 ++ s) := by
      rw [same, behind, secondWord_fades fades solid]
    have found := shape_of_pair noWhole known (by rw [second', same]; exact pair)
    rw [second', same, ← size] at found
    apply iff_of_true found
    rintro ⟨first, single, -⟩
    exact lookup_of_pair? pair single
  · -- The second word, if there is one, stands behind the lexeme.
    have second' : secondWord ((a ++ s').drop (word (a ++ s')).2) = secondWord s' := by
      rw [same, behind, List.drop_of_length_le (by omega), List.nil_append]
    rw [goesOn_iff known]
    cases pair : pair? (upperCase (word (a ++ s')).1) (upperCase (secondWord s').1) with
    | none =>
      have found := shape_of_single noWhole known (by rw [second']; exact pair)
      rw [same, ← size] at found
      exact iff_of_true found (by simp)
    | some q =>
      have found := shape_of_pair noWhole known (by rw [second']; exact pair)
      rw [found]
      refine iff_of_false ?_ (by simp)
      intro eq
      obtain ⟨rfl, -⟩ := Shape.opener.inj eq
      exact lookup_of_pair? pair known

end

end Pragma

/-! ## What shows -/

/-- What tells a lexeme that a comment beside it has faded: a dash becomes a
sign, an at sign becomes a type application or is one no longer, and a pragma
goes on with one more word. `touched` says that the comment stood right before
the lexeme, and `behind` is what is behind it once the comments there have
faded. -/
inductive Shows (on : Extensions) (touched : Bool) (k : Kind) (text behind : List Char) : Prop where
  | sign (beside : touched = true) (negatives : on .negativeLiterals = true) (minus : text = ['-'])
      (digit : behind.head?.any isDigit = true)
  | mark (beside : touched = true) (applications : on .typeApplications = true)
      (atSign : k = .operator .atSign) (tight : behind.head?.any (!isBlank ·) = true)
  | application (applied : k = .typeApplication) (apart : behind.head?.any (!isBlank ·) = false)
  | pragma {p : Pragma} (opens : k = .openPragma p) (goesOn : p.GoesOn behind)

/-- The second place is the first one after the comment has faded that stands
right before it, if `touched` says so. -/
structure Site.Loosens (touched : Bool) (site site' : Site) : Prop where
  alike : site.Alike site'
  loose : site'.isLoose = (touched || site.isLoose)
  attached : touched = true → site.isLoose = false

theorem Operator.scan_attached_intrinsic (site : Site) (c : Char) (r : List Char) :
    (scan site.attached c r).1.isIntrinsic = true := by
  unfold scan
  cases closer : closer? site.attached.on (c :: r) with
  | some found => exact Kind.isIntrinsic_of_isPlain (closer?_plain closer)
  | none =>
    simp only
    generalize r.takeWhile isSymbol = more
    cases mark : mark? site.attached.on (c :: more) (r.drop more.length) with
    | some found => exact Kind.isIntrinsic_of_isPlain (mark?_plain mark)
    | none =>
      simp only [ofRun_eq, before_attached]
      cases reserved : ReservedOperator.ofRun? site.attached.on (c :: more) with
      | some kind => exact ReservedOperator.ofRun?_intrinsic reserved
      | none => rfl

namespace Lexeme

theorem ne_typeApplication_of_attached (h : Scanned site.attached c r k n) :
    k ≠ .typeApplication := by
  rintro rfl
  obtain plain | ⟨-, found⟩ | ⟨-, -, braced⟩ | ⟨-, comment, same⟩ | ⟨-, same⟩ := kind_of_scanned h
  · cases plain
  · have intrinsic := Operator.scan_attached_intrinsic site c r
    rw [← found] at intrinsic
    cases intrinsic
  · cases braced
  · cases same
  · cases same

section

variable {touched : Bool}

theorem scan_pragma (site : Site) (s : List Char) :
    scan site '{' ('-' :: '#' :: s) = Pragma.scan site.on s := by
  rw [scan, if_pos (by rfl)]
  rfl

/-- What a brace and a dash open, and is no comment, is a pragma with its mark. -/
theorem pragma_front (braced : k.isBraced = true) (solid : k.isComment = false)
    (h : scan site c (w ++ s) = .ok (k, w.length)) :
    ∃ a, c = '{' ∧ w = '-' :: '#' :: a ∧
      Pragma.scan site.on (a ++ s) = .ok (k, a.length + 2) := by
  have noComment : Comment.startsLineComment (c :: (w ++ s)) ≠ true := by
    intro starts
    have first := Comment.dash_of_startsLineComment starts
    subst first
    rw [scan, if_neg (by simp), if_pos starts] at h
    obtain ⟨rfl, -⟩ := Prod.mk.inj (Except.ok.inj h)
    cases solid
  obtain ⟨rfl, dash⟩ := ((isBraced_iff (scanned_of_scan h)).1 braced).resolve_right noComment
  rw [scan, if_pos (by simpa using dash)] at h
  unfold scanBraceDash at h
  split at h
  · rename_i t front
    obtain ⟨m, size, -⟩ := Pragma.scan_take h
    cases w with
    | nil => cases size
    | cons d w =>
      cases w with
      | nil => cases size
      | cons e a =>
        cases front
        exact ⟨a, rfl, rfl, h⟩
  · obtain ⟨⟨kind, m⟩, -, same⟩ := ok_of_map h
    cases same
    cases solid

/-- A pragma sees nothing but what is behind it. -/
theorem pragma_fades (fades : Fades s s') (on : site'.on = site.on) (braced : k.isBraced = true)
    (solid : k.isComment = false) (h : scan site c (w ++ s) = .ok (k, w.length)) :
    scan site' c (w ++ s') = .ok (k, w.length) ↔ ¬Shows site.on touched k (c :: w) s' := by
  obtain ⟨a, rfl, rfl, found⟩ := pragma_front braced solid h
  change scan site' '{' ('-' :: '#' :: (a ++ s')) = .ok (k, a.length + 2) ↔ _
  rw [scan_pragma, on]
  by_cases opens : ∃ p, k = .openPragma p
  · obtain ⟨p, rfl⟩ := opens
    rw [Pragma.scan_opener_iff, Pragma.opener_fades fades (Pragma.scan_opener_iff.1 found),
      not_iff_not]
    constructor
    · exact .pragma rfl
    · rintro (⟨-, -, minus, -⟩ | ⟨-, -, atSign, -⟩ | ⟨applied, -⟩ | ⟨opens, goesOn⟩)
      · cases minus
      · cases atSign
      · cases applied
      · cases opens
        exact goesOn
  · apply iff_of_true (Pragma.scan_fades fades (fun p same => opens ⟨p, same⟩) found)
    rintro (⟨-, -, minus, -⟩ | ⟨-, -, rfl, -⟩ | ⟨rfl, -⟩ | ⟨rfl, -⟩)
    · cases minus
    · cases braced
    · cases braced
    · exact opens ⟨_, rfl⟩

/-- A sign is not found where something is attached from the left. -/
theorem negative_fades (fades : Fades s s') (loosens : site.Loosens touched site')
    (sign : isNegative site c (w ++ s) = true) (h : scan site c (w ++ s) = .ok (k, w.length)) :
    scan site' c (w ++ s') = .ok (k, w.length) ∧ ¬Shows site.on touched k (c :: w) s' := by
  rw [scan_of_negative sign] at h
  obtain ⟨rfl, size⟩ := Prod.mk.inj (Except.ok.inj h)
  have test := sign
  simp only [isNegative, Bool.and_eq_true, decide_eq_true_eq] at test
  obtain ⟨⟨⟨rfl, digit⟩, negatives⟩, isLoose⟩ := test
  have untouched : touched = false := by
    rw [← Bool.not_eq_true]
    intro beside
    rw [loosens.attached beside] at isLoose
    cases isLoose
  have loose := loosens.loose
  rw [untouched, Bool.false_or] at loose
  cases w with
  | nil =>
    cases s with
    | nil => cases digit
    | cons d s => cases size
  | cons d w =>
    have number : Number.scan site.on d (w ++ s') = Number.scan site.on d (w ++ s) := by
      apply fades.congr (f := fun s => Number.scan site.on d (w ++ s))
      intro u v b
      rw [← List.append_assoc, Number.scan_break b]
    have sign' : isNegative site' '-' (d :: w ++ s') = true := by
      rw [isNegative, loosens.alike.on, loose]
      exact sign
    have same : scanNegative site.on (d :: w ++ s') = scanNegative site.on (d :: w ++ s) := by
      simp only [List.cons_append, scanNegative, number]
    constructor
    · rw [scan_of_negative sign', loosens.alike.on, same, size]
    · rintro (⟨beside, -⟩ | ⟨beside, -⟩ | ⟨applied, -⟩ | ⟨opens, -⟩)
      · rw [untouched] at beside
        cases beside
      · rw [untouched] at beside
        cases beside
      · cases applied
      · cases opens

/-- A dash before a digit stands for itself where something is attached from
the left. -/
theorem nil_of_dash {d : Char} (digit : isDigit d = true)
    (h : scan site.attached '-' (d :: r) = .ok (k, n)) : n = 0 := by
  have noDash : d ≠ '-' := ne_of_apart digit (by decide)
  have noComment : Comment.startsLineComment ('-' :: d :: r) = false := by
    simp [Comment.startsLineComment, runLength, noDash]
  have noClose :
      (site.attached.inPragma && closePragmaMark.isPrefixOf ('-' :: d :: r)) = false := by
    rw [closePragmaMark_of_ne (by decide), Bool.and_false]
  have noSign : isNegative site.attached '-' (d :: r) = false := by
    rw [isNegative, site.isLoose_attached, Bool.and_false]
  rw [scan_of_operator (by decide) noComment noClose noSign] at h
  have size := congrArg Prod.snd (Except.ok.inj h)
  rw [Operator.scan_dash, runLength, List.takeWhile_cons_of_neg] at size
  · exact size.symm
  · rw [isSymbol_of_isDigit digit]
    exact Bool.false_ne_true

theorem before_atSign :
    (Kind.operator .atSign).before site s =
      if Operator.isTypeApplication site s = true then .typeApplication else .operator .atSign := by
  simp only [Kind.before, true_and]

theorem isTypeApplication_of_loosens (loosens : site.Loosens touched site') :
    Operator.isTypeApplication site' s' =
      (site.on .typeApplications && s'.head?.any (!isBlank ·) && (touched || site.isLoose)) := by
  rw [Operator.isTypeApplication, loosens.alike.on, loosens.loose]

section

variable (loosens : site.Loosens touched site')
  (noSign : touched = true → site.on .negativeLiterals = true → a = ['-'] →
    s'.head?.any isDigit ≠ true)

include loosens noSign

/-- A type application stays one as long as something is right behind it. -/
theorem application_fades (applied : Operator.isTypeApplication site s = true) :
    (Kind.operator .atSign).before site' s' = .typeApplication ↔
      ¬Shows site.on touched .typeApplication a s' := by
  simp only [Operator.isTypeApplication, Bool.and_eq_true] at applied
  obtain ⟨⟨applications, -⟩, isLoose⟩ := applied
  rw [before_atSign, isTypeApplication_of_loosens loosens, applications, isLoose, Bool.or_true,
    Bool.and_true, Bool.true_and]
  cases tight : s'.head?.any (!isBlank ·) with
  | true =>
    rw [if_pos rfl]
    apply iff_of_true rfl
    rintro (⟨beside, negatives, minus, digit⟩ | ⟨-, -, atSign, -⟩ | ⟨-, apart⟩ | ⟨opens, -⟩)
    · exact noSign beside negatives minus digit
    · cases atSign
    · rw [tight] at apart
      cases apart
    · cases opens
  | false =>
    rw [if_neg Bool.false_ne_true]
    exact iff_of_false (by simp) (not_not_intro (.application rfl tight))

/-- Any other at sign becomes a type application if it is tight to what is
behind it and a comment right before it kept it from being one. -/
theorem mark_fades (fades : Fades s s')
    (plain : ¬Operator.isTypeApplication site s = true) :
    (Kind.operator .atSign).before site' s' = .operator .atSign ↔
      ¬Shows site.on touched (.operator .atSign) a s' := by
  rw [before_atSign]
  by_cases applied : Operator.isTypeApplication site' s' = true
  · rw [if_pos applied]
    rw [isTypeApplication_of_loosens loosens] at applied
    simp only [Bool.and_eq_true] at applied
    obtain ⟨⟨applications, tight⟩, isLoose⟩ := applied
    apply iff_of_false (by simp)
    refine not_not_intro (.mark ?_ applications rfl tight)
    rw [← Bool.not_eq_false]
    intro untouched
    rw [untouched, Bool.false_or] at isLoose
    apply plain
    rw [Operator.isTypeApplication, applications, isLoose, Bool.and_true, Bool.true_and,
      ← Bool.not_eq_false]
    intro apart
    rw [fades.blank apart] at tight
    cases tight
  · rw [if_neg applied]
    apply iff_of_true rfl
    rintro (⟨beside, negatives, minus, digit⟩ | ⟨beside, applications, -, tight⟩ | ⟨same, -⟩ |
      ⟨opens, -⟩)
    · exact noSign beside negatives minus digit
    · rw [isTypeApplication_of_loosens loosens, applications, tight, beside] at applied
      exact applied rfl
    · cases same
    · cases opens

theorem atSign_fades (fades : Fades s s') :
    (Kind.operator .atSign).before site' s' = (Kind.operator .atSign).before site s ↔
      ¬Shows site.on touched ((Kind.operator .atSign).before site s) a s' := by
  have before : (Kind.operator .atSign).before site s = _ := before_atSign
  rw [before]
  by_cases applied : Operator.isTypeApplication site s = true
  · rw [if_pos applied]
    exact application_fades loosens noSign applied
  · rw [if_neg applied]
    exact mark_fades loosens noSign fades applied

/-- What a scanner finds for what stands before it, but for pragmas. -/
theorem before_fades (fades : Fades s s')
    (scanned : Scanned site.attached c r k n) (braced : k.isBraced = false) :
    k.before site' s' = k.before site s ↔ ¬Shows site.on touched (k.before site s) a s' := by
  by_cases atSign : k = .operator .atSign
  · subst atSign
    exact atSign_fades loosens noSign fades
  · have plain {site : Site} {s : List Char} : k.before site s = k := by
      rw [Kind.before, if_neg]
      exact fun both => atSign both.1
    rw [plain, plain]
    apply iff_of_true rfl
    rintro (⟨beside, negatives, minus, digit⟩ | ⟨-, -, same, -⟩ | ⟨applied, -⟩ | ⟨opens, -⟩)
    · exact noSign beside negatives minus digit
    · exact atSign same
    · exact ne_typeApplication_of_attached scanned applied
    · rw [opens] at braced
      cases braced

end

/-- Only a dash that nothing is attached to any more becomes a sign. -/
theorem shows_of_sign {k₀ : Kind} (fades : Fades s s') (loosens : site.Loosens touched site')
    (sign : isNegative site c (w ++ s) = false) (sign' : isNegative site' c (w ++ s') = true)
    (found : scan site.attached c (w ++ s) = .ok (k₀, w.length)) :
    scan site' c (w ++ s') ≠ .ok (k, w.length) ∧ Shows site.on touched k (c :: w) s' := by
  have test := sign'
  simp only [isNegative, loosens.alike.on, loosens.loose, Bool.and_eq_true,
    decide_eq_true_eq] at test
  obtain ⟨⟨⟨rfl, digit⟩, negatives⟩, isLoose⟩ := test
  have single : w = [] := by
    cases w with
    | nil => rfl
    | cons d w => exact absurd (nil_of_dash digit found) (by simp)
  subst single
  rw [List.nil_append] at digit
  have beside : touched = true := by
    rw [← Bool.not_eq_false]
    intro untouched
    rw [untouched, Bool.false_or] at isLoose
    rw [fades.head?_any (by decide)] at digit
    rw [isNegative, List.nil_append, digit, negatives, isLoose] at sign
    cases sign
  refine ⟨?_, .sign beside negatives rfl digit⟩
  rw [scan_of_negative sign']
  intro same
  have size := congrArg Prod.snd (Except.ok.inj same)
  rw [List.nil_append] at size
  cases s' with
  | nil => cases digit
  | cons d s' => cases size

/-- **What shows of a comment that fades.** A lexeme is found again once the
comments beside it have faded, but for four ways to notice it. -/
theorem scan_fades (fades : Fades s s') (loosens : site.Loosens touched site')
    (solid : k.isComment = false) (h : scan site c (w ++ s) = .ok (k, w.length)) :
    scan site' c (w ++ s') = .ok (k, w.length) ↔ ¬Shows site.on touched k (c :: w) s' := by
  cases sign : isNegative site c (w ++ s) with
  | true =>
    obtain ⟨found, hidden⟩ := negative_fades fades loosens sign h
    exact iff_of_true found hidden
  | false =>
    have whole := h
    rw [scan_attached sign] at h
    obtain ⟨⟨k₀, n⟩, found, same⟩ := ok_of_map h
    obtain ⟨rfl, rfl⟩ := Prod.mk.inj same
    rw [List.drop_left] at solid whole ⊢
    cases braced : k₀.isBraced with
    | true =>
      rw [Kind.before_of_isReserved (Kind.isReserved_of_isBraced braced)] at solid whole ⊢
      exact pragma_fades fades loosens.alike.on braced solid whole
    | false =>
      cases sign' : isNegative site' c (w ++ s') with
      | true =>
        obtain ⟨other, shows⟩ := shows_of_sign fades loosens sign sign' found
        exact iff_of_false other (not_not_intro shows)
      | false =>
        have scanned := scanned_of_scan found
        have there : scan site'.attached c (w ++ s') = .ok (k₀, w.length) := by
          have same : site.attached.Alike site'.attached :=
            ⟨loosens.alike.on, loosens.alike.inPragma⟩
          rw [scan_congr same (by rw [Site.isLoose_attached, Site.isLoose_attached])]
          exact scan_of_scanned (scanned_fades fades braced scanned)
        have noSign (beside : touched = true) (negatives : site.on .negativeLiterals = true)
            (alone : c :: w = ['-']) : s'.head?.any isDigit ≠ true := by
          obtain ⟨rfl, rfl⟩ := List.cons.inj alone
          rw [isNegative, loosens.alike.on, negatives, loosens.loose, beside] at sign'
          simpa using sign'
        have kinds : scan site' c (w ++ s') = .ok (k₀.before site s, w.length) ↔
            k₀.before site' s' = k₀.before site s := by
          rw [scan_attached sign', there]
          simp [Except.map]
        rw [kinds]
        exact before_fades loosens noSign fades scanned braced

end

end Lexeme

end HaskellLexis
