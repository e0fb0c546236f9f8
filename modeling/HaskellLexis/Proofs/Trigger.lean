import HaskellLexis.Proofs.LineEnd

/-!
# What extensions look for

An extension that changes brackets, marks, operators or literals does so only
where certain characters stand: its trigger. In a text without them it makes no
difference whether it is on.

* `Extension.trigger?`, `Extension.silent`: the triggers, and texts without;
* `Agree`: two sets of extensions that differ only where the text is silent, or
  in the one for documentation;
* `…_agree`: one of the scanners, under two such sets;
* `Lexeme.scan_agree`: all lexemes but comments and pragmas. These two look at
  no extension but the one for documentation (`…_documented`).
-/

namespace HaskellLexis

/-- Characters of which one must stand in the text. -/
inductive Trigger where
  | anyOf (cs : List Char)
  | beyondAscii
  deriving DecidableEq

def Trigger.meets : Trigger → Char → Bool
  | anyOf cs, c => cs.contains c
  | beyondAscii, c => 0x80 ≤ c.toNat

namespace Extension

/-- Extensions that only turn words into keywords have none, nor have arrows,
which turn words and operators alike. -/
def trigger? : Extension → Option Trigger
  | magicHash | unboxedTuples | overloadedLabels => some (.anyOf ['#'])
  | quasiQuotes => some (.anyOf ['|'])
  | templateHaskell => some (.anyOf ['\'', '$', '|'])
  | parallelArrays => some (.anyOf [':'])
  | implicitParams => some (.anyOf ['?'])
  | lambdaCase => some (.anyOf ['\\'])
  | typeApplications => some (.anyOf ['@'])
  | negativeLiterals | haddock => some (.anyOf ['-'])
  | numericUnderscores => some (.anyOf ['_'])
  | binaryLiterals => some (.anyOf ['b', 'B'])
  | unicodeSyntax => some .beyondAscii
  | _ => none

/-- The extension has a trigger, and the text lacks it. -/
def silent (e : Extension) (s : List Char) : Bool := e.trigger?.any fun t => !s.any t.meets

variable {e : Extension} {s t : List Char}

theorem silent_mono (sub : t ⊆ s) (h : e.silent s = true) : e.silent t = true := by
  simp only [silent, Option.any_eq_true_iff_get] at h ⊢
  obtain ⟨some, lacks⟩ := h
  refine ⟨some, ?_⟩
  simp only [Bool.not_eq_true', List.any_eq_false] at lacks ⊢
  exact fun c hc => lacks c (sub hc)

/-- The extension has no trigger, or the text has it at its front. -/
def wakes (e : Extension) (c : Char) : Bool := e.trigger?.all fun t => t.meets c

theorem silent_eq_false {c : Char} (mem : c ∈ s) (awake : e.wakes c = true) :
    e.silent s = false := by
  unfold wakes at awake
  unfold silent
  cases trigger : e.trigger? with
  | none => rfl
  | some t =>
    rw [trigger] at awake
    simp only [Option.all_some] at awake
    simp only [Option.any_some, Bool.not_eq_false', List.any_eq_true]
    exact ⟨c, mem, awake⟩

end Extension

/-- But for documentation, the sets differ only in extensions of which the text
is silent. -/
def Agree (on on' : Extensions) (s : List Char) : Prop :=
  ∀ e, e ≠ .haddock → on' e = on e ∨ e.silent s = true

variable {on on' : Extensions} {c : Char} {r s t : List Char} {e : Extension}

namespace Agree

theorem mono (h : Agree on on' s) (sub : t ⊆ s) : Agree on on' t := by
  intro e noDoc
  obtain same | silent := h e noDoc
  · exact .inl same
  · exact .inr (Extension.silent_mono sub silent)

theorem drop (h : Agree on on' s) (n : Nat) : Agree on on' (s.drop n) :=
  h.mono (List.drop_subset n s)

theorem tail (h : Agree on on' (c :: r)) : Agree on on' r := h.mono (List.subset_cons_self c r)

/-- Where its trigger stands, an extension is on in both sets or in none. -/
theorem at_mem (h : Agree on on' s) (noDoc : e ≠ .haddock) (mem : c ∈ s)
    (wakes : e.wakes c = true) : on' e = on e := by
  obtain same | silent := h e noDoc
  · exact same
  · rw [Extension.silent_eq_false mem wakes] at silent
    cases silent

theorem untriggered (h : Agree on on' s) (none : e.trigger? = none) : on' e = on e := by
  have noDoc : e ≠ .haddock := by
    rintro rfl
    cases none
  obtain same | silent := h e noDoc
  · exact same
  · rw [Extension.silent, none] at silent
    cases silent

/-- A test that only a text with the trigger passes. -/
theorem guard (h : Agree on on' s) (noDoc : e ≠ .haddock) {b : Bool}
    (stands : b = true → ∃ c ∈ s, e.wakes c = true) : (b && on' e) = (b && on e) := by
  cases b with
  | false => rfl
  | true =>
    obtain ⟨c, mem, wakes⟩ := stands rfl
    rw [h.at_mem noDoc mem wakes]

/-- A choice that only makes a difference in a text with the trigger. -/
theorem choice (h : Agree on on' s) (noDoc : e ≠ .haddock) {α : Type} {x y : α}
    (stands : x ≠ y → ∃ c ∈ s, e.wakes c = true) :
    (if on' e then x else y) = if on e then x else y := by
  by_cases same : x = y
  · rw [same, ite_self, ite_self]
  · obtain ⟨c, mem, wakes⟩ := stands same
    rw [h.at_mem noDoc mem wakes]

end Agree

/-- A first character that wakes the extension. -/
theorem stands_of_head? {d : Char} (wakes : e.wakes d = true)
    (h : decide (s.head? = some d) = true) : ∃ c ∈ s, e.wakes c = true :=
  ⟨d, List.mem_of_head? (of_decide_eq_true h), wakes⟩

theorem stands_of_isPrefixOf {pat : List Char} (wakes : pat.any e.wakes = true)
    (h : pat.isPrefixOf s = true) : ∃ c ∈ s, e.wakes c = true := by
  obtain ⟨d, mem, hit⟩ := List.any_eq_true.1 wakes
  exact ⟨d, (List.isPrefixOf_iff_prefix.1 h).subset mem, hit⟩

/-! ## Brackets -/

theorem Quotation.bar_of_quoter? {q : Bool} {p : Bool × Nat} (h : quoter? q s = some p) :
    '|' ∈ s := by
  induction s using quoter_induction generalizing q p with
  | nil =>
    rw [quoter?] at h
    cases h
  | cons c r ih =>
    rw [quoter?_cons] at h
    simp only at h
    split at h
    · split at h
      · rename_i dot
        obtain ⟨u, behind⟩ := List.head?_eq_some_iff.1 dot
        rw [behind, List.tail_cons] at h
        obtain ⟨p', found, -⟩ := Option.map_eq_some_iff.1 h
        have mem := List.mem_cons_of_mem '.' (ih u behind found)
        rw [← behind] at mem
        exact List.mem_of_mem_drop mem
      · cases h
    · split at h
      · split at h
        · rename_i bar
          exact List.mem_of_mem_drop (List.mem_of_head? bar)
        · cases h
      · cases h

namespace Bracket

theorem scanRound_agree (h : Agree on on' r) : scanRound on' r = scanRound on r := by
  have hash := h.guard (e := .unboxedTuples) (by decide) (stands_of_head? (d := '#') (by decide))
  have arrows : on' .arrows = on .arrows := h.untriggered rfl
  simp only [scanRound, hash, arrows]

theorem scanSquare_agree (h : Agree on on' r) : scanSquare on' r = scanSquare on r := by
  have opener := h.choice (e := .templateHaskell) (by decide)
    (x := Quotation.openers.find? (·.1.isPrefixOf r)) (y := none) (by
      intro found
      obtain ⟨m, hm⟩ := Option.ne_none_iff_exists'.1 found
      have table : ∀ m ∈ Quotation.openers, m.1.any Extension.templateHaskell.wakes = true := by
        decide
      exact stands_of_isPrefixOf (table m (List.mem_of_find?_eq_some hm))
        (by simpa using List.find?_some hm))
  have quasi := h.choice (e := .quasiQuotes) (by decide)
    (x := Quotation.scanQuasi? r) (y := none) (by
      intro found
      obtain ⟨q, hq⟩ := Option.ne_none_iff_exists'.1 found
      obtain ⟨p, quoter, -⟩ := Option.map_eq_some_iff.1 hq
      exact ⟨'|', Quotation.bar_of_quoter? quoter, by decide⟩)
  have colon := h.guard (e := .parallelArrays) (by decide) (stands_of_head? (d := ':') (by decide))
  simp only [scanSquare, opener, quasi, colon]

theorem scan_agree {p : Punctuation} (h : Agree on on' r) (c : Char) :
    scan on' c p r = scan on c p r := by
  simp only [scan, scanRound_agree h, scanSquare_agree h]

end Bracket

/-! ## Literals -/

namespace Number

variable {u u' : Bool}

/-- Underscores are allowed in both, or there are none. -/
def Even (u u' : Bool) (s : List Char) : Prop := u' = u ∨ '_' ∉ s

theorem even_of_agree (h : Agree on on' s) :
    Even (on .numericUnderscores) (on' .numericUnderscores) s := by
  by_cases mem : '_' ∈ s
  · exact .inl (h.at_mem (by decide) mem (by decide))
  · exact .inr mem

theorem Even.mono (h : Even u u' s) (sub : t ⊆ s) : Even u u' t :=
  h.imp_right fun none mem => none (sub mem)

theorem Even.drop (h : Even u u' s) (n : Nat) : Even u u' (s.drop n) :=
  h.mono (List.drop_subset n s)

theorem moreDigits_even (digit : Char → Bool) (h : Even u u' s) :
    moreDigits digit u' s = moreDigits digit u s := by
  induction s with
  | nil => rfl
  | cons c r ih =>
    have more := ih (h.mono (List.subset_cons_self c r))
    have here : (u' && c = '_') = (u && c = '_') := by
      obtain same | none := h
      · rw [same]
      · have other : c ≠ '_' := fun same => none (same ▸ List.mem_cons_self)
        simp only [other, decide_false, Bool.and_false]
    simp only [moreDigits, more, here]

theorem digitRun_even (digit : Char → Bool) (h : Even u u' s) :
    digitRun digit u' s = digitRun digit u s := by
  cases s with
  | nil => rfl
  | cons c r =>
    simp only [digitRun, moreDigits_even digit (h.mono (List.subset_cons_self c r))]

theorem fractionLength_even (h : Even u u' s) : fractionLength u' s = fractionLength u s := by
  cases s with
  | nil => rfl
  | cons c r =>
    by_cases point : c = '.'
    · subst point
      simp only [fractionLength, digitRun_even isDigit (h.mono (List.subset_cons_self '.' r))]
    · rw [fractionLength_of_ne u' point, fractionLength_of_ne u point]

theorem exponentLength_even (h : Even u u' s) : exponentLength u' s = exponentLength u s := by
  cases s with
  | nil => rfl
  | cons c r =>
    have digits := digitRun_even isDigit
      ((h.mono (List.subset_cons_self c r)).drop ((r.take 1).countP isSign))
    simp only [exponentLength, digits]

theorem radix?_agree (h : Agree on on' (c :: r)) : radix? on' c = radix? on c := by
  have letter := h.guard (e := .binaryLiterals) (b := c = 'b' || c = 'B') (by decide) (by
    intro isLetter
    simp only [Bool.or_eq_true, decide_eq_true_eq] at isLetter
    refine ⟨c, List.mem_cons_self, ?_⟩
    obtain rfl | rfl := isLetter <;> decide)
  simp only [radix?, letter]

theorem radixLength_agree (h : Agree on on' r) : radixLength on' c r = radixLength on c r := by
  cases r with
  | nil => rfl
  | cons x s =>
    simp only [radixLength, radix?_agree h]
    cases radix? on x with
    | none => rfl
    | some digit => simp only [digitRun_even digit (even_of_agree h.tail)]

theorem decimal_agree (h : Agree on on' r) : decimal on' r = decimal on r := by
  have even := even_of_agree h
  simp only [decimal, moreDigits_even isDigit even, fractionLength_even (even.drop _),
    exponentLength_even (even.drop _)]

theorem body_agree (h : Agree on on' r) : body on' c r = body on c r := by
  rw [body_eq, body_eq, radixLength_agree h, decimal_agree h]

theorem hashCount_agree (h : Agree on on' s) : hashCount on' s = hashCount on s := by
  refine h.choice (by decide) fun some => ?_
  cases s with
  | nil => exact absurd rfl some
  | cons d s =>
    by_cases hash : d = '#'
    · exact ⟨d, List.mem_cons_self, hash ▸ by decide⟩
    · exact absurd (by simp [runLength, hash]) some

theorem scan_agree (h : Agree on on' r) : scan on' c r = scan on c r := by
  simp only [scan, body_agree h, hashCount_agree (h.drop _)]

end Number

namespace Literal

theorem hashed_agree (h : Agree on on' s) : hashed on' s = hashed on s := by
  have hash := h.guard (e := .magicHash) (by decide) (stands_of_head? (d := '#') (by decide))
  rw [hashed, hashed, Bool.and_comm, hash, Bool.and_comm]

theorem scanString_agree (h : Agree on on' r) : scanString on' r = scanString on r := by
  have same (n : Nat) : hashed on' (r.drop n) = hashed on (r.drop n) := hashed_agree (h.drop n)
  simp only [scanString, same]

/-- The quote in front has been seen already. -/
theorem quotedName_agree (h : Agree on on' ('\'' :: r)) : quotedName on' r = quotedName on r := by
  have quotes : on' .templateHaskell = on .templateHaskell :=
    h.at_mem (by decide) List.mem_cons_self (by decide)
  simp only [quotedName, quotes]

theorem scanQuote_agree (h : Agree on on' ('\'' :: r)) : scanQuote on' r = scanQuote on r := by
  have same (n : Nat) : hashed on' (r.drop n) = hashed on (r.drop n) :=
    hashed_agree (h.tail.drop n)
  simp only [scanQuote, quotedName_agree h, same]

end Literal

/-! ## Names and operators -/

theorem Keyword.ofWord?_agree (h : Agree on on' s) (word : List Char) :
    ofWord? on' word = ofWord? on word := by
  have table : ∀ k : Keyword, ∀ e ∈ k.needs, e.trigger? = none := by
    intro k
    cases k <;> decide
  have same : (fun k : Keyword => k.active on') = fun k => k.active on := by
    funext k
    have needs : k.needs.map on' = k.needs.map on :=
      List.map_congr_left fun e he => h.untriggered (table k e he)
    have any := congrArg (List.any · id) needs
    simp only [List.any_map, Function.id_comp] at any
    rw [active, active, any]
  rw [ofWord?, ofWord?, same]

namespace Site

/-- Two places before the same text, one under each set. -/
structure Agrees (site site' : Site) (s : List Char) : Prop where
  on : Agree site.on site'.on s
  inPragma : site'.inPragma = site.inPragma
  before : site'.before = site.before

theorem Agrees.mono {site site' : Site} (h : site.Agrees site' s) (sub : t ⊆ s) :
    site.Agrees site' t :=
  ⟨h.on.mono sub, h.inPragma, h.before⟩

theorem Agrees.drop {site site' : Site} (h : site.Agrees site' s) (n : Nat) :
    site.Agrees site' (s.drop n) :=
  h.mono (List.drop_subset n s)

theorem Agrees.isLoose {site site' : Site} (h : site.Agrees site' s) :
    site'.isLoose = site.isLoose := by
  simp only [Site.isLoose, h.before]

end Site

variable {site site' : Site}

namespace Name

theorem hashLength_agree (h : site.Agrees site' s) : hashLength site' s = hashLength site s := by
  rw [hashLength, hashLength, h.inPragma]
  refine h.on.choice (by decide) fun some => ?_
  cases s with
  | nil => exact absurd rfl some
  | cons d s =>
    by_cases hash : d = '#'
    · exact ⟨d, List.mem_cons_self, hash ▸ by decide⟩
    · exact absurd (hashRun_of_ne _ hash s) some

theorem hashedWordLength_agree (h : site.Agrees site' s) :
    hashedWordLength site' s = hashedWordLength site s := by
  simp only [hashedWordLength, hashLength_agree (h.drop _)]

theorem scanLower_agree (h : site.Agrees site' r) (c : Char) :
    scanLower site' c r = scanLower site c r := by
  simp only [scanLower, hashedWordLength_agree h, Keyword.ofWord?_agree h.on]

theorem scanQualified_agree (h : site.Agrees site' s) (q : Bool) :
    scanQualified site' q s = scanQualified site q s := by
  induction s using qualified_induction generalizing q with
  | dot d r ih =>
    have behind : site.Agrees site' (d :: r) := h.mono (List.subset_cons_self '.' (d :: r))
    rw [scanQualified_dot, scanQualified_dot]
    simp only [hashedWordLength_agree behind, Keyword.ofWord?_agree h.on, ih (behind.drop _)]
  | other s noDot =>
    rw [scanQualified_of_ne site' q noDot, scanQualified_of_ne site q noDot, hashLength_agree h]

theorem scan_agree (h : site.Agrees site' r) (c : Char) : scan site' c r = scan site c r := by
  simp only [scan, scanUpper, scanQualified_agree (h.drop _), scanLower_agree h]

end Name

/-- An operator that an extension reserves wakes that extension. -/
theorem ReservedOperator.ofRun?_agree {run : List Char} (h : Agree on on' run) :
    ofRun? on' run = ofRun? on run := by
  have table : ∀ p ∈ spellings,
      p.2.needs.all (fun e => e ≠ .haddock && p.1.any e.wakes) = true := by decide
  rw [ofRun?, ofRun?]
  cases found : listed? run with
  | none => rfl
  | some o =>
    have active : o.active on' = o.active on := by
      have needs := table (run, o) (mem_of_lookup found)
      unfold ReservedOperator.active
      cases gate : o.needs with
      | none => rfl
      | some e =>
        rw [gate] at needs
        simp only [Option.all_some, Bool.and_eq_true, decide_eq_true_eq] at needs
        obtain ⟨c, mem, wakes⟩ := List.any_eq_true.1 needs.2
        simp only [Option.all_some]
        exact h.at_mem needs.1 mem wakes
    simp only [Option.filter_some, active]

namespace Operator

theorem closer?_agree (h : Agree on on' s) : closer? on' s = closer? on s := by
  have table : ∀ m ∈ closers, m.2.2 ≠ .haddock ∧ m.1.any m.2.2.wakes = true := by decide
  have same : (closers.find? fun m => m.1.isPrefixOf s && on' m.2.2) =
      closers.find? fun m => m.1.isPrefixOf s && on m.2.2 :=
    List.find?_congr fun m hm =>
      h.guard (table m hm).1 (stands_of_isPrefixOf (table m hm).2)
  exact congrArg (Option.map fun m => (m.2.1, m.1.length)) same

/-- Marks on names are told by the run in front of the name alone. -/
theorem mark?_agree {run : List Char} (h : Agree on on' run) (s : List Char) :
    mark? on' run s = mark? on run s := by
  have splices := h.choice (e := .templateHaskell) (by decide)
    (x := splice? run) (y := none) (by
      intro found
      refine ⟨'$', ?_, by decide⟩
      unfold splice? at found
      split at found
      · simp [*]
      · split at found
        · simp [*]
        · exact absurd rfl found)
  have lone {d : Char} {e : Extension} (wakes : e.wakes d = true)
      (same : decide (run = [d]) = true) : ∃ c ∈ run, e.wakes c = true := by
    rw [of_decide_eq_true same]
    exact ⟨d, List.mem_cons_self, wakes⟩
  have implicit := h.guard (e := .implicitParams) (by decide) (lone (d := '?') (by decide))
  have label := h.guard (e := .overloadedLabels) (by decide) (lone (d := '#') (by decide))
  have cases := h.guard (e := .lambdaCase) (by decide) (lone (d := '\\') (by decide))
  simp only [mark?, splices, implicit, label, cases]

/-- Only an at sign makes one ask for type applications. -/
theorem ofRun_agree {run : List Char} (h : site.Agrees site' run) (s : List Char) :
    ofRun site' run s = ofRun site run s := by
  unfold ofRun
  rw [ReservedOperator.ofRun?_agree h.on]
  split
  · rename_i found
    have table : ∀ p ∈ ReservedOperator.spellings,
        p.2.kind = .operator .atSign → p.1 = ['@'] := by decide
    obtain ⟨o, ho, kind⟩ := Option.map_eq_some_iff.1 found
    obtain ⟨listed, -⟩ := Option.filter_eq_some_iff.1 ho
    have sign : run = ['@'] := table (run, o) (mem_of_lookup listed) kind
    have on : site'.on .typeApplications = site.on .typeApplications :=
      h.on.at_mem (by decide) (c := '@') (by simp [sign]) (by decide)
    have application : isTypeApplication site' s = isTypeApplication site s := by
      simp only [isTypeApplication, on, h.isLoose]
    rw [application]
  · rfl
  · rfl

theorem scan_agree (h : site.Agrees site' (c :: r)) : scan site' c r = scan site c r := by
  have run : site.Agrees site' (c :: r.takeWhile isSymbol) :=
    h.mono (List.cons_subset_cons c (List.takeWhile_subset isSymbol))
  unfold scan
  rw [closer?_agree h.on]
  simp only [mark?_agree run.on, ofRun_agree run]

end Operator

namespace Lexeme

theorem isNegative_agree (h : site.Agrees site' (c :: r)) :
    isNegative site' c r = isNegative site c r := by
  have dash := h.on.guard (e := .negativeLiterals) (b := c = '-' && r.head?.any isDigit)
    (by decide) (by
      intro sign
      simp only [Bool.and_eq_true, decide_eq_true_eq] at sign
      exact ⟨c, List.mem_cons_self, sign.1 ▸ by decide⟩)
  simp only [isNegative, dash, h.isLoose]

theorem scanNegative_agree (h : Agree on on' r) : scanNegative on' r = scanNegative on r := by
  cases r with
  | nil => rfl
  | cons d s => simp only [scanNegative, Number.scan_agree h.tail]

/-- All lexemes that neither a brace and a dash nor two dashes open. -/
theorem scan_agree (h : site.Agrees site' (c :: r)) (single : ¬(c = '{' ∧ r.head? = some '-'))
    (noComment : Comment.startsLineComment (c :: r) = false) :
    scan site' c r = scan site c r := by
  have behind := h.mono (List.subset_cons_self c r)
  by_cases quote : c = '\''
  · subst quote
    rw [scan_character, scan_character]
    exact Literal.scanQuote_agree h.on
  · have noBrace : (decide (c = '{') && decide (r.head? = some '-')) = false := by
      simpa using single
    unfold scan
    simp only [noBrace, noComment, Bool.false_eq_true, if_false, if_neg quote, h.inPragma,
      Bracket.scan_agree behind.on, Literal.scanString_agree behind.on,
      Number.scan_agree behind.on, Name.scan_agree behind, isNegative_agree h,
      scanNegative_agree behind.on, Operator.scan_agree h]

end Lexeme

/-! ## Documentation -/

section

variable (doc : on' .haddock = on .haddock)

include doc

namespace Comment

theorem documentation?_documented : documentation? on' = documentation? on := by
  funext s
  simp only [documentation?, doc]

theorem lineDocumentation?_documented : lineDocumentation? on' = lineDocumentation? on := by
  funext s
  unfold lineDocumentation?
  rw [documentation?_documented doc]

theorem isPlain_documented : isPlain on' = isPlain on := by
  funext s
  rw [isPlain, isPlain, lineDocumentation?_documented doc]

theorem continuationLength_documented (s : List Char) :
    continuationLength on' s = continuationLength on s := by
  fun_induction continuationLength on s with
  | case1 r blanks body plain n ih =>
    rw [continuationLength_cons, isPlain_documented doc]
    exact (if_pos plain).trans (congrArg _ ih)
  | case2 r blanks body other =>
    rw [continuationLength_cons, isPlain_documented doc]
    exact if_neg other
  | case3 s other =>
    rw [continuationLength]
    exact other

theorem scanLine_documented : scanLine on' = scanLine on := by
  funext r
  simp only [scanLine, lineDocumentation?_documented doc, continuationLength_documented doc]

theorem scanBlock_documented : scanBlock on' = scanBlock on := by
  funext r
  simp only [scanBlock, documentation?_documented doc]

end Comment

theorem Pragma.scan_documented : Pragma.scan on' = Pragma.scan on := by
  funext s
  have whole (w : List Char) : whole? on' w = whole? on w := by simp only [whole?, doc]
  simp only [Pragma.scan, shape, whole]

end

/-- Every lexeme, if the sets agree on documentation too, or the text has no
dash and so neither comments nor pragmas. -/
theorem Lexeme.scan_documented (h : site.Agrees site' (c :: r))
    (doc : site'.on .haddock = site.on .haddock ∨ '-' ∉ c :: r) :
    scan site' c r = scan site c r := by
  by_cases opens : c = '{' ∧ r.head? = some '-'
  · have same := doc.resolve_right fun none =>
      none (List.mem_cons_of_mem c (List.mem_of_head? opens.2))
    have brace : (decide (c = '{') && decide (r.head? = some '-')) = true := by simpa using opens
    unfold scan scanBraceDash
    rw [if_pos brace, if_pos brace, Pragma.scan_documented same, Comment.scanBlock_documented same]
  · cases starts : Comment.startsLineComment (c :: r) with
    | false => exact scan_agree h opens starts
    | true =>
      have same := doc.resolve_right fun none =>
        none (Comment.dash_of_startsLineComment starts ▸ List.mem_cons_self)
      rw [scan_of_scanned (.lineComment starts), scan_of_scanned (.lineComment starts),
        Comment.scanLine_documented same]

end HaskellLexis
