import HaskellLexis.Proofs.Qualified

/-!
# Operators behind module names

Two scanners decide whether an operator is reserved. The one of operators asks
for the extension that a row of the table needs; the one of names, behind a dot,
takes every row as it is. So they agree but for rows that are off.

* `IsAsciiModule`, `IsOperatorText`: what is put together;
* `Lexeme.scan_modules`: module names with an operator behind them;
* `Lexer.lex_of_two`: a text that is two lexemes;
* `qualified_operators`: a free operator is free behind module names if its
  spelling is in no row, and comes apart from them if it is in one that is off.
-/

namespace HaskellLexis

variable {on : Extensions} {site : Site} {c : Char} {r s : List Char}

/-- A capital, and letters, digits and underscores behind it, all of them ASCII. -/
def IsAsciiModule : List Char → Prop
  | [] => False
  | c :: w => isAsciiUpper c = true ∧
    w.all (fun d => isAsciiUpper d || isAsciiLower d || isDigit d || d = '_') = true

/-- A text of symbol characters, none of which may begin the name of a module. -/
structure IsOperatorText (op : List Char) : Prop where
  some_symbol : op ≠ []
  symbols : ∀ d ∈ op, isSymbol d = true
  noUpper : ∀ d ∈ op, startsUpper d = false

theorem ascii_of_isAsciiUpper (h : isAsciiUpper c = true) : c.toNat < 128 := by
  simp only [isAsciiUpper, Bool.and_eq_true, decide_eq_true_eq] at h
  have last : c.toNat ≤ 'Z'.toNat := h.2
  have value : 'Z'.toNat = 90 := rfl
  omega

theorem starts_of_isAsciiUpper (h : isAsciiUpper c = true) :
    startsUpper c = true ∧ startsName c = true ∧ isBlank c = false := by
  have table := ascii_forall
    (fun c => isAsciiUpper c = true →
      startsUpper c = true ∧ startsName c = true ∧ isBlank c = false)
    (by decide +kernel) (ascii_of_isAsciiUpper h)
  exact table h

theorem isNameChar_of_ascii
    (h : (isAsciiUpper c || isAsciiLower c || isDigit c || c = '_') = true) :
    isNameChar c = true := by
  have ascii : c.toNat < 128 := by
    simp only [Bool.or_eq_true, decide_eq_true_eq] at h
    obtain ((upper | lower) | digit) | rfl := h
    · exact ascii_of_isAsciiUpper upper
    · simp only [isAsciiLower, Bool.and_eq_true, decide_eq_true_eq] at lower
      have last : c.toNat ≤ 'z'.toNat := lower.2
      have value : 'z'.toNat = 122 := rfl
      omega
    · exact ascii_of_isDigit digit
    · decide
  have table := ascii_forall
    (fun c => (isAsciiUpper c || isAsciiLower c || isDigit c || c = '_') = true →
      isNameChar c = true) (by decide +kernel) ascii
  exact table h

/-- The name of a module is one word. -/
theorem IsAsciiModule.word {m : List Char} (h : IsAsciiModule m) :
    WordFrom startsUpper m ∧ ∀ d ∈ m, isNameChar d = true := by
  cases m with
  | nil => exact h.elim
  | cons c w =>
    obtain ⟨upper, name, -⟩ := starts_of_isAsciiUpper h.1
    have inner : ∀ d ∈ w, isNameChar d = true :=
      fun d mem => isNameChar_of_ascii (List.all_eq_true.1 h.2 d mem)
    exact ⟨⟨upper, inner⟩, List.forall_mem_cons.2 ⟨isNameChar_of_startsName name, inner⟩⟩

namespace ReservedOperator

/-- A row whose spelling is free is off. -/
theorem inactive_of_free {run : List Char} {o : ReservedOperator} (listed : listed? run = some o)
    (free : ofRun? on run = none) : o.active on = false := by
  rw [Bool.eq_false_iff]
  intro active
  rw [ofRun?, listed, Option.filter_some, if_pos active] at free
  cases free

theorem needs_of_inactive {o : ReservedOperator} (off : o.active on = false) : o.needs ≠ none := by
  intro always
  rw [active, always] at off
  cases off

/-- An operator that begins with a colon is reserved whatever extensions are on. -/
theorem ofRun?_of_colon {run : List Char} (colon : run.head? = some ':')
    (free : ofRun? on run = none) : listed? run = none := by
  cases found : listed? run with
  | none => rfl
  | some o =>
    have table : ∀ p ∈ spellings, p.1.head? = some ':' → p.2.needs = none := by decide
    have always := table _ (mem_of_lookup found) colon
    exact absurd always (needs_of_inactive (inactive_of_free found free))

end ReservedOperator

namespace Operator

/-- A run that is a name is not reserved. -/
theorem ofRun_name {run : List Char} {name : Name} (h : ofRun site run s = .name name) :
    ReservedOperator.ofRun? site.on run = none ∧
      name = if run.head? = some ':' then .consym else .varsym := by
  unfold ofRun at h
  split at h
  · split at h <;> cases h
  · rename_i kind reserved
    have table : ∀ p ∈ ReservedOperator.spellings,
        p.2.kind.isReserved = true ∨ p.2.kind = .keyword .forallKw := by decide
    obtain ⟨p, mem, same⟩ := ReservedOperator.mem_of_ofRun? reserved
    rw [h] at same
    obtain reserved | keyword := table p mem
    · rw [same] at reserved
      cases reserved
    · rw [same] at keyword
      cases keyword
  · rename_i free
    exact ⟨free, (Kind.name.inj h).symm⟩

/-- Alone in a text, symbols that are a name are a run that is not reserved. -/
theorem scan_alone {name : Name} (symbols : ∀ d ∈ r, isSymbol d = true)
    (h : (Kind.name name, r.length) = scan site c r) : ofRun site (c :: r) [] = .name name := by
  have run : r.takeWhile isSymbol = r := List.takeWhile_eq_self_iff.2 symbols
  unfold scan at h
  split at h
  · rename_i closer
    have apart := closer?_apart closer
    rw [← (Prod.mk.inj h).1] at apart
    cases apart
  · dsimp only at h
    rw [run, List.drop_length, mark?_nil] at h
    exact (Prod.mk.inj h).1.symm

/-- A dot in front of a row that an extension needs makes no row again. -/
theorem scan_dotted (site : Site) {o : ReservedOperator} (symbols : ∀ d ∈ r, isSymbol d = true)
    (listed : ReservedOperator.listed? r = some o) (gated : o.needs ≠ none) :
    scan site '.' r = (.name .varsym, r.length) := by
  have table : ∀ p ∈ ReservedOperator.spellings, p.2.needs ≠ none →
      ReservedOperator.listed? ('.' :: p.1) = none := by decide
  have free : ReservedOperator.ofRun? site.on ('.' :: r) = none := by
    rw [ReservedOperator.ofRun?, table _ (mem_of_lookup listed) gated]
    rfl
  have noCloser : closer? site.on ('.' :: r) = none := by
    simp [closer?, closers, List.isPrefixOf]
  have run : r.takeWhile isSymbol = r := List.takeWhile_eq_self_iff.2 symbols
  simp only [scan, noCloser, run, List.drop_length, mark?_nil, ofRun, free]
  rfl

end Operator

theorem Lexeme.scan_dotted (site : Site) {o : ReservedOperator}
    (symbols : ∀ d ∈ r, isSymbol d = true) (listed : ReservedOperator.listed? r = some o)
    (gated : o.needs ≠ none) : scan site '.' r = .ok (.name .varsym, r.length) := by
  have noComment : Comment.startsLineComment ('.' :: r) = false :=
    Comment.startsLineComment_of_ne (by decide)
  have noClose : (site.inPragma && closePragmaMark.isPrefixOf ('.' :: r)) = false := by
    rw [closePragmaMark_of_ne (by decide), Bool.and_false]
  rw [scan_of_operator (by decide) noComment noClose (by simp [isNegative]),
    Operator.scan_dotted site symbols listed gated]

theorem wordLength_dot {w : List Char} (inner : ∀ d ∈ w, isNameChar d = true) (t : List Char) :
    wordLength (w ++ '.' :: t) = w.length := by
  rw [wordLength, runLength, List.takeWhile_append_of_pos inner,
    List.takeWhile_cons_of_neg (by decide), List.append_nil]

namespace Name

/-- Behind a dot, module names with an operator. A reserved one does not take
the last dot. -/
theorem scanQualified_operator (site : Site) (q : Bool) {ms : List (List Char)} {op : List Char}
    (modules : ∀ m ∈ ms, IsAsciiModule m) (ok : IsOperatorText op) (noDot : op ≠ ['.']) :
    scanQualified site q ('.' :: (modulePrefix ms ++ op)) =
      if (ReservedOperator.listed? op).isSome then
        (if q || ms ≠ [] then qconid else conid, (modulePrefix ms).length)
      else (if op.head? = some ':' then qconsym else qvarsym,
        1 + (modulePrefix ms).length + op.length) := by
  induction ms generalizing q with
  | nil =>
    obtain ⟨some_symbol, symbols, noUpper⟩ := ok
    cases op with
    | nil => exact absurd rfl some_symbol
    | cons d r =>
      have symbol : isSymbol d = true := symbols d List.mem_cons_self
      have upper : ¬startsUpper d = true := by simp [noUpper d List.mem_cons_self]
      have lower : ¬startsLower d = true := by simp [startsLower, startsName_of_isSymbol symbol]
      have run : (d :: r).takeWhile isSymbol = d :: r := List.takeWhile_eq_self_iff.2 symbols
      change scanQualified site q ('.' :: d :: r) = _
      rw [scanQualified_dot]
      dsimp only
      rw [if_neg upper, if_neg lower, if_pos symbol, run]
      simp [noDot, modulePrefix]
  | cons m ms ih =>
    obtain ⟨word, inner⟩ := (modules m List.mem_cons_self).word
    cases m with
    | nil => exact word.elim
    | cons d w =>
      have behind := ih true fun m mem => modules m (List.mem_cons_of_mem _ mem)
      have whole : ('.' :: (modulePrefix ((d :: w) :: ms) ++ op)) =
          '.' :: d :: (w ++ '.' :: (modulePrefix ms ++ op)) := by
        rw [modulePrefix_cons, List.append_assoc]
        rfl
      have size : wordLength (d :: (w ++ '.' :: (modulePrefix ms ++ op))) = (d :: w).length := by
        rw [← List.cons_append]
        exact wordLength_dot inner _
      have rest : (d :: (w ++ '.' :: (modulePrefix ms ++ op))).drop (d :: w).length =
          '.' :: (modulePrefix ms ++ op) := by
        rw [← List.cons_append, List.drop_left]
      rw [whole, scanQualified_dot]
      dsimp only
      rw [if_pos word.1, size, rest, behind, modulePrefix_cons]
      simp only [Bool.true_or, if_true, List.length_append, List.length_cons]
      split
      · simp
        omega
      · simp
        omega

end Name

namespace Lexeme

/-- A constructor scanned with more module names and an operator behind it. -/
theorem scan_modules (site : Site) {m : List Char} {ms : List (List Char)} {op : List Char}
    (modules : ∀ m' ∈ (c :: m) :: ms, IsAsciiModule m') (ok : IsOperatorText op)
    (noDot : op ≠ ['.']) :
    scan site c (m ++ '.' :: (modulePrefix ms ++ op)) = .ok
      (if (ReservedOperator.listed? op).isSome then
        (.name (if ms ≠ [] then .qconid else .conid), m.length + (modulePrefix ms).length)
      else (.name (if op.head? = some ':' then .qconsym else .qvarsym),
        m.length + (1 + (modulePrefix ms).length + op.length))) := by
  have first := modules (c :: m) List.mem_cons_self
  obtain ⟨upper, starts, -⟩ := starts_of_isAsciiUpper first.1
  have inner : ∀ d ∈ m, isNameChar d = true :=
    fun d mem => first.word.2 d (List.mem_cons_of_mem c mem)
  have found := Name.scanQualified_operator site false
    (fun m' mem => modules m' (List.mem_cons_of_mem _ mem)) ok noDot
  rw [scan_of_scanned (.name starts), Name.scan, if_pos upper, Name.scanUpper]
  dsimp only
  rw [wordLength_dot inner, List.drop_left, found]
  split <;> simp

end Lexeme

namespace IsOperatorText

variable {op : List Char}

theorem of_all (some_symbol : op ≠ [])
    (all : op.all (fun d => isSymbol d && !startsUpper d) = true) : IsOperatorText op := by
  have both (d : Char) (mem : d ∈ op) : isSymbol d = true ∧ startsUpper d = false := by
    simpa using List.all_eq_true.1 all d mem
  exact ⟨some_symbol, fun d mem => (both d mem).1, fun d mem => (both d mem).2⟩

/-- Both ends are solid. -/
theorem solid (ok : IsOperatorText op) : ∀ d ∈ op, isBlank d = false := by
  intro d mem
  rw [Bool.eq_false_iff]
  intro blank
  have symbol := ok.symbols d mem
  rw [isSymbol_of_isBlank blank] at symbol
  cases symbol

theorem exists_last (ok : IsOperatorText op) : ∃ d ∈ op, op.getLast? = some d := by
  cases last : op.getLast? with
  | none => exact absurd (List.getLast?_eq_none_iff.1 last) ok.some_symbol
  | some d => exact ⟨d, List.mem_of_getLast? last, rfl⟩

/-- An operator that is a name when it stands alone is not reserved. -/
theorem free_of_lexesAs {config : Config} {name : Name} (ok : IsOperatorText op)
    (alone : LexesAs config op (.name name)) :
    ReservedOperator.ofRun? config.enabled op = none ∧
      name = if op.head? = some ':' then .consym else .varsym := by
  obtain ⟨d, mem, last⟩ := ok.exists_last
  cases op with
  | nil => exact absurd rfl ok.some_symbol
  | cons c r =>
    have symbol := ok.symbols c List.mem_cons_self
    have first := ok.solid c List.mem_cons_self
    have closed : ∀ p, Kind.name name ≠ .openPragma p := nofun
    have scanned := (lexesAs_iff first last (ok.solid d mem) closed).1 alone
    obtain ⟨starts, -⟩ | ⟨-, found⟩ := Lexeme.run_of_scanned (Lexeme.scanned_of_scan scanned) rfl
    · rw [startsName_of_isSymbol symbol] at starts
      cases starts
    · have inner : ∀ e ∈ r, isSymbol e = true :=
        fun e mem => ok.symbols e (List.mem_cons_of_mem c mem)
      exact Operator.ofRun_name (Operator.scan_alone inner found)

/-- A full stop is always reserved. -/
theorem ne_dot {on : Extensions} (free : ReservedOperator.ofRun? on op = none) : op ≠ ['.'] := by
  rintro rfl
  cases free

theorem lexesAs_modules {config : Config} {ms : List (List Char)} {name : Name}
    (some_module : ms ≠ []) (modules : ∀ m ∈ ms, IsAsciiModule m) (ok : IsOperatorText op)
    (noDot : op ≠ ['.']) (operator : name = .qvarsym ∨ name = .qconsym) :
    LexesAs config (modulePrefix ms ++ op) (.name name) ↔
      ReservedOperator.listed? op = none ∧
        name = if op.head? = some ':' then .qconsym else .qvarsym := by
  obtain ⟨d, mem, last⟩ := ok.exists_last
  match ms, some_module with
  | [] :: _, _ => exact (modules [] List.mem_cons_self).elim
  | (c :: w) :: ms, _ =>
    obtain ⟨-, -, first⟩ := starts_of_isAsciiUpper (modules (c :: w) List.mem_cons_self).1
    have closed : ∀ p, Kind.name name ≠ .openPragma p := nofun
    have behind : (c :: (w ++ '.' :: (modulePrefix ms ++ op))).getLast? = some d := by
      have whole := getLast?_behind last (c :: (w ++ '.' :: modulePrefix ms))
      simpa using whole
    rw [modulePrefix_cons, List.append_assoc, List.cons_append, List.cons_append,
      lexesAs_iff first behind (ok.solid d mem) closed, Lexeme.scan_modules _ modules ok noDot]
    cases listed : ReservedOperator.listed? op with
    | some o =>
      constructor
      · intro same
        have con := congrArg Prod.fst (Except.ok.inj same)
        have kind : name = if ms ≠ [] then .qconid else .conid := (Kind.name.inj con).symm
        obtain rfl | rfl := operator <;> split at kind <;> cases kind
      · rintro ⟨none, -⟩
        cases none
    | none =>
      constructor
      · intro same
        have kind := congrArg Prod.fst (Except.ok.inj same)
        exact ⟨rfl, (Kind.name.inj kind).symm⟩
      · rintro ⟨-, rfl⟩
        have size : (w ++ '.' :: (modulePrefix ms ++ op)).length =
            w.length + (1 + (modulePrefix ms).length + op.length) := by
          simp only [List.length_append, List.length_cons]
          omega
        rw [size]
        rfl

end IsOperatorText

namespace Lexer

variable {config : Config} {k k' : Kind} {n : Nat} {d : Char}

/-- Two lexemes, one right behind the other, take the whole text. -/
theorem lex_of_two (first : isBlank c = false) (second : isBlank d = false)
    (found : Lexeme.scan (start config (c :: r)).site c r = .ok (k, n))
    (behind : r.drop n = d :: s) (found' : ∀ site, Lexeme.scan site d s = .ok (k', s.length))
    (closed : ∀ p, k ≠ .openPragma p) (closed' : ∀ p, k' ≠ .openPragma p) :
    ∃ tokens l l', lex config (c :: r) = .ok tokens ∧ located tokens = [l, l'] ∧
      (l.kind = k ∧ l.text = c :: r.take n) ∧ l'.kind = k' ∧ l'.text = d :: s := by
  have stay := skipBlanks_of_solid (x := start config (c :: r)) rfl first
  rw [← stay] at found
  obtain ⟨out, y, step, rest, pragma⟩ := step_of_scan (congrArg Lexer.rest stay) found
  have front : y.rest = d :: s := rest.trans behind
  have stay' := skipBlanks_of_solid front second
  obtain ⟨out', z, step', rest', pragma'⟩ :=
    step_of_scan ((congrArg Lexer.rest stay').trans front) (found' y.skipBlanks.site)
  have used : z.skipBlanks.rest = [] := by
    rw [rest_skipBlanks, rest', List.drop_length]
    rfl
  have after : z.skipBlanks.pragma = none := by
    rw [pragma_skipBlanks, pragma', stay']
    apply pragmaAfter_of_closed closed'
    rw [pragma, stay]
    exact pragmaAfter_of_closed closed rfl
  obtain ⟨tokens, ok, located⟩ := lex_of_run (.step step (run_of_step step')) used after
  refine ⟨tokens, _, _, ok, located, ⟨rfl, rfl⟩, rfl, ?_⟩
  rw [List.take_length]

end Lexer

/-- Behind module names an operator that is listed, but off, leaves them their
own lexeme, and takes their last dot. -/
theorem IsOperatorText.apart_modules {config : Config} {ms : List (List Char)} {op : List Char}
    {o : ReservedOperator} (some_module : ms ≠ []) (modules : ∀ m ∈ ms, IsAsciiModule m)
    (ok : IsOperatorText op) (listed : ReservedOperator.listed? op = some o)
    (gated : o.needs ≠ none) :
    ∃ tokens l l', lex config (modulePrefix ms ++ op) = .ok tokens ∧ located tokens = [l, l'] ∧
      (l.kind = .name (if ms.length = 1 then .conid else .qconid) ∧
        l.text ++ ['.'] = modulePrefix ms) ∧
      l'.kind = .name .varsym ∧ l'.text = '.' :: op := by
  have noDot : op ≠ ['.'] := by
    rintro rfl
    cases listed
    exact gated rfl
  cases ms with
  | nil => exact absurd rfl some_module
  | cons m ms =>
    cases m with
    | nil => exact (modules [] List.mem_cons_self).elim
    | cons c w =>
      obtain ⟨-, -, first⟩ := starts_of_isAsciiUpper (modules (c :: w) List.mem_cons_self).1
      have whole := getLast?_modulePrefix some_module
      rw [modulePrefix_cons, List.cons_append] at whole
      -- The last dot is not the first character, which is a capital.
      obtain ⟨u, names⟩ : ∃ u, w ++ '.' :: modulePrefix ms = u ++ ['.'] := by
        rw [List.getLast?_cons_of_ne_nil (by simp)] at whole
        exact List.getLast?_eq_some_iff.1 whole
      have size : w.length + (modulePrefix ms).length = u.length := by
        have lengths := congrArg List.length names
        simp only [List.length_append, List.length_cons, List.length_nil] at lengths
        omega
      have text : w ++ '.' :: (modulePrefix ms ++ op) = u ++ '.' :: op := by
        calc w ++ '.' :: (modulePrefix ms ++ op) = (w ++ '.' :: modulePrefix ms) ++ op := by simp
          _ = u ++ '.' :: op := by rw [names, List.append_assoc]; rfl
      have found := Lexeme.scan_modules (Lexer.start config (c :: (u ++ '.' :: op))).site modules ok
        noDot
      rw [listed, text, size] at found
      obtain ⟨tokens, l, l', lexes, located, ⟨kind, taken⟩, behind⟩ :=
        Lexer.lex_of_two first (by decide) found List.drop_left
          (fun site => Lexeme.scan_dotted site ok.symbols listed gated) nofun nofun
      refine ⟨tokens, l, l', ?_, located, ⟨?_, ?_⟩, behind⟩
      · rw [modulePrefix_cons, List.append_assoc, List.cons_append, List.cons_append, text]
        exact lexes
      · rw [kind]
        cases ms <;> rfl
      · rw [taken, List.take_left, modulePrefix_cons, List.cons_append, List.cons_append, names]

/-- **Operators behind module names.** An operator that stands for a constructor
keeps doing so behind the names of modules. Any other that is a name when it
stands alone is qualified just if it is in no row of the table of reserved
operators. In a row that is off it is a name too, but one that takes the last
dot with it, and leaves the modules a lexeme of their own. -/
theorem qualified_operators {config : Config} {ms : List (List Char)} {op : List Char}
    (some_module : ms ≠ []) (modules : ∀ m ∈ ms, IsAsciiModule m) (ok : IsOperatorText op) :
    (LexesAs config op (.name .consym) →
      LexesAs config (modulePrefix ms ++ op) (.name .qconsym)) ∧
    (LexesAs config op (.name .varsym) →
      (LexesAs config (modulePrefix ms ++ op) (.name .qvarsym) ↔
        ReservedOperator.listed? op = none) ∧
      ∀ o, ReservedOperator.listed? op = some o → o.active config.enabled = false ∧
        ∃ tokens l l', lex config (modulePrefix ms ++ op) = .ok tokens ∧
          located tokens = [l, l'] ∧
          (l.kind = .name (if ms.length = 1 then .conid else .qconid) ∧
            l.text ++ ['.'] = modulePrefix ms) ∧
          l'.kind = .name .varsym ∧ l'.text = '.' :: op) := by
  constructor
  · intro alone
    obtain ⟨free, name⟩ := ok.free_of_lexesAs alone
    have colon : op.head? = some ':' := by
      by_contra noColon
      rw [if_neg noColon] at name
      cases name
    apply (ok.lexesAs_modules some_module modules (IsOperatorText.ne_dot free) (.inr rfl)).2
    exact ⟨ReservedOperator.ofRun?_of_colon colon free, by rw [if_pos colon]⟩
  · intro alone
    obtain ⟨free, name⟩ := ok.free_of_lexesAs alone
    have noColon : op.head? ≠ some ':' := by
      intro colon
      rw [if_pos colon] at name
      cases name
    constructor
    · rw [ok.lexesAs_modules some_module modules (IsOperatorText.ne_dot free) (.inl rfl),
        if_neg noColon]
      exact and_iff_left rfl
    · intro o listed
      have off := ReservedOperator.inactive_of_free listed free
      exact ⟨off, ok.apart_modules some_module modules listed
        (ReservedOperator.needs_of_inactive off)⟩

/-- Behind one module and two, with all extensions on. -/
theorem qualified_operators_plus :
    let ms := [['A'], ['B', '0']]
    (LexesAs .permissive ['+'] (.name .varsym) ∧
      LexesAs .permissive (modulePrefix ms ++ ['+']) (.name .qvarsym)) ∧
    LexesAs .permissive [':', '+'] (.name .consym) ∧
      LexesAs .permissive (modulePrefix ms ++ [':', '+']) (.name .qconsym) := by
  intro ms
  have modules : ∀ m ∈ ms, IsAsciiModule m := by
    intro m mem
    obtain rfl | rfl : m = ['A'] ∨ m = ['B', '0'] := by simpa [ms] using mem
    all_goals exact ⟨by decide, by decide⟩
  have plus : LexesAs .permissive ['+'] (.name .varsym) :=
    ⟨[.lexeme ⟨.name .varsym, ⟨⟨1, 1⟩, ⟨1, 2⟩⟩, ['+']⟩,
      .lexeme ⟨.endOfText, ⟨⟨1, 2⟩, ⟨1, 2⟩⟩, []⟩], by decide +kernel, by decide +kernel⟩
  have colon : LexesAs .permissive [':', '+'] (.name .consym) :=
    ⟨[.lexeme ⟨.name .consym, ⟨⟨1, 1⟩, ⟨1, 3⟩⟩, [':', '+']⟩,
      .lexeme ⟨.endOfText, ⟨⟨1, 3⟩, ⟨1, 3⟩⟩, []⟩], by decide +kernel, by decide +kernel⟩
  have plusText : IsOperatorText ['+'] := .of_all (by decide) (by decide)
  have colonText : IsOperatorText [':', '+'] := .of_all (by decide) (by decide)
  refine ⟨⟨plus, ?_⟩, colon, ?_⟩
  · exact ((qualified_operators (List.cons_ne_nil _ _) modules plusText).2 plus).1.2 (by decide)
  · exact (qualified_operators (List.cons_ne_nil _ _) modules colonText).1 colon

/-- An arrow that is off is a name when it stands alone, and is not taken for
one behind the name of a module. -/
theorem disabled_arrow_apart :
    let config := Config.permissive.without [.arrows]
    LexesAs config ['-', '<'] (.name .varsym) ∧
      ¬LexesAs config ['A', '.', '-', '<'] (.name .qvarsym) := by
  intro config
  constructor
  · exact ⟨[.lexeme ⟨.name .varsym, ⟨⟨1, 1⟩, ⟨1, 3⟩⟩, ['-', '<']⟩,
      .lexeme ⟨.endOfText, ⟨⟨1, 3⟩, ⟨1, 3⟩⟩, []⟩], by decide +kernel, by decide +kernel⟩
  · rintro ⟨tokens, ok, single⟩
    have two : (lex config ['A', '.', '-', '<']).toOption.all
        (fun tokens => (located tokens).length = 2) = true := by decide +kernel
    rw [ok] at two
    have length := of_decide_eq_true two
    rw [single] at length
    cases length

end HaskellLexis
