import HaskellLexis.Proofs.Breaks
import HaskellLexis.Proofs.Single

/-!
# Words and operators are taken whole

The scanners of names and of operators have many ways to come to an end, and
each of them ends where the run of characters ends that it has been reading.
Only the hashes behind a name may have more of a name right behind them.

* `Lexeme.IsOperator`, `Lexeme.IsWord`: the lexemes that are such runs;
* `Name.Whole`: a name that has been taken to its end;
* `Lexeme.munched_of_scanned`: what no scanner leaves behind its lexeme;
* `maximal_munch`: the same of all lexemes of a text.
-/

namespace HaskellLexis

variable {on : Extensions} {site : Site} {c : Char} {r s : List Char} {k : Kind} {n : Nat}

/-- Operators that are names, and the at sign of a type application. -/
def Kind.operators : List Kind :=
  [.name .varsym, .name .consym, .name .qvarsym, .name .qconsym, .typeApplication]

/-- Words with an operator tight in front that makes one lexeme with them. -/
def Kind.marked : List Kind :=
  [.quotation .spliceName, .quotation .typedSpliceName, .name .implicitParam, .name .label,
    .lambdaCase]

/-- Names and other words that are no keywords. -/
def Kind.words : List Kind :=
  [.punctuation .underscore, .name .varid, .name .conid, .name .qvarid, .name .qconid] ++ marked

/-- Some operators come from the table of the reserved ones. -/
def Lexeme.IsOperator (l : Lexeme) : Prop :=
  l.kind ∈ Kind.operators ∨
    ∃ o, ReservedOperator.listed? l.text = some o ∧ o.kind = l.kind

/-- Some words come from the table of the keywords. -/
def Lexeme.IsWord (l : Lexeme) : Prop :=
  l.kind ∈ Kind.words ∨ ∃ w, Keyword.spellings.lookup l.text = some w ∧ l.kind = .keyword w

/-- A kind that operators or words have. -/
def Kind.isRun : Kind → Bool
  | .keyword _ | .operator _ | .lambdaCase | .name _ | .typeApplication => true
  | .punctuation p => p = .underscore
  | .quotation q => q = .spliceName || q = .typedSpliceName
  | _ => false

/-- A kind that a run of symbols by itself has. -/
def Kind.isSymbolRun : Kind → Bool
  | .operator _ | .typeApplication => true
  | k => [.name .varsym, .name .consym, .keyword .forallKw].contains k

/-- No character of its own class is left right behind the lexeme, but for
what is behind a hash. -/
structure Lexeme.Munched (l : Lexeme) (behind : List Char) : Prop where
  operator : l.IsOperator → behind.head?.any isSymbol = false
  word : l.IsWord → l.text.getLast? ≠ some '#' → behind.head?.any isNameChar = false

/-! ## The tables -/

theorem ReservedOperator.isSymbolRun_of_mem {p : List Char × ReservedOperator}
    (mem : p ∈ spellings) : p.2.kind.isSymbolRun = true := by
  have table : ∀ p ∈ spellings, p.2.kind.isSymbolRun = true := by decide
  exact table p mem

/-- No word is in the table of operators. -/
theorem ReservedOperator.not_listed (h : startsName c = true) (w : List Char) :
    listed? (c :: w) = none := by
  cases found : listed? (c :: w) with
  | none => rfl
  | some o =>
    have table : ∀ p ∈ spellings, p.1.head?.any startsName = false := by decide +kernel
    have apart := table _ (mem_of_lookup found)
    rw [List.head?_cons, Option.any_some, h] at apart
    cases apart

/-- No operator is in the table of keywords. -/
theorem Keyword.not_spelling (h : isSymbol c = true) (w : List Char) :
    spellings.lookup (c :: w) = none := by
  cases found : spellings.lookup (c :: w) with
  | none => rfl
  | some k =>
    have table : ∀ p ∈ spellings, p.1.head?.any isSymbol = false := by decide +kernel
    have apart := table _ (mem_of_lookup found)
    rw [List.head?_cons, Option.any_some, h] at apart
    cases apart

namespace Lexeme

variable {l : Lexeme}

theorem IsOperator.isRun (h : l.IsOperator) : l.kind.isRun = true := by
  obtain mem | ⟨o, listed, same⟩ := h
  · have table : ∀ k ∈ Kind.operators, k.isRun = true := by decide
    exact table _ mem
  · have table : ∀ p ∈ ReservedOperator.spellings, p.2.kind.isRun = true := by decide
    rw [← same]
    exact table _ (mem_of_lookup listed)

theorem IsOperator.kind (h : l.IsOperator) :
    l.kind ∈ Kind.operators ∨ l.kind.isSymbolRun = true := by
  obtain mem | ⟨o, listed, same⟩ := h
  · exact .inl mem
  · rw [← same]
    exact .inr (ReservedOperator.isSymbolRun_of_mem (mem_of_lookup listed))

theorem IsWord.isRun (h : l.IsWord) : l.kind.isRun = true := by
  obtain mem | ⟨w, -, same⟩ := h
  · have table : ∀ k ∈ Kind.words, k.isRun = true := by decide
    exact table _ mem
  · rw [same]
    rfl

end Lexeme

namespace Lexeme.Munched

variable {l : Lexeme} {w : List Char}

theorem of_apart (h : l.kind.isRun = false) : l.Munched s where
  operator isOperator := by
    rw [isOperator.isRun] at h
    cases h
  word isWord := by
    rw [isWord.isRun] at h
    cases h

theorem of_words (mem : l.kind ∈ Kind.words)
    (stops : l.text.getLast? ≠ some '#' → s.head?.any isNameChar = false) : l.Munched s where
  operator isOperator := by
    have table : ∀ k ∈ Kind.words, ¬(k ∈ Kind.operators ∨ k.isSymbolRun = true) := by decide
    exact absurd isOperator.kind (table _ mem)
  word _ := stops

theorem of_keyword {k : Keyword} (kind : l.kind = .keyword k) (text : l.text = c :: w)
    (starts : startsName c = true)
    (stops : l.text.getLast? ≠ some '#' → s.head?.any isNameChar = false) : l.Munched s where
  operator isOperator := by
    obtain mem | ⟨o, listed, -⟩ := isOperator
    · rw [kind] at mem
      simp [Kind.operators] at mem
    · rw [text, ReservedOperator.not_listed starts] at listed
      cases listed
  word _ := stops

theorem of_operators (mem : l.kind ∈ Kind.operators) (stops : s.head?.any isSymbol = false) :
    l.Munched s where
  operator _ := stops
  word isWord := by
    have table : ∀ k ∈ Kind.operators, k ∉ Kind.words ∧ ∀ w ∈ Keyword.all, k ≠ .keyword w := by
      decide
    obtain ⟨noWord, noKeyword⟩ := table _ mem
    obtain mem' | ⟨w, spelled, same⟩ := isWord
    · exact absurd mem' noWord
    · obtain ⟨w', all, row⟩ := List.mem_map.1 (mem_of_lookup spelled)
      obtain ⟨-, rfl⟩ := Prod.mk.inj row
      exact absurd same (noKeyword w' all)

/-- A run of symbols that is not among the words by its kind. -/
theorem of_symbols (kind : l.kind ∉ Kind.words) (text : l.text = c :: w)
    (symbol : isSymbol c = true) (stops : s.head?.any isSymbol = false) : l.Munched s where
  operator _ := stops
  word isWord := by
    obtain mem | ⟨k, spelled, -⟩ := isWord
    · exact absurd mem kind
    · rw [text, Keyword.not_spelling symbol] at spelled
      cases spelled

end Lexeme.Munched

/-! ## Kinds of the other scanners -/

theorem Kind.isRun_of_isBraced (h : k.isBraced = true) : k.isRun = false := by
  cases k <;> first | rfl | cases h

theorem Bracket.scanRound_apart : (scanRound on r).1.isRun = false := by
  simp only [scanRound]
  split
  · rfl
  · split <;> rfl

theorem Bracket.scanSquare_apart (h : scanSquare on r = .ok (k, n)) : k.isRun = false := by
  unfold scanSquare at h
  dsimp only at h
  split at h
  · rename_i mark q found
    cases h
    have opener : Quotation.openers.find? (·.1.isPrefixOf r) = some (mark, q) := by
      split at found
      · exact found
      · cases found
    have table : ∀ p ∈ Quotation.openers, (Kind.quotation p.2).isRun = false := by decide
    exact table _ (List.mem_of_find?_eq_some opener)
  · split at h
    · rename_i result found
      obtain ⟨⟨q, m⟩, ok, same⟩ := ok_of_map h
      cases same
      have quasi : Quotation.scanQuasi? r = some result := by
        split at found
        · exact found
        · cases found
      obtain ⟨⟨qualified, j⟩, -, made⟩ := Option.map_eq_some_iff.1 quasi
      subst ok
      dsimp only at made
      split at made
      · cases made
        cases qualified <;> rfl
      · cases made
    · split at h <;> cases h <;> rfl

theorem Bracket.scan_apart {p : Punctuation} (special : Punctuation.ofChar? c = some p)
    (h : scan on c p r = .ok (k, n)) : k.isRun = false := by
  unfold scan at h
  split at h
  · have kind : (scanRound on r).1 = k := congrArg Prod.fst (Except.ok.inj h)
    rw [← kind]
    exact scanRound_apart
  · split at h
    · exact scanSquare_apart h
    · cases h
      unfold Punctuation.ofChar? at special
      split at special <;> cases special <;> rfl

theorem Literal.scanString_apart (h : scanString on r = .ok (k, n)) : k.isRun = false := by
  obtain ⟨m, -, found⟩ := ok_of_bind h
  split at found <;> cases found <;> rfl

theorem Literal.quotedName_apart (h : quotedName on r = .ok (k, n)) : k.isRun = false := by
  simp only [quotedName] at h
  split at h
  · split at h <;> cases h <;> rfl
  · cases h

theorem Literal.scanQuote_apart (h : scanQuote on r = .ok (k, n)) : k.isRun = false := by
  obtain ⟨m, -, found⟩ := ok_of_bind h
  split at found
  · exact quotedName_apart found
  · split at found
    · split at found
      · cases found
      · split at found <;> cases found <;> rfl
    · exact quotedName_apart found

/-! ## Names -/

namespace Name

/-- The name `taken` has been taken to its end, with the text `behind` left. -/
def Whole : Name → List Char → List Char → Prop
  | varsym, _, behind | consym, _, behind | qvarsym, _, behind | qconsym, _, behind =>
    behind.head?.any isSymbol = false
  | _, taken, behind => taken.getLast? ≠ some '#' → behind.head?.any isNameChar = false

/-- What stands before a part of a name does not matter to its end. -/
theorem Whole.behind {name : Name} {t b : List Char} (h : name.Whole t b) (u : List Char) :
    name.Whole (u ++ t) b := by
  cases name with
  | varsym | consym | qvarsym | qconsym => exact h
  | _ =>
    intro tight
    apply h
    intro hash
    exact tight (getLast?_behind hash u)

theorem take_hashRun (b : Bool) (s : List Char) :
    s.take (hashRun b s) = List.replicate (hashRun b s) '#' := by
  fun_induction hashRun b s with
  | case1 | case3 => rfl
  | case2 r _ ih => rw [List.take_succ_cons, ih, List.replicate_succ]

theorem take_hashLength (site : Site) (s : List Char) :
    s.take (hashLength site s) = List.replicate (hashLength site s) '#' := by
  unfold hashLength
  split
  · exact take_hashRun _ s
  · rfl

/-- Without a hash at its end a word stops where its name characters do. -/
theorem stops_of_hashes (site : Site) (stop : s.head?.any isNameChar = false)
    (tight : (s.take (hashLength site s)).getLast? ≠ some '#') :
    (s.drop (hashLength site s)).head?.any isNameChar = false := by
  rw [take_hashLength] at tight
  cases size : hashLength site s with
  | zero => exact stop
  | succ m =>
    rw [size, List.getLast?_replicate] at tight
    exact absurd rfl tight

theorem stops_of_hashedWord (site : Site) (s : List Char)
    (tight : (s.take (hashedWordLength site s)).getLast? ≠ some '#') :
    (s.drop (hashedWordLength site s)).head?.any isNameChar = false := by
  have stop : (s.drop (wordLength s)).head?.any isNameChar = false :=
    stops_drop_runLength isNameChar s
  unfold hashedWordLength at tight ⊢
  dsimp only at tight ⊢
  rw [← List.drop_drop]
  apply stops_of_hashes site stop
  intro hash
  apply tight
  rw [List.take_add]
  exact getLast?_behind hash _

/-- Along a qualified name, by its parts. -/
theorem scanQualified_whole (site : Site) (q : Bool) (stop : s.head?.any isNameChar = false) :
    (scanQualified site q s).1.Whole (s.take (scanQualified site q s).2)
      (s.drop (scanQualified site q s).2) := by
  induction s using qualified_induction generalizing q with
  | dot d r ih =>
    have con : (if q then qconid else conid).Whole [] ('.' :: d :: r) := by
      cases q <;> exact fun _ => stop
    rw [scanQualified_dot]
    dsimp only
    split
    · have inner := stops_drop_runLength isNameChar (d :: r)
      have part := (ih true inner).behind ('.' :: (d :: r).take (wordLength (d :: r)))
      rw [List.drop_drop] at part
      rw [Nat.add_assoc, Nat.add_comm 1, List.take_succ_cons, List.drop_succ_cons, List.take_add]
      exact part
    · split
      · split
        · exact con
        · intro tight
          rw [Nat.add_comm 1, List.take_succ_cons] at tight
          rw [Nat.add_comm 1, List.drop_succ_cons]
          apply stops_of_hashedWord
          intro hash
          exact tight (getLast?_behind hash ['.'])
      · split
        · split
          · exact con
          · have run := stops_drop_runLength isSymbol (d :: r)
            rw [Nat.add_comm 1, List.drop_succ_cons]
            split <;> exact run
        · exact con
  | other s other =>
    rw [scanQualified_of_ne site q other]
    cases q <;> exact stops_of_hashes site stop

theorem munched_of_whole {l : Lexeme} {name : Name} (kind : l.kind = .name name)
    (whole : name.Whole l.text s) : l.Munched s := by
  cases name with
  | varsym | consym | qvarsym | qconsym =>
    exact .of_operators (by rw [kind]; decide) whole
  | _ => exact .of_words (by rw [kind]; decide) whole

theorem scanLower_cases (site : Site) (c : Char) (r : List Char) :
    scanLower site c r = (.punctuation .underscore, hashedWordLength site r) ∨
      (∃ w, scanLower site c r = (.keyword w, hashedWordLength site r)) ∨
      scanLower site c r = (.name .varid, hashedWordLength site r) := by
  unfold scanLower
  dsimp only
  split
  · exact .inl rfl
  · split
    · exact .inr (.inl ⟨_, rfl⟩)
    · exact .inr (.inr rfl)

theorem scan_munched {l : Lexeme} (starts : startsName c = true)
    (kind : l.kind = (scan site c r).1) (text : l.text = c :: r.take (scan site c r).2) :
    l.Munched (r.drop (scan site c r).2) := by
  unfold scan at kind text ⊢
  by_cases upper : startsUpper c = true
  · rw [if_pos upper] at kind text ⊢
    have stop : (r.drop (wordLength r)).head?.any isNameChar = false :=
      stops_drop_runLength isNameChar r
    have whole := (scanQualified_whole site false stop).behind (c :: r.take (wordLength r))
    rw [List.cons_append, ← List.take_add, List.drop_drop] at whole
    apply munched_of_whole kind
    rw [text]
    exact whole
  · rw [if_neg upper] at kind text ⊢
    have stops (tight : (c :: r.take (hashedWordLength site r)).getLast? ≠ some '#') :
        (r.drop (hashedWordLength site r)).head?.any isNameChar = false := by
      apply stops_of_hashedWord
      intro hash
      exact tight (getLast?_behind hash [c])
    obtain same | ⟨w, same⟩ | same := scanLower_cases site c r
    all_goals
      rw [same] at kind text ⊢
      dsimp only at kind text
      rw [← text] at stops
    · exact .of_words (by rw [kind]; decide) stops
    · exact .of_keyword kind text starts stops
    · exact .of_words (by rw [kind]; decide) stops

end Name

/-! ## Operators -/

namespace Operator

theorem closer?_apart (h : closer? on s = some (k, n)) : k.isRun = false := by
  obtain ⟨row, listed, same⟩ := Option.map_eq_some_iff.1 h
  cases same
  have table : ∀ m ∈ closers, m.2.1.isRun = false := by decide
  exact table row (List.mem_of_find?_eq_some listed)

/-- A mark on a name takes the name whole. -/
theorem mark?_whole {run : List Char} (h : mark? on run s = some (k, n)) :
    k.isRun = false ∨ k ∈ Kind.marked ∧ (s.drop n).head?.any isNameChar = false := by
  have stop : (s.drop (wordLength s)).head?.any isNameChar = false :=
    stops_drop_runLength isNameChar s
  unfold mark? at h
  split at h
  · rename_i name paren dollars
    have quoted : Kind.quotation name ∈ Kind.marked ∧ (Kind.quotation paren).isRun = false := by
      split at dollars
      · unfold splice? at dollars
        split at dollars
        · cases dollars
          decide
        · split at dollars <;> cases dollars
          decide
      · cases dollars
    unfold scanSplice at h
    split at h
    · cases h
      exact .inl quoted.2
    · split at h <;> cases h
      exact .inr ⟨quoted.1, stop⟩
    · cases h
  · dsimp only at h
    split at h
    · cases h
    · split at h
      · cases h
        exact .inr ⟨by decide, stop⟩
      · split at h
        · cases h
          exact .inr ⟨by decide, stop⟩
        · split at h <;> cases h
          exact .inr ⟨by decide, stop⟩

theorem ofRun_isSymbolRun (site : Site) (run s : List Char) :
    (ofRun site run s).isSymbolRun = true := by
  unfold ofRun
  split
  · split <;> rfl
  · rename_i kind reserved
    obtain ⟨p, mem, rfl⟩ := ReservedOperator.mem_of_ofRun? reserved
    exact ReservedOperator.isSymbolRun_of_mem mem
  · split <;> rfl

/-- What the scanner of operators makes of a run: a bracket, a mark with the
name behind it, or the run. -/
theorem scan_cases (site : Site) (c : Char) (r : List Char) :
    (scan site c r).1.isRun = false ∨
    ((scan site c r).1 ∈ Kind.marked ∧
      (r.drop (scan site c r).2).head?.any isNameChar = false) ∨
    ((scan site c r).1.isSymbolRun = true ∧
      (r.drop (scan site c r).2).head?.any isSymbol = false) := by
  cases closer : closer? site.on (c :: r) with
  | some found =>
    simp only [scan, closer]
    exact .inl (closer?_apart closer)
  | none =>
    simp only [scan, closer]
    split
    · rename_i k n mark
      obtain apart | ⟨mem, stop⟩ := mark?_whole mark
      · exact .inl apart
      · rw [List.drop_drop] at stop
        exact .inr (.inl ⟨mem, stop⟩)
    · exact .inr (.inr ⟨ofRun_isSymbolRun site _ _, stops_drop_runLength isSymbol r⟩)

theorem scan_munched {l : Lexeme} (symbol : isSymbol c = true)
    (kind : l.kind = (scan site c r).1) (text : l.text = c :: r.take (scan site c r).2) :
    l.Munched (r.drop (scan site c r).2) := by
  have cases := scan_cases site c r
  rw [← kind] at cases
  obtain apart | ⟨mem, stop⟩ | ⟨run, stop⟩ := cases
  · exact .of_apart apart
  · exact .of_words (List.mem_append_right _ mem) fun _ => stop
  · have table : ∀ k ∈ Kind.words, k.isSymbolRun ≠ true := by decide
    apply Lexeme.Munched.of_symbols _ text symbol stop
    intro mem
    exact table _ mem run

end Operator

/-! ## All lexemes -/

/-- Words and operators come from two scanners only. -/
theorem Lexeme.run_of_scanned (h : Scanned site c r k n) (run : k.isRun = true) :
    (startsName c = true ∧ (k, n) = Name.scan site c r) ∨
      (isSymbol c = true ∧ (k, n) = Operator.scan site c r) := by
  have apart (no : k.isRun = false) : False := by
    rw [run] at no
    cases no
  cases h with
  | braceDash opens ok => exact (apart (Kind.isRun_of_isBraced (scanBraceDash_braced ok))).elim
  | bracket special single ok => exact (apart (Bracket.scan_apart special ok)).elim
  | string double ok => exact (apart (Literal.scanString_apart ok)).elim
  | quote single ok => exact (apart (Literal.scanQuote_apart ok)).elim
  | lineComment | closePragma | number | negative | unknown => cases run
  | name starts => exact .inl ⟨starts, rfl⟩
  | operator symbol => exact .inr ⟨symbol, rfl⟩

/-- No scanner leaves anything behind its lexeme that belongs to it. -/
theorem Lexeme.munched_of_scanned {l : Lexeme} (h : Scanned site c r l.kind n)
    (text : l.text = c :: r.take n) : l.Munched (r.drop n) := by
  cases run : l.kind.isRun with
  | false => exact .of_apart run
  | true =>
    obtain ⟨starts, found⟩ | ⟨symbol, found⟩ := run_of_scanned h run
    all_goals obtain ⟨kind, rfl⟩ := Prod.mk.inj found
    · exact Name.scan_munched starts kind text
    · exact Operator.scan_munched symbol kind text

/-- **Maximal munch.** Wherever a lexeme stands in a text, no symbol character
is right behind an operator, and no name character right behind a word that
does not end in a hash. This is so for all that is delivered, be it before a
failure. -/
theorem maximal_munch {config : Config} {text : List Char} {l : Lexeme}
    (mem : l ∈ located (Lexer.start config text).trace.items) :
    ∃ before after, l.Stands text before after ∧ l.Munched after := by
  obtain ⟨before, after, site, c, r, n, stands, -, scanned, taken, rfl⟩ := exists_place mem
  exact ⟨before, r.drop n, stands, Lexeme.munched_of_scanned scanned taken⟩

/-- A qualified operator next to a name and a bracket. -/
theorem maximal_munch_qualified :
    let text := ['(', 'A', '.', '+', ':', 'x', '\'', ')']
    let l : Lexeme := ⟨.name .qvarsym, ⟨⟨1, 2⟩, ⟨1, 6⟩⟩, ['A', '.', '+', ':']⟩
    l ∈ located (Lexer.start .permissive text).trace.items ∧ l.IsOperator ∧
      ∃ before after, l.Stands text before after ∧ l.Munched after := by
  intro text l
  have mem : l ∈ located (Lexer.start .permissive text).trace.items := by decide +kernel
  exact ⟨mem, .inl (by decide), maximal_munch mem⟩

end HaskellLexis
