import HaskellLexis.Proofs.Alone
import HaskellLexis.Proofs.Munch

/-!
# Qualified names

A qualified name is the names of modules, a dot behind each, and a base of its
own kind. The scanner tells from the first character behind a dot what goes on
there. What may begin the name of a module need not be allowed within one,
though, and then the name ends in its dot.

* `Name.IsBase`, `Name.Qualified`: the form of a qualified name;
* `Lexeme.Dangles`: a name that ends in a dot;
* `Name.Parts`: what the search along a qualified name has found;
* `qualified_names`: every qualified name has its form unless it dangles.
-/

namespace HaskellLexis

variable {on : Extensions} {site : Site} {c : Char} {r s : List Char} {n : Nat}

/-- A character of the class and name characters behind it. -/
def WordFrom (first : Char → Bool) : List Char → Prop
  | [] => False
  | c :: w => first c = true ∧ ∀ d ∈ w, isNameChar d = true

/-- The names of modules, with a dot behind each. -/
def modulePrefix (ms : List (List Char)) : List Char := ms.flatMap (· ++ ['.'])

theorem modulePrefix_cons (m : List Char) (ms : List (List Char)) :
    modulePrefix (m :: ms) = m ++ '.' :: modulePrefix ms := by
  rw [modulePrefix, List.flatMap_cons, List.append_assoc]
  rfl

namespace Name

/-- A word with hashes behind it, if these are on. -/
def HashedWordFrom (on : Extensions) (first : Char → Bool) (s : List Char) : Prop :=
  ∃ w n, s = w ++ List.replicate n '#' ∧ WordFrom first w ∧ (n = 0 ∨ on .magicHash = true)

/-- What may stand behind the last dot of a qualified name. -/
def IsBase (on : Extensions) : Name → List Char → Prop
  | qconid, s => HashedWordFrom on startsUpper s
  | qvarid, s => HashedWordFrom on startsLower s
  | qconsym, s => s.head? = some ':' ∧ ∀ d ∈ s, isSymbol d = true
  | qvarsym, s => s ≠ [] ∧ s.head? ≠ some ':' ∧ ∀ d ∈ s, isSymbol d = true
  | _, _ => False

/-- Names of modules, at least one, and a base of this kind. -/
def Qualified (on : Extensions) (name : Name) (text : List Char) : Prop :=
  ∃ ms base, ms ≠ [] ∧ (∀ m ∈ ms, WordFrom startsUpper m) ∧ text = modulePrefix ms ++ base ∧
    name.IsBase on base

def qualifiedKinds : List Name := [qvarid, qconid, qvarsym, qconsym]

/-- What the search along a name takes behind the first word of it, with the
text `behind` left: hashes of that word, a dot and the rest of a qualified name,
or a dot that leaves the name dangling. -/
inductive Parts (on : Extensions) (q : Bool) : Name → List Char → List Char → Prop where
  | plain {n behind} (hashes : n = 0 ∨ on .magicHash = true) :
      Parts on q (if q then qconid else conid) (List.replicate n '#') behind
  | base {name behind} (ms : List (List Char)) (base : List Char)
      (modules : ∀ m ∈ ms, WordFrom startsUpper m) (ok : name.IsBase on base) :
      Parts on q name ('.' :: (modulePrefix ms ++ base)) behind
  | stray {d t} (ms : List (List Char)) (modules : ∀ m ∈ ms, WordFrom startsUpper m)
      (upper : startsUpper d = true) (noName : isNameChar d = false) :
      Parts on q qconid ('.' :: modulePrefix ms) (d :: t)

end Name

/-- A name that ends in its last dot. What is behind it begins with a
character that may begin the name of a module and may not stand in one. -/
def Lexeme.Dangles (l : Lexeme) (behind : List Char) : Prop :=
  l.kind = .name .qconid ∧
  (∃ ms, ms ≠ [] ∧ (∀ m ∈ ms, WordFrom startsUpper m) ∧ l.text = modulePrefix ms) ∧
    ∃ d t, behind = d :: t ∧ startsUpper d = true ∧ isNameChar d = false

theorem wordFrom_take {first : Char → Bool} (h : first c = true) (r : List Char) :
    WordFrom first (c :: r.take (wordLength r)) := by
  refine ⟨h, ?_⟩
  rw [wordLength, take_runLength]
  exact fun d => List.mem_takeWhile_imp

theorem wordLength_cons (h : isNameChar c = true) (r : List Char) :
    wordLength (c :: r) = wordLength r + 1 := by
  rw [wordLength, runLength, List.takeWhile_cons_of_pos h, List.length_cons]
  rfl

namespace Name

theorem hashLength_eq_zero_or (site : Site) (s : List Char) :
    hashLength site s = 0 ∨ site.on .magicHash = true := by
  unfold hashLength
  split
  · rename_i hashes
    exact .inr hashes
  · exact .inl rfl

/-- A word of the class that begins here, with its hashes. -/
theorem hashedWordFrom_take {first : Char → Bool} (site : Site) (h : first c = true)
    (inner : isNameChar c = true) (r : List Char) :
    HashedWordFrom site.on first ((c :: r).take (hashedWordLength site (c :: r))) := by
  have whole : (c :: r).take (hashedWordLength site (c :: r)) =
      (c :: r.take (wordLength r)) ++ List.replicate
        (hashLength site ((c :: r).drop (wordLength (c :: r)))) '#' := by
    rw [← take_hashLength]
    unfold hashedWordLength
    dsimp only
    rw [List.take_add, wordLength_cons inner, List.take_succ_cons]
  rw [whole]
  exact ⟨_, _, rfl, wordFrom_take h r, hashLength_eq_zero_or site _⟩

/-- The run of symbols that begins here, named by its first one. -/
theorem isBase_run (h : isSymbol c = true) (r : List Char) :
    (if c = ':' then qconsym else qvarsym).IsBase on ((c :: r).takeWhile isSymbol) := by
  have symbols : ∀ d ∈ c :: r.takeWhile isSymbol, isSymbol d = true := by
    intro d mem
    obtain rfl | mem := List.mem_cons.1 mem
    · exact h
    · exact List.mem_takeWhile_imp mem
  rw [List.takeWhile_cons_of_pos h]
  by_cases colon : c = ':'
  · rw [if_pos colon]
    exact ⟨congrArg some colon, symbols⟩
  · rw [if_neg colon]
    exact ⟨List.cons_ne_nil _ _, fun same => colon (Option.some.inj same), symbols⟩

namespace Parts

variable {q : Bool} {name : Name} {w taken behind : List Char}

/-- One more module in front. -/
theorem cons (word : WordFrom startsUpper w) (h : Parts on true name taken behind) :
    Parts on q name ('.' :: (w ++ taken)) behind := by
  cases h with
  | @plain n behind hashes => exact .base [] _ (List.forall_mem_nil _) ⟨w, n, rfl, word, hashes⟩
  | base ms base modules ok =>
    have shape : '.' :: (w ++ '.' :: (modulePrefix ms ++ base)) =
        '.' :: (modulePrefix (w :: ms) ++ base) := by
      rw [modulePrefix_cons, List.append_assoc]
      rfl
    rw [shape]
    exact .base (w :: ms) base (List.forall_mem_cons.2 ⟨word, modules⟩) ok
  | stray ms modules upper noName =>
    rw [← modulePrefix_cons]
    exact .stray (w :: ms) (List.forall_mem_cons.2 ⟨word, modules⟩) upper noName

end Parts

theorem scanQualified_parts (site : Site) (q : Bool) (s : List Char) :
    Parts site.on q (scanQualified site q s).1 (s.take (scanQualified site q s).2)
      (s.drop (scanQualified site q s).2) := by
  induction s using qualified_induction generalizing q with
  | dot d r ih =>
    have stop : Parts site.on q (if q then qconid else conid) [] ('.' :: d :: r) :=
      .plain (n := 0) (.inl rfl)
    rw [scanQualified_dot]
    dsimp only
    split
    · rename_i upper
      rw [Nat.add_assoc, Nat.add_comm 1, List.take_succ_cons, List.drop_succ_cons, List.take_add,
        ← List.drop_drop]
      cases inner : isNameChar d with
      | true =>
        have word := wordFrom_take upper r
        rw [← List.take_succ_cons, ← wordLength_cons inner] at word
        exact .cons word (ih true)
      | false =>
        have none : wordLength (d :: r) = 0 := by simp [wordLength, runLength, inner]
        have noDot : d ≠ '.' := ne_of_apart upper (by decide)
        have noHash : d ≠ '#' := ne_of_apart upper (by decide)
        have ends : scanQualified site true (d :: r) = (qconid, 0) := by
          rw [scanQualified_of_ne site true, hashLength_of_ne noHash, if_pos rfl]
          intro e t same
          exact noDot (List.cons.inj same).1
        rw [none, List.drop_zero, ends]
        exact .stray [] (List.forall_mem_nil _) upper inner
    · split
      · rename_i lower
        have inner := isNameChar_of_startsLower lower
        split
        · exact stop
        · rw [Nat.add_comm 1, List.take_succ_cons]
          exact .base [] _ (List.forall_mem_nil _) (hashedWordFrom_take site lower inner r)
      · split
        · rename_i symbol
          split
          · exact stop
          · have run : (d :: r).take ((d :: r).takeWhile isSymbol).length =
                (d :: r).takeWhile isSymbol := take_runLength isSymbol (d :: r)
            rw [Nat.add_comm 1, List.take_succ_cons, run]
            exact .base [] _ (List.forall_mem_nil _) (isBase_run symbol r)
        · exact stop
  | other s other =>
    rw [scanQualified_of_ne site q other, take_hashLength]
    exact .plain (hashLength_eq_zero_or site s)

theorem not_mem_of_hashedWordFrom {first : Char → Bool} (h : HashedWordFrom on first s)
    (dot : first '.' = false) : '.' ∉ s := by
  obtain ⟨w, n, rfl, word, -⟩ := h
  intro mem
  obtain inWord | inHashes := List.mem_append.1 mem
  · cases w with
    | nil => cases inWord
    | cons c w =>
      obtain rfl | later := List.mem_cons.1 inWord
      · rw [word.1] at dot
        cases dot
      · exact absurd (word.2 '.' later) (by decide)
  · exact absurd (List.eq_of_mem_replicate inHashes) (by decide)

/-- A constructor name with its base does not end in a dot. -/
theorem Qualified.getLast?_ne {text : List Char} (h : qconid.Qualified on text) :
    text.getLast? ≠ some '.' := by
  obtain ⟨ms, base, -, -, rfl, ok⟩ := h
  intro last
  have noDot : '.' ∉ base := not_mem_of_hashedWordFrom ok (by decide)
  cases behind : base.getLast? with
  | none =>
    obtain ⟨w, n, rfl, word, -⟩ := ok
    obtain ⟨rfl, -⟩ := List.append_eq_nil_iff.1 (List.getLast?_eq_none_iff.1 behind)
    exact word
  | some d =>
    rw [getLast?_behind behind] at last
    cases last
    exact noDot (List.mem_of_getLast? behind)

end Name

theorem getLast?_modulePrefix {ms : List (List Char)} (some_module : ms ≠ []) :
    (modulePrefix ms).getLast? = some '.' := by
  obtain ⟨ms', m, rfl⟩ := (List.eq_nil_or_concat ms).resolve_left some_module
  rw [modulePrefix, List.concat_eq_append, List.flatMap_append]
  apply getLast?_behind
  rw [List.flatMap_singleton]
  exact getLast?_behind rfl m

namespace Lexeme

/-- Qualified names come from one scanner only, behind a capital. -/
theorem qualified_of_scanned {name : Name} (h : Scanned site c r (.name name) n)
    (qualified : name ∈ Name.qualifiedKinds) :
    startsUpper c = true ∧ (Kind.name name, n) = Name.scanUpper site r := by
  have plain : ∀ name ∈ Name.qualifiedKinds,
      name ≠ .varid ∧ Kind.name name ∉ Kind.marked ∧ (Kind.name name).isSymbolRun ≠ true := by
    decide
  obtain ⟨noVarid, noMark, noRun⟩ := plain name qualified
  obtain ⟨-, found⟩ | ⟨-, found⟩ := run_of_scanned h rfl
  · unfold Name.scan at found
    by_cases upper : startsUpper c = true
    · rw [if_pos upper] at found
      exact ⟨upper, found⟩
    · rw [if_neg upper] at found
      obtain same | ⟨w, same⟩ | same := Name.scanLower_cases site c r
      all_goals rw [same] at found
      · cases found
      · cases found
      · cases found
        exact absurd rfl noVarid
  · have cases := Operator.scan_cases site c r
    rw [← found] at cases
    obtain apart | ⟨mark, -⟩ | ⟨run, -⟩ := cases
    · cases apart
    · exact absurd mark noMark
    · exact absurd run noRun

theorem qualified_or_dangles {l : Lexeme} {name : Name} (kind : l.kind = .name name)
    (qualified : name ∈ Name.qualifiedKinds) (h : Scanned site c r l.kind n)
    (text : l.text = c :: r.take n) : name.Qualified site.on l.text ∨ l.Dangles (r.drop n) := by
  rw [kind] at h
  obtain ⟨upper, found⟩ := qualified_of_scanned h qualified
  obtain ⟨same, rfl⟩ := Prod.mk.inj found
  have word := wordFrom_take upper r
  have parts := Name.scanQualified_parts site false (r.drop (wordLength r))
  rw [← Kind.name.inj same, List.drop_drop] at parts
  rw [List.take_add, ← List.cons_append] at text
  generalize (r.drop (wordLength r)).take _ = taken at parts text
  generalize r.drop _ = behind at parts ⊢
  cases parts with
  | plain => exact absurd qualified (by decide)
  | base ms base modules ok =>
    left
    refine ⟨(c :: r.take (wordLength r)) :: ms, base, List.cons_ne_nil _ _,
      List.forall_mem_cons.2 ⟨word, modules⟩, ?_, ok⟩
    rw [text]
    simp [modulePrefix]
  | @stray d t ms modules upper noName =>
    right
    refine ⟨kind, ⟨(c :: r.take (wordLength r)) :: ms, List.cons_ne_nil _ _,
      List.forall_mem_cons.2 ⟨word, modules⟩, ?_⟩, d, t, rfl, upper, noName⟩
    rw [text]
    simp [modulePrefix]

theorem not_dangles_of_qualified {l : Lexeme} {name : Name} {behind : List Char}
    (kind : l.kind = .name name) (h : name.Qualified on l.text) : ¬l.Dangles behind := by
  rintro ⟨constructor, ⟨ms, some_module, -, text⟩, -⟩
  obtain rfl := Kind.name.inj (kind.symm.trans constructor)
  have last := getLast?_modulePrefix some_module
  rw [← text] at last
  exact h.getLast?_ne last

end Lexeme

/-- **Qualified names are qualified.** A lexeme of such a kind is one or more
names of modules with a dot behind each, and a base of its kind, just if it
does not dangle. It never does in a text where all that may begin the name of a
module may also stand in one. -/
theorem qualified_names {config : Config} {text : List Char} {l : Lexeme} {name : Name}
    (mem : l ∈ located (Lexer.start config text).trace.items) (kind : l.kind = .name name)
    (qualified : name ∈ Name.qualifiedKinds) :
    ∃ before after, l.Stands text before after ∧
      (name.Qualified config.enabled l.text ↔ ¬l.Dangles after) ∧
      (Name.Regular text → name.Qualified config.enabled l.text) := by
  obtain ⟨before, after, site, c, r, n, stands, on, scanned, taken, rfl⟩ := exists_place mem
  have either := Lexeme.qualified_or_dangles kind qualified scanned taken
  rw [on] at either
  refine ⟨before, r.drop n, stands, ?_, ?_⟩
  · constructor
    · exact Lexeme.not_dangles_of_qualified kind
    · intro whole
      exact either.resolve_right whole
  · intro regular
    apply either.resolve_right
    rintro ⟨-, -, d, t, behind, upper, noName⟩
    have inText : d ∈ text := by
      rw [stands.covers, behind]
      simp
    rw [regular d inText upper] at noName
    cases noName

/-- Two modules and a variable. -/
theorem qualified_names_variable :
    let text := ['f', ' ', 'A', '.', 'B', '_', '.', 'x', '\'']
    let l : Lexeme := ⟨.name .qvarid, ⟨⟨1, 3⟩, ⟨1, 10⟩⟩, ['A', '.', 'B', '_', '.', 'x', '\'']⟩
    l ∈ located (Lexer.start .permissive text).trace.items ∧
      ∃ before after, l.Stands text before after ∧
        (Name.qvarid.Qualified Config.permissive.enabled l.text ↔ ¬l.Dangles after) ∧
        (Name.Regular text → Name.qvarid.Qualified Config.permissive.enabled l.text) := by
  intro text l
  have mem : l ∈ located (Lexer.start .permissive text).trace.items := by decide +kernel
  exact ⟨mem, qualified_names mem rfl (by decide)⟩

/-- A circled capital is upper case and no letter, and leaves the name dangling. -/
theorem dangling_constructor :
    let text := ['A', '.', '\u24b6']
    let l : Lexeme := ⟨.name .qconid, ⟨⟨1, 1⟩, ⟨1, 3⟩⟩, ['A', '.']⟩
    (∃ tokens, lex .permissive text = .ok tokens ∧ l ∈ located tokens) ∧
      ¬Name.qconid.Qualified Config.permissive.enabled l.text := by
  intro text l
  have lexed : (lex .permissive text).toOption.any (fun tokens => l ∈ located tokens) = true := by
    decide +kernel
  constructor
  · cases ok : lex .permissive text with
    | error e =>
      rw [ok] at lexed
      cases lexed
    | ok tokens =>
      rw [ok] at lexed
      exact ⟨tokens, rfl, of_decide_eq_true lexed⟩
  · intro whole
    exact whole.getLast?_ne rfl

end HaskellLexis
