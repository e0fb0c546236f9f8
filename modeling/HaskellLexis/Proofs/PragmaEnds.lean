import HaskellLexis.Proofs.Deliveries
import HaskellLexis.Proofs.Qualified
import HaskellLexis.Proofs.Numbers
import HaskellLexis.Proofs.Strings

/-!
# Hashes that end a pragma

The mark that closes a pragma begins with a hash, and so may be taken for a
hash of the word or literal before it. Names and operators never take any of
it. Literals take hashes up to their limit, whatever is behind them.

* `Lexeme.TakesMark`: the mark begins at one of the last hashes of the lexeme;
* `Spares`: what is taken leaves the mark behind it alone;
* `Name.spares_scan`, `Operator.spares_scan`: names and operators do;
* `mark_iff`: the mark among the hashes that a limit lets through;
* `Literal.Hashing`: the hashes that a literal takes;
* `Lexeme.spares_iff_of_scanned`: what a scanner takes in a pragma;
* `hashes_in_pragmas`: which lexemes of a text take the mark.
-/

namespace HaskellLexis

variable {on : Extensions} {site : Site} {c : Char} {r s t u behind : List Char} {k : Kind}
  {n : Nat}

/-- Among the hashes that the lexeme ends in is one where, with the text behind
the lexeme, the mark that closes a pragma begins. -/
def Lexeme.TakesMark (l : Lexeme) (behind : List Char) : Prop :=
  ∃ front n, l.text = front ++ '#' :: List.replicate n '#' ∧
    closePragmaMark <+: '#' :: (List.replicate n '#' ++ behind)

/-- The number of hashes that the lexeme ends in. -/
def Lexeme.hashes (l : Lexeme) : Nat := runLength (· = '#') l.text.reverse

def Kind.isLiteral : Kind → Bool
  | .literal _ => true
  | _ => false

theorem Kind.isLiteral_of_isSymbolRun (h : k.isSymbolRun = true) : k.isLiteral = false := by
  cases k with
  | literal => cases h
  | _ => rfl

theorem Kind.exists_of_isLiteral (h : k.isLiteral = true) : ∃ l, k = .literal l := by
  cases k with
  | literal l => exact ⟨l, rfl⟩
  | _ => cases h

/-- The most hashes that a literal takes: two behind a number, and one else. -/
def Literal.hashLimit : Literal → Nat
  | .char | .primChar | .string | .primString => 1
  | _ => 2

/-- No hash at the end of `taken` is that of the mark. -/
def Spares (taken behind : List Char) : Prop :=
  ['-', '}'] <+: behind → taken.getLast? ≠ some '#'

/-- The mark has one hash, so it is the last one. -/
theorem takesMark_iff {l : Lexeme} : l.TakesMark behind ↔ ¬Spares l.text behind := by
  unfold Spares
  rw [Classical.not_imp, not_not]
  constructor
  · rintro ⟨front, n, text, mark⟩
    obtain ⟨-, dash⟩ := List.cons_prefix_cons.1 mark
    cases n with
    | zero =>
      rw [text]
      exact ⟨dash, getLast?_behind rfl front⟩
    | succ n =>
      rw [List.replicate_succ] at dash
      cases (List.cons_prefix_cons.1 dash).1
  · rintro ⟨mark, last⟩
    obtain ⟨front, text⟩ := List.getLast?_eq_some_iff.1 last
    exact ⟨front, 0, text, List.cons_prefix_cons.2 ⟨rfl, mark⟩⟩

namespace Spares

theorem nil (behind : List Char) : Spares [] behind := fun _ => nofun

theorem of_bare (bare : t.getLast? ≠ some '#') : Spares t behind := fun _ => bare

/-- A dash would belong to a run of symbols. -/
theorem of_stop (stop : behind.head?.any isSymbol = false) : Spares t behind := by
  rintro ⟨more, rfl⟩
  cases stop

theorem append (h : Spares t behind) (bare : u.getLast? ≠ some '#') : Spares (u ++ t) behind := by
  intro mark last
  rw [List.getLast?_append] at last
  cases inner : t.getLast? with
  | none =>
    rw [inner] at last
    exact bare last
  | some d =>
    rw [inner] at last
    exact h mark (inner.trans last)

end Spares

theorem bare_of_word (first : c ≠ '#') (word : ∀ d ∈ t, isNameChar d = true) :
    (c :: t).getLast? ≠ some '#' := by
  intro last
  obtain hash | mem := List.mem_cons.1 (List.mem_of_getLast? last)
  · exact first hash.symm
  · exact absurd (word '#' mem) (by decide)

theorem bare_append (more : t ≠ []) (bare : t.getLast? ≠ some '#') (u : List Char) :
    (u ++ t).getLast? ≠ some '#' := by
  rwa [List.getLast?_append, List.getLast?_eq_some_getLast more, Option.some_or,
    ← List.getLast?_eq_some_getLast more]

theorem isNameChar_of_mem_word {d : Char} (mem : d ∈ s.take (wordLength s)) :
    isNameChar d = true := by
  rw [wordLength, take_runLength] at mem
  exact List.mem_takeWhile_imp mem

theorem bare_word (first : c ≠ '#') (s : List Char) :
    (c :: s.take (wordLength s)).getLast? ≠ some '#' :=
  bare_of_word first fun _ => isNameChar_of_mem_word

/-! ## Names -/

namespace Name

theorem spares_hashRun (s : List Char) :
    Spares (s.take (hashRun true s)) (s.drop (hashRun true s)) := by
  fun_induction hashRun true s with
  | case1 | case3 => exact .nil _
  | case2 r noMark ih =>
    rw [List.take_succ_cons, List.drop_succ_cons]
    cases size : hashRun true r with
    | zero =>
      intro mark
      exact absurd (List.isPrefixOf_iff_prefix.2 mark) (by simpa using noMark)
    | succ m =>
      rw [size] at ih
      intro mark last
      apply ih mark
      have some : r.take (m + 1) ≠ [] := by
        have inside := hashRun_le true r
        rw [size] at inside
        rw [Ne, List.take_eq_nil_iff]
        rintro (none | rfl)
        · cases none
        · cases inside
      obtain ⟨d, t, more⟩ := List.exists_cons_of_ne_nil some
      rwa [more, List.getLast?_cons_cons, ← more] at last

variable (inside : site.inPragma = true)
include inside

theorem spares_hashes (s : List Char) :
    Spares (s.take (hashLength site s)) (s.drop (hashLength site s)) := by
  unfold hashLength
  split
  · rw [inside]
    exact spares_hashRun s
  · exact .nil _

theorem spares_hashedWord (first : c ≠ '#') (s : List Char) :
    Spares (c :: s.take (hashedWordLength site s)) (s.drop (hashedWordLength site s)) := by
  unfold hashedWordLength
  dsimp only
  rw [List.take_add, ← List.drop_drop, ← List.cons_append]
  exact (spares_hashes inside _).append (bare_word first s)

/-- Along a qualified name, by its parts. -/
theorem spares_qualified (q : Bool) (s : List Char) :
    Spares (s.take (scanQualified site q s).2) (s.drop (scanQualified site q s).2) := by
  induction s using qualified_induction generalizing q with
  | dot d r ih =>
    rw [scanQualified_dot]
    dsimp only
    split
    · rw [Nat.add_assoc, Nat.add_comm 1, List.take_succ_cons, List.drop_succ_cons, List.take_add,
        ← List.drop_drop, ← List.cons_append]
      exact (ih true).append (bare_word (by decide) _)
    · split
      · split
        · exact .nil _
        · rw [Nat.add_comm 1, List.take_succ_cons, List.drop_succ_cons]
          exact spares_hashedWord inside (by decide) _
      · split
        · split
          · exact .nil _
          · apply Spares.of_stop
            rw [Nat.add_comm 1, List.drop_succ_cons]
            exact stops_drop_runLength isSymbol (d :: r)
        · exact .nil _
  | other s other =>
    rw [scanQualified_of_ne site q other]
    exact spares_hashes inside s

theorem spares_scan (starts : startsName c = true) (r : List Char) :
    Spares (c :: r.take (scan site c r).2) (r.drop (scan site c r).2) := by
  have first : c ≠ '#' := ne_of_apart starts (by decide)
  unfold scan
  split
  · unfold scanUpper
    dsimp only
    rw [List.take_add, ← List.drop_drop, ← List.cons_append]
    exact (spares_qualified inside false _).append (bare_word first r)
  · obtain same | ⟨w, same⟩ | same := scanLower_cases site c r
    all_goals
      rw [same]
      exact spares_hashedWord inside first r

end Name

/-! ## Operators -/

namespace Operator

/-- A mark on a name ends with the name, or in a bracket. -/
theorem spares_mark {run : List Char} (h : mark? on run s = some (k, n)) :
    k.isLiteral = false ∧ (u ++ s.take n).getLast? ≠ some '#' := by
  have word (lower : s.head?.any startsLower = true) :
      (u ++ s.take (wordLength s)).getLast? ≠ some '#' := by
    cases s with
    | nil => cases lower
    | cons d t =>
      have inner := Name.isNameChar_of_startsLower lower
      have first : d ≠ '#' := ne_of_apart inner (by decide)
      rw [wordLength_cons inner, List.take_succ_cons]
      exact bare_append (List.cons_ne_nil _ _) (bare_word first t) u
  unfold mark? at h
  split at h
  · unfold scanSplice at h
    split at h
    · cases h
      rw [List.take_succ_cons, List.take_zero, List.getLast?_concat]
      exact ⟨rfl, by decide⟩
    · split at h <;> cases h
      rename_i lower
      exact ⟨rfl, word lower⟩
    · cases h
  · dsimp only at h
    split at h
    · cases h
    · rename_i lower
      have lower : s.head?.any startsLower = true := by simpa using lower
      split at h
      · cases h
        exact ⟨rfl, word lower⟩
      · split at h
        · cases h
          exact ⟨rfl, word lower⟩
        · split at h <;> cases h
          exact ⟨rfl, word lower⟩

/-- A bracket that an operator may be ends in its own last character. -/
theorem spares_closer (h : closer? on (c :: r) = some (k, n)) :
    k.isLiteral = false ∧ (c :: r.take (n - 1)).getLast? ≠ some '#' := by
  obtain ⟨row, listed, same⟩ := Option.map_eq_some_iff.1 h
  cases same
  have table : ∀ p ∈ closers, p.1 ≠ [] ∧ p.1.getLast? ≠ some '#' ∧ p.2.1.isLiteral = false := by
    decide
  obtain ⟨some, bare, kind⟩ := table row (List.mem_of_find?_eq_some listed)
  have found := List.find?_some listed
  have front := List.isPrefixOf_iff_prefix.1 (Bool.and_eq_true_iff.1 found).1
  have taken := List.prefix_iff_eq_take.1 front
  have size : row.1.length = row.1.length - 1 + 1 := by
    have := List.length_pos_iff.2 some
    omega
  rw [size, List.take_succ_cons] at taken
  rw [taken] at bare
  exact ⟨kind, bare⟩

/-- An operator is never a literal, and that is proved along with its end. -/
theorem spares_scan (site : Site) (c : Char) (r : List Char) :
    (scan site c r).1.isLiteral = false ∧
      Spares (c :: r.take (scan site c r).2) (r.drop (scan site c r).2) := by
  cases closer : closer? site.on (c :: r) with
  | some found =>
    obtain ⟨kind, bare⟩ := spares_closer closer
    simp only [scan, closer]
    exact ⟨kind, .of_bare bare⟩
  | none =>
    simp only [scan, closer]
    split
    · rename_i k n mark
      rw [List.take_add, ← List.cons_append]
      obtain ⟨kind, bare⟩ := spares_mark mark
      exact ⟨kind, .of_bare bare⟩
    · refine ⟨?_, .of_stop (stops_drop_runLength isSymbol r)⟩
      have run := ofRun_isSymbolRun site (c :: r.takeWhile isSymbol)
        (r.drop (r.takeWhile isSymbol).length)
      exact Kind.isLiteral_of_isSymbolRun run

end Operator

/-! ## Literals -/

/-- Of `limit` characters the hashes are taken that come first. The last of them
is that of the mark if fewer stand before the mark. By induction on the limit,
one hash at a time. -/
theorem mark_iff (limit : Nat) (s : List Char) :
    (runLength (· = '#') (s.take limit) ≠ 0 ∧
        ['-', '}'] <+: s.drop (runLength (· = '#') (s.take limit))) ↔
      ∃ m < limit, List.replicate m '#' ++ closePragmaMark <+: s := by
  induction limit generalizing s with
  | zero => simp [runLength]
  | succ limit ih =>
    cases s with
    | nil => simp [runLength, closePragmaMark]
    | cons c r =>
      by_cases hash : c = '#'
      · subst hash
        have size : runLength (· = '#') (('#' :: r).take (limit + 1)) =
            runLength (· = '#') (r.take limit) + 1 := by simp [runLength]
        have first : (∃ m < limit + 1, List.replicate m '#' ++ closePragmaMark <+: '#' :: r) ↔
            ['-', '}'] <+: r ∨ ∃ m < limit, List.replicate m '#' ++ closePragmaMark <+: r := by
          constructor
          · rintro ⟨m, bound, front⟩
            cases m with
            | zero => exact .inl (List.cons_prefix_cons.1 front).2
            | succ m => exact .inr ⟨m, by omega, (List.cons_prefix_cons.1 front).2⟩
          · rintro (mark | ⟨m, bound, front⟩)
            · exact ⟨0, by omega, List.cons_prefix_cons.2 ⟨rfl, mark⟩⟩
            · exact ⟨m + 1, by omega, List.cons_prefix_cons.2 ⟨rfl, front⟩⟩
        rw [size, first, ← ih, List.drop_succ_cons]
        by_cases last : runLength (· = '#') (r.take limit) = 0
        · simp [last]
        · -- the mark cannot begin at another hash
          have noMark : ¬['-', '}'] <+: r := by
            rintro ⟨t, rfl⟩
            apply last
            cases limit <;> rfl
          simp [last, noMark]
      · have none : runLength (· = '#') ((c :: r).take (limit + 1)) = 0 := by
          simp [runLength, hash]
        apply iff_of_false
        · exact fun h => h.1 none
        · rintro ⟨m, -, front⟩
          cases m with
          | zero => exact hash (List.cons_prefix_cons.1 front).1.symm
          | succ m => exact hash (List.cons_prefix_cons.1 front).1.symm

namespace Literal

/-- The number of hashes that a literal takes of the text behind it. -/
def hashCount (on : Extensions) (k : Literal) (s : List Char) : Nat :=
  if on .magicHash then runLength (· = '#') (s.take k.hashLimit) else 0

/-- The literal is the first `n` characters of `s`: a part that does not end in
a hash, and the hashes that it takes behind that. -/
def Hashing (on : Extensions) (k : Literal) (s : List Char) (n : Nat) : Prop :=
  ∃ m, (s.take m).getLast? ≠ some '#' ∧ n = m + k.hashCount on (s.drop m)

variable {l : Literal}

theorem Hashing.cons (h : Hashing on l s n) (first : c ≠ '#') : Hashing on l (c :: s) (n + 1) := by
  obtain ⟨m, bare, rfl⟩ := h
  refine ⟨m + 1, ?_, ?_⟩
  · rw [List.take_succ_cons, List.getLast?_cons]
    cases last : (s.take m).getLast? with
    | none => exact fun same => first (Option.some.inj same)
    | some d =>
      rw [last] at bare
      exact bare
  · rw [List.drop_succ_cons, Nat.add_right_comm]

theorem hashCount_number (rational : Bool) (h : Nat) (s : List Char) :
    (Number.kind rational h).hashCount on s = Number.hashCount on s := by
  have limit : (Number.kind rational h).hashLimit = 2 := by
    unfold Number.kind
    split <;> rfl
  rw [hashCount, limit, Number.hashCount]

theorem hashing_number (on : Extensions) (digit : isDigit c = true) (r : List Char) :
    Hashing on (Number.scan on c r).1 (c :: r) ((Number.scan on c r).2 + 1) := by
  obtain ⟨-, body⟩ := Number.longest_body on digit r
  refine ⟨(Number.body on c r).2 + 1, ?_, ?_⟩
  · intro last
    exact body.no_hash (List.mem_of_getLast? last)
  · rw [List.drop_succ_cons, Nat.add_right_comm]
    exact congrArg (_ + · + 1) (hashCount_number _ _ _).symm

theorem hashCount_single (single : l.hashLimit = 1) (s : List Char) :
    l.hashCount on s = if hashed on s then 1 else 0 := by
  unfold hashCount hashed
  rw [single]
  cases s with
  | nil => simp [runLength]
  | cons d t =>
    by_cases hash : d = '#' <;> cases on .magicHash <;> simp [runLength, hash]

theorem Closed.getLast? (h : Closed t) : t.getLast? = some '"' := by
  induction h with
  | close => rfl
  | plain _ _ ih => exact getLast?_behind ih [_]
  | escape _ _ ih => exact getLast?_behind ih ('\\' :: _)

theorem hashing_string (h : scanString on r = .ok (.literal l, n)) :
    Hashing on l ('"' :: r) (n + 1) := by
  obtain ⟨⟨t, ⟨closed, front⟩, found⟩, -⟩ := completes_of_scanString h
  have bare : ('"' :: r.take t.length).getLast? ≠ some '#' := by
    rw [← List.prefix_iff_eq_take.1 front]
    have last := getLast?_behind closed.getLast? ['"']
    rw [List.singleton_append] at last
    rw [last]
    decide
  refine ⟨t.length + 1, bare, ?_⟩
  rw [List.drop_succ_cons]
  split at found
  · rename_i hash
    cases found
    rw [hashCount_single rfl, if_pos hash]
  · rename_i noHash
    cases found
    rw [hashCount_single rfl, if_neg noHash]

theorem hashing_quote (h : scanQuote on r = .ok (.literal l, n)) :
    Hashing on l ('\'' :: r) (n + 1) := by
  obtain ⟨m, -, found⟩ := ok_of_bind h
  split at found
  · exact absurd found quotedName_ne_literal
  · rename_i j
    split at found
    · rename_i closes
      have bare : ('\'' :: r.take (j + 1)).getLast? ≠ some '#' := by
        rw [List.head?_drop] at closes
        rw [List.take_add_one, closes, ← List.cons_append, Option.toList_some, List.getLast?_concat]
        decide
      refine ⟨j + 2, bare, ?_⟩
      rw [List.drop_succ_cons]
      split at found
      · cases found
      · split at found
        · rename_i hash
          cases found
          rw [hashCount_single rfl, if_pos hash]
        · rename_i noHash
          cases found
          rw [hashCount_single rfl, if_neg noHash]
    · exact absurd found quotedName_ne_literal

theorem runLength_reverse (bare : t.getLast? ≠ some '#') (h : Nat) :
    runLength (· = '#') (t ++ List.replicate h '#').reverse = h := by
  have none : t.reverse.takeWhile (· = '#') = [] := by
    cases back : t.reverse with
    | nil => rfl
    | cons d u =>
      have last : t.getLast? = some d := by rw [← List.head?_reverse, back, List.head?_cons]
      rw [List.takeWhile_cons_of_neg]
      rintro hash
      rw [last, of_decide_eq_true hash] at bare
      exact bare rfl
  rw [List.reverse_append, List.reverse_replicate, runLength,
    List.takeWhile_append_of_pos (Number.hash_of_mem_replicate h), none, List.append_nil,
    List.length_replicate]

theorem getLast?_hashes (bare : t.getLast? ≠ some '#') (h : Nat) :
    (t ++ List.replicate h '#').getLast? = some '#' ↔ h ≠ 0 := by
  cases h with
  | zero => simpa using bare
  | succ h => simp [List.replicate_succ']

/-- Of the hashes that a literal takes the last one may be that of the mark. -/
theorem Hashing.spares_iff (h : Hashing on l s n) :
    ¬Spares (s.take n) (s.drop n) ↔ on .magicHash = true ∧
      ∃ m < l.hashLimit, List.replicate m '#' ++ closePragmaMark <+:
        List.replicate (runLength (· = '#') (s.take n).reverse) '#' ++ s.drop n := by
  obtain ⟨m, bare, rfl⟩ := h
  have hashes : (s.drop m).take (l.hashCount on (s.drop m)) =
      List.replicate (l.hashCount on (s.drop m)) '#' := by
    unfold hashCount
    split
    · exact Number.take_hashes _ _
    · rfl
  rw [List.take_add, hashes, runLength_reverse bare, ← List.drop_drop, ← hashes,
    List.take_append_drop, hashes, Spares, Classical.not_imp, not_not, getLast?_hashes bare,
    and_comm, hashCount]
  split
  · rename_i magic
    rw [mark_iff, and_iff_right magic]
  · rename_i noMagic
    exact iff_of_false (fun taken => taken.1 rfl) fun magic => noMagic magic.1

end Literal

/-! ## All lexemes -/

theorem Bracket.scan_noLiteral {p : Punctuation} (h : scan on c p r = .ok (k, n)) :
    k.isLiteral = false := by
  unfold scan at h
  split at h
  · have kind : (scanRound on r).1 = k := congrArg Prod.fst (Except.ok.inj h)
    rw [← kind]
    simp only [scanRound]
    split
    · rfl
    · split <;> rfl
  · split at h
    · simp only [scanSquare] at h
      split at h
      · cases h
        rfl
      · split at h
        · obtain ⟨q, -, same⟩ := ok_of_map h
          cases same
          rfl
        · split at h <;> cases h <;> rfl
    · cases h
      rfl

theorem Name.scan_noLiteral (site : Site) (c : Char) (r : List Char) :
    (scan site c r).1.isLiteral = false := by
  unfold scan
  split
  · rfl
  · obtain same | ⟨w, same⟩ | same := scanLower_cases site c r
    all_goals
      rw [same]
      rfl

namespace Lexeme

/-- Literals come from their own scanners only. -/
theorem hashing_of_scanned {l : Literal} (h : Scanned site c r k n) (literal : k = .literal l) :
    l.Hashing site.on (c :: r) (n + 1) := by
  have other (no : k.isLiteral = false) : False := by
    rw [literal] at no
    cases no
  cases h with
  | braceDash opens ok =>
    have braced := scanBraceDash_braced ok
    rw [literal] at braced
    cases braced
  | bracket special single ok => exact (other (Bracket.scan_noLiteral ok)).elim
  | string double ok =>
    rw [literal] at ok
    rw [double]
    exact Literal.hashing_string ok
  | quote single ok =>
    rw [literal] at ok
    rw [single]
    exact Literal.hashing_quote ok
  | number digit =>
    cases literal
    exact Literal.hashing_number site.on digit r
  | name => exact (other (Name.scan_noLiteral site c r)).elim
  | negative sign =>
    simp only [isNegative, Bool.and_eq_true, decide_eq_true_eq] at sign
    obtain ⟨⟨⟨rfl, digit⟩, -⟩, -⟩ := sign
    cases r with
    | nil => cases digit
    | cons d s =>
      cases literal
      exact (Literal.hashing_number site.on digit s).cons (by decide)
  | operator => exact (other (Operator.spares_scan site c r).1).elim
  | lineComment | closePragma | unknown => cases literal

theorem spares_of_scanned (h : Scanned site c r k n) (inside : site.inPragma = true)
    (run : k.isRun = true) : Spares (c :: r.take n) (r.drop n) := by
  obtain ⟨starts, found⟩ | ⟨-, found⟩ := run_of_scanned h run
  all_goals obtain ⟨-, rfl⟩ := Prod.mk.inj found
  · exact Name.spares_scan inside starts r
  · exact (Operator.spares_scan site c r).2

/-- What is scanned in a pragma takes the mark only if it is a literal that may
have so many hashes. -/
theorem spares_iff_of_scanned (h : Scanned site c r k n) (inside : site.inPragma = true)
    (kind : k.isRun = true ∨ k.isLiteral = true) :
    ¬Spares (c :: r.take n) (r.drop n) ↔
      ∃ l, k = .literal l ∧ site.on .magicHash = true ∧ ∃ m < l.hashLimit,
        List.replicate m '#' ++ closePragmaMark <+:
          List.replicate (runLength (· = '#') (c :: r.take n).reverse) '#' ++ r.drop n := by
  obtain word | literal := kind
  · apply iff_of_false (not_not.2 (spares_of_scanned h inside word))
    rintro ⟨l, rfl, -⟩
    cases word
  · obtain ⟨l, rfl⟩ := Kind.exists_of_isLiteral literal
    have taken := (hashing_of_scanned h rfl).spares_iff
    rw [List.take_succ_cons, List.drop_succ_cons] at taken
    rw [taken]
    constructor
    · rintro ⟨magic, front⟩
      exact ⟨l, rfl, magic, front⟩
    · rintro ⟨l', same, magic, front⟩
      cases same
      exact ⟨magic, front⟩

end Lexeme

open Lexer in
/-- **Hashes and the end of a pragma.** No word and no operator in an open pragma
takes a hash with which, where it stands, the mark that closes a pragma begins.
A literal takes it just if hashes are on and fewer of them stand before the mark
than the literal may have. This is so for all that is delivered, be it before a
failure. -/
theorem hashes_in_pragmas {config : Config} {text : List Char} {before after : List Token}
    {T : Lexeme} (h : (start config text).trace.items = before ++ .lexeme T :: after)
    (inside : insidePragma before = true)
    (kind : T.kind.isRun = true ∨ T.kind.isLiteral = true) :
    ∃ u v, T.Stands text u v ∧ (T.TakesMark v ↔
      ∃ k, T.kind = .literal k ∧ config.enabled .magicHash = true ∧ ∃ m < k.hashLimit,
        List.replicate m '#' ++ closePragmaMark <+: List.replicate T.hashes '#' ++ v) := by
  have inner : T.kind ≠ .endOfText := by
    intro ends
    rw [ends] at kind
    obtain none | none := kind <;> cases none
  obtain ⟨ls, out, x, more, y, p, run, step, rfl, -, -⟩ := step_of_items h inner
  rw [insidePragma_of_run run] at inside
  obtain ⟨u, stands⟩ := stands_of_step run step
  obtain ⟨gap, c, r, n, -, -, scanned, taken, left, -⟩ := parts_of_step step
  have on : x.skipBlanks.site.on = config.enabled := congrArg Config.enabled (config_of_run run)
  have found := Lexeme.spares_iff_of_scanned (Lexeme.scanned_of_scan scanned) inside kind
  rw [← taken, ← left, on] at found
  exact ⟨u, y.rest, stands, takesMark_iff.trans found⟩

/-- The number takes the hash of the mark, and the pragma is never closed. -/
theorem hashes_in_pragmas_number :
    let text := ['{', '-', '#', 'A', 'N', 'N', ' ', '1', '#', '-', '}']
    let word (k : Kind) (start stop : Int) (text : List Char) : Token :=
      .lexeme ⟨k, ⟨⟨1, start⟩, ⟨1, stop⟩⟩, text⟩
    let opener := word (.openPragma .ann) 1 7 ['{', '-', '#', 'A', 'N', 'N']
    let T : Lexeme := ⟨.literal .primInt, ⟨⟨1, 8⟩, ⟨1, 10⟩⟩, ['1', '#']⟩
    let after := [word (.operator .minus) 10 11 ['-'], word (.punctuation .closeBrace) 11 12 ['}']]
    (Lexer.start .permissive text).trace.items = [opener] ++ .lexeme T :: after ∧
      insidePragma [opener] = true ∧ T.kind.isLiteral = true ∧ T.TakesMark ['-', '}'] := by
  intro text word opener T after
  have items : (Lexer.start .permissive text).trace.items = [opener] ++ .lexeme T :: after := by
    decide +kernel
  obtain ⟨u, v, stands, iff⟩ := hashes_in_pragmas items rfl (.inr rfl)
  have here : T.Stands text ['{', '-', '#', 'A', 'N', 'N', ' '] ['-', '}'] := by
    constructor <;> decide
  obtain ⟨-, rfl⟩ := here.unique stands
  refine ⟨items, rfl, rfl, iff.2 ⟨.primInt, rfl, rfl, 0, by decide, ?_⟩⟩
  decide

end HaskellLexis
