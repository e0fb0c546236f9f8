import Mathlib.Data.List.Find
import Mathlib.Data.List.TakeWhile
import HaskellLexis.Proofs.Lengths

/-!
# What ends a lexeme

A scanner that looks ahead sees the same before a line feed, before blanks and
before a comment as at the end of the text: none of them goes on a word, an
operator, a number or a mark. So what is found in a text stays there when one of
them, and more text, is put behind it.

* `Breaks`: what may be put behind;
* `Settled`: dashes are symbols too, so before them a run of symbols has to be
  over;
* `…_break`: one of the scanners, with a break behind its text.
-/

namespace HaskellLexis

/-- A line feed, blanks, or the mark that opens a comment, and any text behind
it. One blank is not enough, for it might be a character between quotes. -/
inductive Breaks : List Char → Prop where
  | feed (t : List Char) : Breaks ('\n' :: t)
  | blanks (t : List Char) : Breaks (' ' :: ' ' :: t)
  | brace (t : List Char) : Breaks ('{' :: '-' :: t)
  | dashes (t : List Char) : Breaks ('-' :: '-' :: t)

variable {on : Extensions} {site : Site} {c : Char} {r s v : List Char} {k : Kind} {m n : Nat}
  {p : Char → Bool}

namespace Breaks

/-- The characters that a break begins with. -/
def fronts : List Char := ['\n', ' ', '{', '-']

theorem head?_mem (b : Breaks v) : ∃ d ∈ fronts, v.head? = some d := by
  cases b with
  | feed t => exact ⟨'\n', by decide, rfl⟩
  | blanks t => exact ⟨' ', by decide, rfl⟩
  | brace t => exact ⟨'{', by decide, rfl⟩
  | dashes t => exact ⟨'-', by decide, rfl⟩

theorem stops (b : Breaks v) (h : fronts.any p = false) : v.head?.any p = false := by
  obtain ⟨d, mem, head⟩ := b.head?_mem
  rw [head, Option.any_some, Bool.eq_false_iff]
  exact List.any_eq_false.1 h d mem

theorem head?_ne {d : Char} (b : Breaks v) (h : d ∉ fronts) : v.head? ≠ some d := by
  obtain ⟨e, mem, head⟩ := b.head?_mem
  rintro same
  rw [head] at same
  cases same
  exact h mem

end Breaks

/-- Behind a run of characters stands none of their class. -/
theorem stops_dropWhile (p : Char → Bool) (s : List Char) :
    (s.dropWhile p).head?.any p = false := by
  have head := List.head?_dropWhile_not p s
  cases front : (s.dropWhile p).head? with
  | none => rfl
  | some d =>
    rw [front] at head
    exact head

theorem stops_drop_runLength (p : Char → Bool) (s : List Char) :
    (s.drop (runLength p s)).head?.any p = false := by
  rw [drop_runLength]
  exact stops_dropWhile p s

/-! ## Texts put behind one another -/

theorem takeWhile_append_of_stops (stops : v.head?.any p = false) :
    (s ++ v).takeWhile p = s.takeWhile p := by
  have none : v.takeWhile p = [] := by
    cases v with
    | nil => rfl
    | cons d v => exact List.takeWhile_cons_of_neg (by simpa using stops)
  rw [List.takeWhile_append, none, List.append_nil]
  split
  · rename_i all
    exact ((List.takeWhile_prefix p).eq_of_length all).symm
  · rfl

theorem runLength_append_of_stops (stops : v.head?.any p = false) :
    runLength p (s ++ v) = runLength p s :=
  congrArg List.length (takeWhile_append_of_stops stops)

/-- A character that stands in the text stops a run there. -/
theorem takeWhile_append_of_stop (stop : ∃ d ∈ s, p d = false) :
    (s ++ v).takeWhile p = s.takeWhile p := by
  rw [List.takeWhile_append, if_neg]
  intro all
  obtain ⟨d, mem, stops⟩ := stop
  rw [← (List.takeWhile_prefix p).eq_of_length all] at mem
  rw [List.mem_takeWhile_imp mem] at stops
  cases stops

/-- A run that ends in the text does not reach what is behind it. -/
theorem takeWhile_append_of_le (h : runLength p (s ++ v) ≤ s.length) :
    (s ++ v).takeWhile p = s.takeWhile p := by
  rw [runLength, List.takeWhile_append] at h
  rw [List.takeWhile_append]
  split at h
  · rename_i all
    have none : v.takeWhile p = [] := by
      rw [List.length_append] at h
      exact List.length_eq_zero_iff.1 (by omega)
    rw [if_pos all, none, List.append_nil]
    exact ((List.takeWhile_prefix p).eq_of_length all).symm
  · rename_i short
    rw [if_neg short]

theorem head?_any_append (stops : v.head?.any p = false) :
    (s ++ v).head?.any p = s.head?.any p := by
  cases s with
  | nil => exact stops
  | cons => rfl

theorem head?_append_iff {d : Char} (h : v.head? ≠ some d) :
    (s ++ v).head? = some d ↔ s.head? = some d := by
  cases s with
  | nil => exact iff_of_false h nofun
  | cons => rfl

theorem isPrefixOf_append {pat : List Char} (h : ∀ d ∈ pat, v.head? ≠ some d) :
    pat.isPrefixOf (s ++ v) = pat.isPrefixOf s := by
  induction pat generalizing s with
  | nil => cases s <;> rfl
  | cons d pat ih =>
    obtain ⟨first, later⟩ := List.forall_mem_cons.1 h
    cases s with
    | nil =>
      cases v with
      | nil => rfl
      | cons e v =>
        have ne : d ≠ e := fun same => first (congrArg some same.symm)
        simp [List.isPrefixOf, ne]
    | cons c s => simp [List.isPrefixOf, ih later]

theorem Breaks.isPrefixOf {pat : List Char} (b : Breaks v)
    (h : pat.all (!fronts.contains ·) = true) : pat.isPrefixOf (s ++ v) = pat.isPrefixOf s := by
  apply isPrefixOf_append
  intro d hd
  apply b.head?_ne
  simpa using List.all_eq_true.1 h d hd

theorem isPrefixOf_append_of_length {pat : List Char} (h : pat.length ≤ s.length) (v : List Char) :
    pat.isPrefixOf (s ++ v) = pat.isPrefixOf s := by
  rw [Bool.eq_iff_iff, List.isPrefixOf_iff_prefix, List.isPrefixOf_iff_prefix]
  constructor
  · intro front
    exact List.prefix_of_prefix_length_le front (List.prefix_append s v) h
  · intro front
    exact front.trans (List.prefix_append s v)

/-- What is found in a text is found with any other text behind it. -/
theorem offsetOf?_before {pat : List Char} (found : offsetOf? pat s = some n) (v : List Char) :
    offsetOf? pat (s ++ v) = some n := by
  have size := offsetOf?_le found
  induction s generalizing n with
  | nil => cases found
  | cons c r ih =>
    have whole : pat.isPrefixOf (c :: r ++ v) = pat.isPrefixOf (c :: r) :=
      isPrefixOf_append_of_length (by omega) v
    simp only [offsetOf?] at found
    rw [List.cons_append, offsetOf?, ← List.cons_append, whole]
    split at found
    · rename_i here
      rw [if_pos here, found]
    · rename_i there
      obtain ⟨m, later, rfl⟩ := Option.map_eq_some_iff.1 found
      rw [if_neg there, ih later (offsetOf?_le later)]
      rfl

/-! ## Runs of symbols -/

/-- Of the first `n` characters of `s`, a scanner takes all. What is left of
`s` keeps symbols at the front of `v` from going on with them. -/
def Settled (n : Nat) (s v : List Char) : Prop :=
  v.head?.any isSymbol = true →
    n ≤ s.length ∧ (s.drop n = [] ∨ ∃ d ∈ s.drop n, isSymbol d = false)

theorem settled_of_stops (stops : v.head?.any isSymbol = false) : Settled n s v := by
  intro symbol
  rw [stops] at symbol
  cases symbol

/-- A run that the scanner takes all of is over before `v`. -/
theorem Settled.run (h : Settled n s v) (reach : runLength isSymbol (s ++ v) ≤ n) :
    (s ++ v).takeWhile isSymbol = s.takeWhile isSymbol := by
  cases symbol : v.head?.any isSymbol with
  | false => exact takeWhile_append_of_stops symbol
  | true => exact takeWhile_append_of_le (Nat.le_trans reach (h symbol).1)

theorem Settled.drop (h : Settled (m + n) s v) : Settled n (s.drop m) v := by
  intro symbol
  obtain ⟨inside, rest⟩ := h symbol
  rw [List.length_drop, List.drop_drop]
  exact ⟨by omega, rest⟩

/-- A run that begins behind a symbol is over before `v`, if the scanner takes
all of it with that symbol, or nothing. -/
theorem Settled.run_behind (h : Settled n (c :: s) v) (symbol : isSymbol c = true)
    (size : n = 0 ∨ n = 1 + runLength isSymbol (s ++ v)) :
    (s ++ v).takeWhile isSymbol = s.takeWhile isSymbol := by
  obtain rfl | rfl := size
  · cases more : v.head?.any isSymbol with
    | false => exact takeWhile_append_of_stops more
    | true =>
      obtain ⟨-, none | ⟨d, mem, stop⟩⟩ := h more
      · cases none
      apply takeWhile_append_of_stop
      obtain rfl | mem := List.mem_cons.1 mem
      · rw [symbol] at stop
        cases stop
      · exact ⟨d, mem, stop⟩
  · exact Settled.run (Settled.drop h) (Nat.le_refl _)

/-! ## Pragmas -/

theorem wordLength_break (b : Breaks v) : wordLength (s ++ v) = wordLength s :=
  runLength_append_of_stops (b.stops (by decide))

namespace Pragma

/-- The blanks before the word of a pragma may go on, so the word is only safe
if something stands there. -/
theorem word_break (b : Breaks v) (solid : ∃ d ∈ s, isBlank d = false) :
    word (s ++ v) = word s := by
  have blanks : runLength isBlank (s ++ v) = runLength isBlank s :=
    congrArg List.length (takeWhile_append_of_stop solid)
  simp only [word]
  rw [blanks, List.drop_append_of_le_length (runLength_le isBlank s),
    takeWhile_append_of_stops (b.stops (by decide))]

/-- A pragma that has its closing mark does not look at what is behind it. -/
theorem scanWhole_before {kind : Kind} (h : scanWhole kind s = .ok (k, n)) (v : List Char) :
    scanWhole kind (s ++ v) = .ok (k, n) := by
  simp only [scanWhole] at h ⊢
  split at h
  · rename_i m closes
    rw [offsetOf?_before closes]
    exact h
  · cases h

end Pragma

/-! ## Brackets -/

namespace Quotation

theorem quoter?_cons (q : Bool) (c : Char) (r : List Char) :
    quoter? q (c :: r) =
      let after := (c :: r).drop (wordLength (c :: r))
      if startsUpper c then
        if after.head? = some '.' then
          (quoter? true after.tail).map (fun p => (p.1, wordLength (c :: r) + 1 + p.2))
        else none
      else if startsLower c then
        if after.head? = some '|' then some (q, wordLength (c :: r) + 1) else none
      else none := by
  rw [quoter?]
  by_cases upper : startsUpper c = true
  · simp only [if_pos upper]
    split
    · rename_i t dot
      rw [dot]
      rfl
    · rename_i noDot
      rw [if_neg]
      intro dot
      obtain ⟨t, ht⟩ := List.head?_eq_some_iff.1 dot
      exact noDot t ht
  · simp only [if_neg upper]

/-- The search for the name of a quoter starts again behind each dot. -/
theorem quoter_induction {P : List Char → Prop} (nil : P [])
    (cons : ∀ c r, (∀ u, (c :: r).drop (wordLength (c :: r)) = '.' :: u → P u) → P (c :: r))
    (s : List Char) : P s := by
  generalize hn : s.length = n
  induction n using Nat.strongRecOn generalizing s with
  | ind n ih =>
    cases s with
    | nil => exact nil
    | cons c r =>
      apply cons
      intro u behind
      have shorter := congrArg List.length behind
      rw [List.length_drop, List.length_cons, List.length_cons] at shorter
      rw [List.length_cons] at hn
      exact ih u.length (by omega) u rfl

theorem quoter?_break (b : Breaks v) (q : Bool) (s : List Char) :
    quoter? q (s ++ v) = quoter? q s := by
  induction s using quoter_induction generalizing q with
  | nil =>
    cases b <;>
      rw [List.nil_append, quoter?_cons, if_neg (by decide), if_neg (by decide), quoter?]
  | cons c r ih =>
    rw [List.cons_append, quoter?_cons, quoter?_cons, ← List.cons_append]
    simp only [wordLength_break b, List.drop_append_of_le_length (wordLength_le (c :: r)),
      head?_append_iff (b.head?_ne (by decide : '.' ∉ Breaks.fronts)),
      head?_append_iff (b.head?_ne (by decide : '|' ∉ Breaks.fronts))]
    by_cases dot : ((c :: r).drop (wordLength (c :: r))).head? = some '.'
    · obtain ⟨u, hu⟩ := List.head?_eq_some_iff.1 dot
      rw [hu, List.cons_append, List.tail_cons, List.tail_cons, ih u hu true]
    · simp only [if_neg dot]

theorem find?_openers_break (b : Breaks v) (s : List Char) :
    openers.find? (·.1.isPrefixOf (s ++ v)) = openers.find? (·.1.isPrefixOf s) := by
  have solid : ∀ m ∈ openers, m.1.all (!Breaks.fronts.contains ·) = true := by decide
  exact List.find?_congr fun m hm => b.isPrefixOf (solid m hm)

theorem scanQuasi?_eq_none_break (b : Breaks v) (s : List Char) :
    scanQuasi? (s ++ v) = none ↔ scanQuasi? s = none := by
  rw [scanQuasi?, scanQuasi?, Option.map_eq_none_iff, Option.map_eq_none_iff, quoter?_break b]

theorem scanQuasi?_break (b : Breaks v) (ok : ∀ e, scanQuasi? s ≠ some (.error e)) :
    scanQuasi? (s ++ v) = scanQuasi? s := by
  simp only [scanQuasi?, quoter?_break b] at ok ⊢
  cases quoter : quoter? false s with
  | none => rfl
  | some p =>
    obtain ⟨q, m⟩ := p
    simp only [quoter, Option.map_some] at ok ⊢
    rw [List.drop_append_of_le_length (quoter?_le quoter)]
    cases closes : offsetOf? ['|', ']'] (s.drop m) with
    | none =>
      rw [closes] at ok
      exact absurd rfl (ok _)
    | some j => rw [offsetOf?_before closes]

end Quotation

namespace Bracket

theorem scanRound_of_ne (hash : r.head? ≠ some '#') (bar : r.head? ≠ some '|') :
    scanRound on r = (.punctuation .openParen, 0) := by
  simp [scanRound, hash, bar]

theorem scanRound_break (b : Breaks v) (settled : Settled (scanRound on (r ++ v)).2 r v) :
    scanRound on (r ++ v) = scanRound on r := by
  cases r with
  | nil => exact scanRound_of_ne (b.head?_ne (by decide)) (b.head?_ne (by decide))
  | cons c r =>
    by_cases tight : (r ++ v).head?.any isSymbol = r.head?.any isSymbol
    · simp only [scanRound, List.cons_append, List.drop_succ_cons, List.drop_zero,
        List.head?_cons, tight]
      rfl
    · -- Nothing but `c` stands before the dashes, so `c` is no symbol.
      obtain rfl : r = [] := by
        cases r with
        | nil => rfl
        | cons => exact absurd rfl tight
      have symbol : v.head?.any isSymbol = true := by simpa using tight
      have round : scanRound on ([c] ++ v) = (.punctuation .openParen, 0) := by
        simp [scanRound, symbol]
      rw [round] at settled
      obtain ⟨-, none | ⟨d, mem, noSymbol⟩⟩ := settled symbol
      · cases none
      obtain rfl : d = c := by simpa using mem
      have ne (e : Char) (h : isSymbol e = true) : [d].head? ≠ some e := by
        rintro ⟨⟩
        rw [h] at noSymbol
        cases noSymbol
      rw [round, scanRound_of_ne (ne '#' (by decide)) (ne '|' (by decide))]

theorem scanSquare_break (b : Breaks v) (h : scanSquare on r = .ok (k, n)) :
    scanSquare on (r ++ v) = .ok (k, n) := by
  have openers := Quotation.find?_openers_break b r
  have colon : (r ++ v).head? = some ':' ↔ r.head? = some ':' :=
    head?_append_iff (b.head?_ne (by decide))
  simp only [scanSquare, openers, colon] at h ⊢
  split at h
  · exact h
  · by_cases quasiQuotes : on .quasiQuotes = true
    · simp only [if_pos quasiQuotes] at h ⊢
      rw [Quotation.scanQuasi?_break b]
      · exact h
      · intro e failed
        rw [failed] at h
        cases h
    · simp only [if_neg quasiQuotes] at h ⊢
      exact h

theorem scan_break (b : Breaks v) {p : Punctuation}
    (settled : c = '(' → Settled (scanRound on (r ++ v)).2 r v) (h : scan on c p r = .ok (k, n)) :
    scan on c p (r ++ v) = .ok (k, n) := by
  unfold scan at h ⊢
  split at h
  · rename_i round
    rw [if_pos round, scanRound_break b (settled round)]
    exact h
  · rename_i noRound
    rw [if_neg noRound]
    split at h
    · rename_i square
      rw [if_pos square]
      exact scanSquare_break b h
    · rename_i noSquare
      rw [if_neg noSquare]
      exact h

end Bracket

/-! ## Names -/

namespace Name

theorem closes_break (b : Breaks v) (s : List Char) :
    ['-', '}'].isPrefixOf (s ++ v) = ['-', '}'].isPrefixOf s := by
  match s with
  | [] => cases b <;> rfl
  | [d] => cases b <;> simp [List.isPrefixOf]
  | d :: e :: s => rfl

theorem hashRun_break (b : Breaks v) (inPragma : Bool) (s : List Char) :
    hashRun inPragma (s ++ v) = hashRun inPragma s := by
  induction s with
  | nil => cases b <;> exact hashRun_of_ne inPragma (by decide) _
  | cons c r ih =>
    rw [List.cons_append]
    by_cases hash : c = '#'
    · subst hash
      simp only [hashRun, closes_break b, ih]
    · rw [hashRun_of_ne inPragma hash, hashRun_of_ne inPragma hash]

theorem hashLength_break (b : Breaks v) (site : Site) (s : List Char) :
    hashLength site (s ++ v) = hashLength site s := by
  simp only [hashLength, hashRun_break b]

theorem hashedWordLength_break (b : Breaks v) (site : Site) (s : List Char) :
    hashedWordLength site (s ++ v) = hashedWordLength site s := by
  simp only [hashedWordLength, wordLength_break b,
    List.drop_append_of_le_length (wordLength_le s), hashLength_break b]

theorem scanLower_break (b : Breaks v) (site : Site) (c : Char) (r : List Char) :
    scanLower site c (r ++ v) = scanLower site c r := by
  simp only [scanLower, hashedWordLength_break b,
    List.take_append_of_le_length (hashedWordLength_le site r)]

theorem scanQualified_break (b : Breaks v) (site : Site) (q : Bool) (s : List Char)
    (settled : Settled (scanQualified site q (s ++ v)).2 s v) :
    scanQualified site q (s ++ v) = scanQualified site q s := by
  induction s using qualified_induction generalizing q with
  | dot d r ih =>
    rw [List.cons_append, List.cons_append, scanQualified_dot] at settled
    rw [List.cons_append, List.cons_append, scanQualified_dot, scanQualified_dot]
    rw [← List.cons_append] at settled ⊢
    simp only [wordLength_break b, List.drop_append_of_le_length (wordLength_le (d :: r)),
      hashedWordLength_break b,
      List.take_append_of_le_length (hashedWordLength_le site (d :: r))] at settled ⊢
    by_cases upper : startsUpper d = true
    · simp only [if_pos upper] at settled ⊢
      have settled := settled.drop
      rw [Nat.add_comm 1, List.drop_succ_cons] at settled
      rw [ih true settled]
    simp only [if_neg upper] at settled ⊢
    by_cases lower : startsLower d = true
    · simp only [if_pos lower]
    simp only [if_neg lower] at settled ⊢
    by_cases symbol : isSymbol d = true
    · simp only [if_pos symbol] at settled ⊢
      have run : (d :: r ++ v).takeWhile isSymbol = (d :: r).takeWhile isSymbol := by
        apply settled.run_behind (by decide)
        split
        · exact .inl rfl
        · exact .inr rfl
      rw [run]
    · simp only [if_neg symbol]
  | other s noDot =>
    rw [scanQualified_of_ne site q noDot]
    by_cases last : s = ['.']
    · subst last
      cases b with
      | dashes t =>
        have run : ('-' :: '-' :: t).takeWhile isSymbol = [].takeWhile isSymbol := by
          refine settled.run_behind (by decide) ?_
          rw [List.cons_append, List.nil_append, scanQualified_dot, if_neg (by decide),
            if_neg (by decide), if_pos (by decide)]
          split
          · exact .inl rfl
          · exact .inr rfl
        rw [List.takeWhile_cons_of_pos (by decide)] at run
        cases run
      | _ =>
        rw [List.cons_append, List.nil_append, scanQualified_dot, if_neg (by decide),
          if_neg (by decide), if_neg (by decide), hashLength_of_ne (by decide)]
    · rw [scanQualified_of_ne, hashLength_break b]
      intro d r front
      match s with
      | [] =>
        cases b <;> cases front
      | [c] =>
        cases front
        exact last rfl
      | c :: e :: s =>
        cases front
        exact noDot _ _ rfl

theorem scan_break (b : Breaks v) (site : Site) (c : Char)
    (settled : Settled (scan site c (r ++ v)).2 r v) : scan site c (r ++ v) = scan site c r := by
  unfold scan at settled ⊢
  split at settled
  · rename_i upper
    simp only [if_pos upper, scanUpper, wordLength_break b,
      List.drop_append_of_le_length (wordLength_le r)] at settled ⊢
    rw [scanQualified_break b site false _ settled.drop]
  · rename_i lower
    rw [if_neg lower, if_neg lower, scanLower_break b]

end Name

/-! ## Literals -/

namespace Number

variable {digit : Char → Bool} {underscores : Bool}

theorem moreDigits_of_stops (stops : v.head?.any digit = false) (plain : v.head? ≠ some '_') :
    moreDigits digit underscores v = 0 := by
  cases v with
  | nil => rfl
  | cons d v =>
    have noDigit : digit d = false := by simpa using stops
    have noUnderscore : d ≠ '_' := by simpa using plain
    simp [moreDigits, noDigit, noUnderscore]

theorem digitRun_of_stops (stops : v.head?.any digit = false) :
    digitRun digit underscores v = 0 := by
  cases v with
  | nil => rfl
  | cons d v =>
    have noDigit : digit d = false := by simpa using stops
    simp [digitRun, noDigit]

theorem moreDigits_break (b : Breaks v) (stops : Breaks.fronts.any digit = false) (s : List Char) :
    moreDigits digit underscores (s ++ v) = moreDigits digit underscores s := by
  induction s with
  | nil => exact moreDigits_of_stops (b.stops stops) (b.head?_ne (by decide))
  | cons c r ih => simp only [List.cons_append, moreDigits, ih]

theorem digitRun_break (b : Breaks v) (stops : Breaks.fronts.any digit = false) (s : List Char) :
    digitRun digit underscores (s ++ v) = digitRun digit underscores s := by
  cases s with
  | nil => exact digitRun_of_stops (b.stops stops)
  | cons c r => simp only [List.cons_append, digitRun, moreDigits_break b stops]

theorem fractionLength_of_ne (underscores : Bool) (h : c ≠ '.') (r : List Char) :
    fractionLength underscores (c :: r) = 0 := by
  unfold fractionLength
  split
  · rename_i same
    cases same
    exact absurd rfl h
  · rfl

theorem fractionLength_break (b : Breaks v) (s : List Char) :
    fractionLength underscores (s ++ v) = fractionLength underscores s := by
  cases s with
  | nil => cases b <;> exact fractionLength_of_ne underscores (by decide) _
  | cons c r =>
    rw [List.cons_append]
    by_cases point : c = '.'
    · subst point
      simp only [fractionLength, digitRun_break b (by decide : Breaks.fronts.any isDigit = false)]
    · rw [fractionLength_of_ne underscores point, fractionLength_of_ne underscores point]

/-- A dash behind the exponent's letter is a sign, but no digit is behind it. -/
theorem exponentLength_break (b : Breaks v) (s : List Char) :
    exponentLength underscores (s ++ v) = exponentLength underscores s := by
  match s with
  | [] => cases b <;> rfl
  | [e] =>
    cases b <;> simp [exponentLength, isSign, digitRun, isDigit]
  | e :: d :: r =>
    have inside : ((d :: r).take 1).countP isSign ≤ (d :: r).length :=
      Nat.le_trans List.countP_le_length (List.length_take_le' 1 _)
    have signs : ((d :: r ++ v).take 1).countP isSign = ((d :: r).take 1).countP isSign := rfl
    rw [List.cons_append]
    simp only [exponentLength]
    rw [signs, List.drop_append_of_le_length inside,
      digitRun_break b (by decide : Breaks.fronts.any isDigit = false)]

theorem hashCount_break (b : Breaks v) (s : List Char) :
    hashCount on (s ++ v) = hashCount on s := by
  have two : runLength (· = '#') ((s ++ v).take 2) = runLength (· = '#') (s.take 2) := by
    match s with
    | [] => cases b <;> rfl
    | [c] => cases b <;> simp [runLength, List.takeWhile_cons]
    | c :: d :: s => rfl
  rw [hashCount, hashCount, two]

theorem radix?_stops (h : radix? on c = some digit) : Breaks.fronts.any digit = false := by
  simp only [radix?] at h
  split at h
  · cases h
    decide
  split at h
  · cases h
    decide
  split at h
  · cases h
    decide
  · cases h

theorem radixLength_break (b : Breaks v) : radixLength on c (r ++ v) = radixLength on c r := by
  cases r with
  | nil => cases b <;> simp [radixLength, radix?]
  | cons x s =>
    simp only [List.cons_append, radixLength]
    cases known : radix? on x with
    | none => rfl
    | some digit => simp only [digitRun_break b (radix?_stops known)]

theorem decimal_break (b : Breaks v) : decimal on (r ++ v) = decimal on r := by
  have digits := moreDigits_le isDigit (on .numericUnderscores) r
  have fraction := fractionLength_le (on .numericUnderscores)
    (r.drop (moreDigits isDigit (on .numericUnderscores) r))
  rw [List.length_drop] at fraction
  simp only [decimal, moreDigits_break b (by decide : Breaks.fronts.any isDigit = false)]
  rw [List.drop_append_of_le_length digits, fractionLength_break b,
    List.drop_append_of_le_length (by omega), exponentLength_break b]

theorem body_break (b : Breaks v) : body on c (r ++ v) = body on c r := by
  rw [body_eq, body_eq, radixLength_break b, decimal_break b]

theorem scan_break (b : Breaks v) (on : Extensions) (c : Char) (r : List Char) :
    scan on c (r ++ v) = scan on c r := by
  simp only [scan, body_break b, List.drop_append_of_le_length (body_le on c r), hashCount_break b]

end Number

namespace Literal

theorem numericEscape_break (b : Breaks v) {digit : Char → Bool}
    (stops : Breaks.fronts.any digit = false) (base : Nat) (s : List Char) :
    numericEscape digit base (s ++ v) = numericEscape digit base s := by
  simp only [numericEscape, takeWhile_append_of_stops (b.stops stops)]

theorem escapeLength_break (b : Breaks v) {inString : Bool} (some : s ≠ []) :
    escapeLength inString (s ++ v) = escapeLength inString s := by
  cases s with
  | nil => exact absurd rfl some
  | cons c r =>
    have names : controlNames.find? (·.isPrefixOf (c :: r ++ v)) =
        controlNames.find? (·.isPrefixOf (c :: r)) := by
      have solid : ∀ name ∈ controlNames, name.all (!Breaks.fronts.contains ·) = true := by decide
      exact List.find?_congr fun name mem => b.isPrefixOf (solid name mem)
    rw [List.cons_append] at names
    simp only [List.cons_append, escapeLength, names,
      head?_any_append (b.stops (by decide : Breaks.fronts.any isCaretEscape = false))]
    rw [← List.cons_append,
      numericEscape_break b (by decide : Breaks.fronts.any isDigit = false),
      numericEscape_break b (by decide : Breaks.fronts.any Number.isHex = false),
      numericEscape_break b (by decide : Breaks.fronts.any Number.isOctal = false)]

/-- The blanks of a gap may go on, but a backslash ends them. -/
theorem gapLength_break (b : Breaks v) (h : gapLength s = .ok n) :
    gapLength (s ++ v) = .ok n := by
  simp only [gapLength] at h ⊢
  split at h
  · rename_i mark
    have stop : ∃ d ∈ s, isBlank d = false :=
      ⟨'\\', List.mem_of_mem_drop (List.mem_of_mem_head? mark), by decide⟩
    have blanks : runLength isBlank (s ++ v) = runLength isBlank s :=
      congrArg List.length (takeWhile_append_of_stop stop)
    rw [blanks, List.drop_append_of_le_length (runLength_le isBlank s),
      if_pos ((head?_append_iff (b.head?_ne (by decide))).2 mark)]
    exact h
  · cases h

theorem backslashLength_break (b : Breaks v) (h : backslashLength s = .ok n) :
    backslashLength (s ++ v) = .ok n := by
  cases s with
  | nil => cases h
  | cons c r =>
    have head : (c :: r ++ v).head? = (c :: r).head? := rfl
    unfold backslashLength at h ⊢
    rw [head]
    split at h
    · rename_i blank
      rw [if_pos blank]
      exact gapLength_break b h
    · rename_i noBlank
      rw [if_neg noBlank, escapeLength_break b (List.cons_ne_nil c r)]
      exact h

theorem stringLength_break (b : Breaks v) {skip : Nat} (h : stringLength skip s = .ok n) :
    stringLength skip (s ++ v) = .ok n := by
  fun_induction stringLength skip s generalizing n with
  | case1 | case5 => cases h
  | case2 skip c r ih =>
    obtain ⟨m, hm, rfl⟩ := ok_of_map h
    rw [List.cons_append, stringLength, ih hm]
    rfl
  | case3 r => exact h
  | case4 r noQuote ih =>
    obtain ⟨m, back, hr⟩ := ok_of_bind h
    obtain ⟨m', hm, rfl⟩ := ok_of_map hr
    rw [List.cons_append, stringLength, if_neg noQuote, if_pos rfl, backslashLength_break b back]
    simp only [bind, Except.bind, ih m hm]
    rfl
  | case6 c r noQuote noBackslash noBreak ih =>
    obtain ⟨m, hm, rfl⟩ := ok_of_map h
    rw [List.cons_append, stringLength, if_neg noQuote, if_neg noBackslash, if_neg noBreak, ih hm]
    rfl

theorem hashed_break (b : Breaks v) (s : List Char) : hashed on (s ++ v) = hashed on s := by
  simp only [hashed, head?_append_iff (b.head?_ne (by decide : '#' ∉ Breaks.fronts))]

theorem scanString_break (b : Breaks v) (h : scanString on r = .ok (k, n)) :
    scanString on (r ++ v) = .ok (k, n) := by
  obtain ⟨m, hm, found⟩ := ok_of_bind h
  rw [scanString, stringLength_break b hm]
  simp only [bind, Except.bind]
  rw [List.drop_append_of_le_length (stringLength_le hm), hashed_break b]
  exact found

theorem charBody_cons (h : c ≠ '\\') (r : List Char) :
    charBody (c :: r) = .ok (if c = '\'' || c = '\n' then none else some 1) := by
  unfold charBody
  split
  · rename_i same
    cases same
    exact absurd rfl h
  · rename_i same
    cases same
    rfl
  · rename_i same
    cases same

/-- No character of a break is an escape. -/
theorem escapeLength_front (b : Breaks v) : ∃ e, escapeLength false v = .error e := by
  cases b <;> exact ⟨_, rfl⟩

theorem charBody_break (b : Breaks v) (solid : r ≠ []) (whole : r ≠ ['\\']) :
    charBody (r ++ v) = charBody r := by
  cases r with
  | nil => exact absurd rfl solid
  | cons c s =>
    by_cases backslash : c = '\\'
    · subst backslash
      cases s with
      | nil => exact absurd rfl whole
      | cons d s =>
        rw [List.cons_append, charBody, escapeLength_break b (List.cons_ne_nil d s)]
        rfl
    · rw [List.cons_append, charBody_cons backslash, charBody_cons backslash]

theorem quotedName_break (b : Breaks v) (r : List Char) :
    quotedName on (r ++ v) = quotedName on r := by
  simp only [quotedName, head?_append_iff (b.head?_ne (by decide : '\'' ∉ Breaks.fronts))]

theorem charBody_le (h : charBody r = .ok (some n)) : n ≤ r.length := by
  unfold charBody at h
  split at h
  · obtain ⟨m, hm, same⟩ := ok_of_map h
    cases same
    exact Nat.succ_le_succ (escapeLength_le hm)
  · split at h <;> cases h
    exact Nat.succ_le_succ (Nat.zero_le _)
  · cases h

/-- A quote right before a break quotes a name, if anything: no character of a
break has another quote behind it. -/
theorem scanQuote_front (b : Breaks v) : scanQuote on v = quotedName on [] := by
  rw [← quotedName_break b []]
  cases b <;> rfl

theorem scanQuote_break (b : Breaks v) (whole : r ≠ ['\\']) :
    scanQuote on (r ++ v) = scanQuote on r := by
  by_cases none : r = []
  · subst none
    exact scanQuote_front b
  have body := charBody_break b none whole
  unfold scanQuote
  rw [body]
  cases found : charBody r with
  | error e => rfl
  | ok length =>
    simp only [bind, Except.bind]
    cases length with
    | none => exact quotedName_break b r
    | some m =>
      have front : (r ++ v).head? = r.head? := by
        cases r with
        | nil => exact absurd rfl none
        | cons => rfl
      have quote : (r.drop m ++ v).head? = some '\'' ↔ (r.drop m).head? = some '\'' :=
        head?_append_iff (b.head?_ne (by decide))
      simp only [List.drop_append_of_le_length (charBody_le found), quote, front,
        quotedName_break b]
      by_cases closes : (r.drop m).head? = some '\''
      · have inside : m + 1 ≤ r.length := by
          rw [List.head?_drop] at closes
          exact (List.getElem?_eq_some_iff.1 closes).1
        rw [if_pos closes, if_pos closes, List.drop_append_of_le_length inside, hashed_break b]
      · rw [if_neg closes, if_neg closes]

/-- What a lone backslash begins is no character. -/
theorem scanQuote_backslash (on : Extensions) : ∃ e, scanQuote on ['\\'] = .error e := ⟨_, rfl⟩

theorem scanQuote_backslash_break (b : Breaks v) (on : Extensions) :
    ∃ e, scanQuote on ('\\' :: v) = .error e := by
  obtain ⟨e, none⟩ := escapeLength_front b
  refine ⟨e, ?_⟩
  rw [scanQuote, charBody, none]
  rfl

end Literal

/-! ## Operators -/

namespace Operator

theorem closer?_break (b : Breaks v) (on : Extensions) (s : List Char) :
    closer? on (s ++ v) = closer? on s := by
  have solid : ∀ m ∈ closers, m.1.all (!Breaks.fronts.contains ·) = true := by decide
  have same : (closers.find? fun m => m.1.isPrefixOf (s ++ v) && on m.2.2) =
      closers.find? fun m => m.1.isPrefixOf s && on m.2.2 :=
    List.find?_congr fun m hm => by rw [b.isPrefixOf (solid m hm)]
  exact congrArg (Option.map fun m => (m.2.1, m.1.length)) same

theorem scanSplice_cons (name paren : Quotation) (h : c ≠ '(') (s : List Char) :
    scanSplice name paren (c :: s) =
      if startsLower c then some (.quotation name, wordLength (c :: s)) else none := by
  unfold scanSplice
  split
  · rename_i same
    cases same
    exact absurd rfl h
  · rename_i same
    cases same
    rfl
  · rename_i same
    cases same

theorem scanSplice_break (b : Breaks v) (name paren : Quotation) (s : List Char) :
    scanSplice name paren (s ++ v) = scanSplice name paren s := by
  cases s with
  | nil =>
    cases b <;>
      rw [List.nil_append, scanSplice_cons name paren (by decide), if_neg (by decide)] <;> rfl
  | cons c s =>
    by_cases round : c = '('
    · subst round
      rfl
    · rw [List.cons_append, scanSplice_cons name paren round, scanSplice_cons name paren round,
        ← List.cons_append, wordLength_break b]

theorem mark?_break (b : Breaks v) {run : List Char} : mark? on run (s ++ v) = mark? on run s := by
  simp only [mark?, scanSplice_break b, wordLength_break b,
    List.take_append_of_le_length (wordLength_le s),
    head?_any_append (b.stops (by decide : Breaks.fronts.any startsLower = false))]

/-- An operator takes all symbols that there are. -/
theorem run_le_scan (site : Site) (c : Char) (r : List Char) :
    runLength isSymbol r ≤ (scan site c r).2 := by
  cases closer : closer? site.on (c :: r) with
  | some found =>
    obtain ⟨⟨mark, kind, needs⟩, found, rfl⟩ := Option.map_eq_some_iff.1 closer
    have table : ∀ m ∈ closers, m.1.tail.any (!isSymbol ·) = true := by decide
    obtain ⟨d, mem, stop⟩ := List.any_eq_true.1 (table _ (List.mem_of_find?_eq_some found))
    have isMark := List.find?_some found
    simp only [Bool.and_eq_true] at isMark
    obtain ⟨t, whole⟩ := List.isPrefixOf_iff_prefix.1 isMark.1
    cases mark with
    | nil => cases mem
    | cons e mark =>
      obtain ⟨-, rest⟩ := List.cons.inj whole
      have run : (mark ++ t).takeWhile isSymbol = mark.takeWhile isSymbol :=
        takeWhile_append_of_stop ⟨d, mem, by simpa using stop⟩
      simp only [scan, closer]
      rw [← rest, runLength, List.append_eq, run]
      exact runLength_le isSymbol mark
  | none =>
    simp only [scan, closer]
    split
    · exact Nat.le_add_right _ _
    · exact Nat.le_refl _

/-- Only an at sign looks at what is behind it to see whether there is
anything at all. -/
theorem scan_break (b : Breaks v) (settled : Settled (scan site c (r ++ v)).2 r v)
    (blind : ∀ u, isTypeApplication site (u ++ v) = isTypeApplication site u) :
    scan site c (r ++ v) = scan site c r := by
  have closer : closer? site.on (c :: (r ++ v)) = closer? site.on (c :: r) :=
    closer?_break b site.on (c :: r)
  have run : (r ++ v).takeWhile isSymbol = r.takeWhile isSymbol :=
    settled.run (run_le_scan site c (r ++ v))
  have rest : (r ++ v).drop (r.takeWhile isSymbol).length =
      r.drop (r.takeWhile isSymbol).length ++ v :=
    List.drop_append_of_le_length (runLength_le isSymbol r)
  unfold scan
  simp only [closer, run, rest, mark?_break b, ofRun, blind]

end Operator

/-! ## All lexemes -/

/-- Dashes that no symbol character follows are still that before a break. -/
theorem Comment.startsLineComment_append (stops : v.head?.any isSymbol = false) :
    startsLineComment (s ++ v) = startsLineComment s := by
  have dashes : v.head?.any (· = '-') = false := by
    cases v with
    | nil => rfl
    | cons d v =>
      have noSymbol : isSymbol d = false := by simpa using stops
      have noDash : d ≠ '-' := by
        rintro rfl
        cases noSymbol
      simpa using noDash
  simp only [startsLineComment]
  rw [runLength_append_of_stops dashes, List.drop_append_of_le_length (runLength_le _ s),
    head?_any_append stops]

namespace Lexeme

theorem isNegative_break (b : Breaks v) : isNegative site c (r ++ v) = isNegative site c r := by
  simp only [isNegative, head?_any_append (b.stops (by decide : Breaks.fronts.any isDigit = false))]

theorem scanNegative_break (b : Breaks v) (sign : isNegative site c r = true) :
    scanNegative on (r ++ v) = scanNegative on r := by
  cases r with
  | nil => simp [isNegative] at sign
  | cons d s => simp only [List.cons_append, scanNegative, Number.scan_break b]

theorem closePragmaMark_break (b : Breaks v) :
    closePragmaMark.isPrefixOf (c :: (r ++ v)) = closePragmaMark.isPrefixOf (c :: r) :=
  congrArg (_ && ·) (Name.closes_break b r)

/-- What stands at the front of a text stands there with a break behind it, but
for comments and pragmas, which look at more. -/
theorem scanned_break (b : Breaks v) (stops : v.head?.any isSymbol = false)
    (blind : ∀ u, Operator.isTypeApplication site (u ++ v) = Operator.isTypeApplication site u)
    (other : k.isBraced = false) (h : Scanned site c r k n) : Scanned site c (r ++ v) k n := by
  have settled (n : Nat) : Settled n r v := settled_of_stops stops
  have comment : Comment.startsLineComment (c :: (r ++ v)) = Comment.startsLineComment (c :: r) :=
    Comment.startsLineComment_append (s := c :: r) stops
  have dash : (r ++ v).head? = some '-' ↔ r.head? = some '-' := by
    apply head?_append_iff
    intro dash
    rw [dash] at stops
    cases stops
  cases h with
  | braceDash opens ok =>
    rw [scanBraceDash_braced ok] at other
    cases other
  | lineComment starts => cases other
  | closePragma inside mark => exact .closePragma inside ((closePragmaMark_break b).trans mark)
  | bracket special single ok =>
    have single' : ¬(c = '{' ∧ (r ++ v).head? = some '-') := by rwa [dash]
    exact .bracket special single' (Bracket.scan_break b (fun _ => settled _) ok)
  | string double ok => exact .string double (Literal.scanString_break b ok)
  | quote single ok =>
    refine .quote single ?_
    rw [Literal.scanQuote_break b]
    · exact ok
    · rintro rfl
      obtain ⟨e, failed⟩ := Literal.scanQuote_backslash site.on
      rw [failed] at ok
      cases ok
  | number digit =>
    rw [← Number.scan_break b]
    exact .number digit
  | name starts =>
    rw [← Name.scan_break b site c (settled _)]
    exact .name starts
  | negative sign =>
    rw [← scanNegative_break b sign]
    exact .negative ((isNegative_break b).trans sign)
  | operator symbol noComment noClose noSign =>
    rw [← Operator.scan_break b (settled _) blind]
    refine .operator symbol (comment.trans noComment) ?_ ((isNegative_break b).trans noSign)
    rw [closePragmaMark_break b]
    exact noClose
  | unknown noName noSymbol noControl noSpecial noQuote noDigit =>
    exact .unknown noName noSymbol noControl noSpecial noQuote noDigit

end Lexeme

end HaskellLexis
