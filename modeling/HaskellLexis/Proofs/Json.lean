import HaskellLexis.Json.Reader
import HaskellLexis.Json.Writer

/-!
# Reading what was written

A value without numbers is read back from its text, with any indentation and
whatever stands behind it.

* `units`: a character as code units, one or two of them;
* `readString_write`: escapes are undone, and halves of characters joined;
* `Plain`: the values that are written in one way only;
* `readValue_write`, `read?_write`: reading undoes writing;
* `writeAt_ascii`: what is written is ASCII.
-/

namespace HaskellLexis

namespace Json

/-! ## Strings -/

theorem hexValue?_hexDigit : ∀ n < 16, hexValue? (Quoted.hexDigit n) = some n := by decide

/-- A character beyond the basic plane is two units, a high and a low one. -/
def units (c : Char) : List Nat :=
  if c.toNat < 0x10000 then [c.toNat]
  else [0xD800 + (c.toNat - 0x10000) / 0x400, 0xDC00 + (c.toNat - 0x10000) % 0x400]

theorem unicodeEscape_eq (n : Nat) :
    unicodeEscape n = ['\\', 'u', Quoted.hexDigit (n / 16 / 16 / 16 % 16),
      Quoted.hexDigit (n / 16 / 16 % 16), Quoted.hexDigit (n / 16 % 16),
      Quoted.hexDigit (n % 16)] := rfl

theorem hexUnit?_hex {n : Nat} (h : n < 0x10000) :
    hexUnit? (Quoted.hexDigit (n / 16 / 16 / 16 % 16)) (Quoted.hexDigit (n / 16 / 16 % 16))
      (Quoted.hexDigit (n / 16 % 16)) (Quoted.hexDigit (n % 16)) = some n := by
  simp only [hexUnit?, hexValue?_hexDigit _ (Nat.mod_lt _ (by decide : 0 < 16)), Option.pure_def,
    Option.bind_eq_bind, Option.bind_some, Option.some.injEq]
  omega

theorem readUnits_unicodeEscape {n : Nat} (h : n < 0x10000) (r : List Char) :
    readUnits (unicodeEscape n ++ r) = (readUnits r).map fun p => (n :: p.1, p.2) := by
  rw [unicodeEscape_eq]
  simp only [List.cons_append, List.nil_append, readUnits, hexUnit?_hex h, Option.bind_eq_bind,
    Option.bind_some, Option.pure_def]
  cases readUnits r <;> rfl

/-- Characters that have an escape of two characters. -/
def shortened : List Char := ['"', '\\', '\n', '\r', '\t', '\x0c', '\x08']

theorem writeChar_of_mem {c : Char} (h : c ∈ shortened) :
    ∃ e, writeChar c = ['\\', e] ∧ e ≠ 'u' ∧ shortEscape? e = some c ∧
      c.toNat < 0x80 ∧ e.toNat < 0x80 := by
  simp only [shortened, List.mem_cons, List.not_mem_nil, or_false] at h
  obtain rfl | rfl | rfl | rfl | rfl | rfl | rfl := h
  all_goals exact ⟨_, rfl, by decide, rfl, by decide, by decide⟩

theorem writeChar_of_not_mem {c : Char} (h : c ∉ shortened) :
    (writeChar c = [c] ∧ 0x20 ≤ c.toNat ∧ c.toNat ≤ 0x7E) ∨
      writeChar c = (units c).flatMap unicodeEscape := by
  simp only [shortened, List.mem_cons, List.not_mem_nil, or_false, not_or] at h
  obtain ⟨h₁, h₂, h₃, h₄, h₅, h₆, h₇⟩ := h
  rw [writeChar, if_neg h₁, if_neg h₂, if_neg h₃, if_neg h₄, if_neg h₅, if_neg h₆, if_neg h₇]
  split
  · rename_i h
    simp only [Bool.and_eq_true, decide_eq_true_eq] at h
    exact .inl ⟨rfl, h⟩
  · right
    unfold units
    split <;> simp

theorem units_lt (c : Char) : ∀ u ∈ units c, u < 0x10000 := by
  have bound : c.toNat < 0x110000 := by
    have valid : c.toNat < 0xD800 ∨ 0xDFFF < c.toNat ∧ c.toNat < 0x110000 := c.valid
    omega
  unfold units
  split
  · simpa
  · intro u hu
    simp only [List.mem_cons, List.not_mem_nil, or_false] at hu
    omega

theorem readUnits_escapes {us : List Nat} (h : ∀ u ∈ us, u < 0x10000) (r : List Char) :
    readUnits (us.flatMap unicodeEscape ++ r) = (readUnits r).map fun p => (us ++ p.1, p.2) := by
  induction us with
  | nil => simp
  | cons u us ih =>
    rw [List.flatMap_cons, List.append_assoc, readUnits_unicodeEscape (h u List.mem_cons_self),
      ih fun v hv => h v (List.mem_cons_of_mem u hv)]
    cases readUnits r <;> rfl

theorem readUnits_writeChar (c : Char) (r : List Char) :
    readUnits (writeChar c ++ r) = (readUnits r).map fun p => (units c ++ p.1, p.2) := by
  have single (h : c.toNat < 0x80) : units c = [c.toNat] := if_pos (by omega)
  by_cases h : c ∈ shortened
  · obtain ⟨e, short, noUnit, stands, ascii, -⟩ := writeChar_of_mem h
    rw [short, single ascii, List.cons_append, List.cons_append, List.nil_append, readUnits]
    · simp only [stands, Option.bind_eq_bind, Option.bind_some, Option.pure_def]
      cases readUnits r <;> rfl
    · simp [noUnit]
  · obtain ⟨plain, low, high⟩ | long := writeChar_of_not_mem h
    · have noQuote : c ≠ '"' := fun same => h (same ▸ by decide)
      have noSlash : c ≠ '\\' := fun same => h (same ▸ by decide)
      rw [plain, single (by omega), List.singleton_append, readUnits]
      · rw [if_neg (by omega)]
        cases readUnits r <;> rfl
      all_goals simp [noQuote, noSlash]
    · rw [long, readUnits_escapes (units_lt c)]

/-- Of the units of characters only the first of two is a high one, so that
joining never takes a unit of the next character. -/
theorem joinUnits_units (c : Char) (ns : List Nat) :
    joinUnits (units c ++ ns) = c :: joinUnits ns := by
  have valid : c.toNat < 0xD800 ∨ 0xDFFF < c.toNat ∧ c.toNat < 0x110000 := c.valid
  unfold units
  split
  case isTrue low =>
    have noHalf : isHighUnit c.toNat = false ∧ isLowUnit c.toNat = false := by
      simp only [isHighUnit, isLowUnit, Bool.and_eq_false_iff, decide_eq_false_iff_not]
      omega
    have char : charOfUnit c.toNat = c := by simp [charOfUnit, noHalf]
    cases ns with
    | nil => simp [joinUnits, char]
    | cons n ns => simp [joinUnits, char, noHalf.1]
  case isFalse high =>
    have pair : isHighUnit (0xD800 + (c.toNat - 0x10000) / 0x400) = true ∧
        isLowUnit (0xDC00 + (c.toNat - 0x10000) % 0x400) = true := by
      simp only [isHighUnit, isLowUnit, Bool.and_eq_true, decide_eq_true_eq]
      omega
    have value : 0x10000 + (0xD800 + (c.toNat - 0x10000) / 0x400 - 0xD800) * 0x400 +
        (0xDC00 + (c.toNat - 0x10000) % 0x400 - 0xDC00) = c.toNat := by omega
    simp only [List.cons_append, List.nil_append, joinUnits, pair.1, pair.2, Bool.and_self,
      if_true, value, Char.ofNat_toNat]

theorem joinUnits_flatMap (s : List Char) : joinUnits (s.flatMap units) = s := by
  induction s with
  | nil => rfl
  | cons c s ih => rw [List.flatMap_cons, joinUnits_units, ih]

theorem readString_write (s r : List Char) :
    readString (s.flatMap writeChar ++ '"' :: r) = some (s, r) := by
  have units : readUnits (s.flatMap writeChar ++ '"' :: r) = some (s.flatMap units, r) := by
    induction s with
    | nil => rfl
    | cons c s ih =>
      rw [List.flatMap_cons, List.append_assoc, readUnits_writeChar, ih]
      rfl
  simp only [readString, units, Option.map_some, joinUnits_flatMap]

/-! ## Values

A reader skips blanks before each item and each sign. What is written has blanks
only where the indentation or a separator puts them. -/

theorem skipSpace_of_front {c : Char} (h : isSpace c = false) (r : List Char) :
    skipSpace (c :: r) = c :: r := by
  simp [skipSpace, h]

theorem skipSpace_newline (indent : Option Nat) (depth : Nat) (r : List Char) :
    skipSpace (newline indent depth ++ r) = skipSpace r := by
  unfold newline
  cases indent with
  | none => rfl
  | some n =>
    have blanks (k : Nat) : skipSpace (List.replicate k ' ' ++ r) = skipSpace r := by
      induction k with
      | zero => rfl
      | succ k ih => exact ih
    exact blanks (n * depth)

theorem separator_skipped (indent : Option Nat) (depth : Nat) (r : List Char) :
    ∃ t, separator indent depth ++ r = ',' :: t ∧ skipSpace t = skipSpace r := by
  cases indent with
  | none => exact ⟨' ' :: r, rfl, rfl⟩
  | some n => exact ⟨_, rfl, skipSpace_newline (some n) depth r⟩

/-- What follows the first of some items between brackets. -/
def more (indent : Option Nat) (depth : Nat) (closing : Char) (ts : List (List Char)) :
    List Char :=
  ts.flatMap (separator indent (depth + 1) ++ ·) ++ newline indent depth ++ [closing]

theorem enclose_cons (indent : Option Nat) (depth : Nat) (opening closing : Char)
    (t : List Char) (ts : List (List Char)) :
    enclose indent depth opening closing (t :: ts) =
      opening :: newline indent (depth + 1) ++ t ++ more indent depth closing ts := by
  simp only [enclose, more, List.append_assoc, List.cons_append]

theorem more_cons (indent : Option Nat) (depth : Nat) (closing : Char) (t : List Char)
    (ts : List (List Char)) :
    more indent depth closing (t :: ts) =
      separator indent (depth + 1) ++ (t ++ more indent depth closing ts) := by
  simp only [more, List.flatMap_cons, List.append_assoc]

/-- A member of an object as it is written. -/
def writeMember (indent : Option Nat) (depth : Nat) (m : List Char × Json) : List Char :=
  writeString m.1 ++ ':' :: ' ' :: writeAt indent depth m.2

theorem writeMembers_cons (indent : Option Nat) (depth : Nat) (m : List Char × Json)
    (ms : List (List Char × Json)) :
    writeMembers indent depth (m :: ms) =
      writeMember indent depth m :: writeMembers indent depth ms := rfl

theorem skipSpace_writeMember (indent : Option Nat) (depth : Nat) (m : List Char × Json)
    (r : List Char) :
    skipSpace (writeMember indent depth m ++ r) = writeMember indent depth m ++ r := rfl

theorem length_writeMember (indent : Option Nat) (depth : Nat) (m : List Char × Json) :
    (writeAt indent depth m.2).length < (writeMember indent depth m).length := by
  rw [writeMember, List.length_append, List.length_cons, List.length_cons]
  omega

mutual

/-- No numbers, and no key twice in an object. -/
def Plain : Json → Prop
  | int _ | decimal _ => False
  | null | bool _ | string _ => True
  | array vs => PlainItems vs
  | object ms => (ms.map Prod.fst).Nodup ∧ PlainMembers ms

def PlainItems : List Json → Prop
  | [] => True
  | v :: vs => Plain v ∧ PlainItems vs

def PlainMembers : List (List Char × Json) → Prop
  | [] => True
  | (_, v) :: ms => Plain v ∧ PlainMembers ms

end

theorem front_enclose (indent : Option Nat) (depth : Nat) (opening closing : Char)
    (ts : List (List Char)) : ∃ r, enclose indent depth opening closing ts = opening :: r := by
  cases ts with
  | nil => exact ⟨_, rfl⟩
  | cons t ts => exact ⟨_, rfl⟩

theorem front_writeAt {v : Json} (plain : Plain v) (indent : Option Nat) (depth : Nat) :
    ∃ c r, writeAt indent depth v = c :: r ∧ isSpace c = false ∧ c ≠ ']' := by
  cases v with
  | null => exact ⟨_, _, rfl, by decide, by decide⟩
  | bool b => cases b <;> exact ⟨_, _, rfl, by decide, by decide⟩
  | int n => exact plain.elim
  | decimal s => exact plain.elim
  | string s => exact ⟨_, _, rfl, by decide, by decide⟩
  | array vs =>
    obtain ⟨r, front⟩ := front_enclose indent depth '[' ']' (writeItems indent (depth + 1) vs)
    exact ⟨'[', r, by rw [writeAt, front], by decide, by decide⟩
  | object ms =>
    obtain ⟨r, front⟩ := front_enclose indent depth '{' '}' (writeMembers indent (depth + 1) ms)
    exact ⟨'{', r, by rw [writeAt, front], by decide, by decide⟩

/-- A written value starts with no blank, so none of it is skipped. -/
theorem skipSpace_writeAt {v : Json} (plain : Plain v) (indent : Option Nat) (depth : Nat)
    (r : List Char) : skipSpace (writeAt indent depth v ++ r) = writeAt indent depth v ++ r := by
  obtain ⟨c, t, front, solid, -⟩ := front_writeAt plain indent depth
  rw [front, List.cons_append, skipSpace_of_front solid]

theorem skipSpace_more_nil (indent : Option Nat) (depth : Nat) {closing : Char}
    (solid : isSpace closing = false) (rest : List Char) :
    skipSpace (more indent depth closing [] ++ rest) = closing :: rest := by
  rw [more, List.flatMap_nil, List.nil_append, List.append_assoc, skipSpace_newline]
  exact skipSpace_of_front solid rest

theorem skipSpace_more_cons (indent : Option Nat) (depth : Nat) (closing : Char) (t : List Char)
    (ts : List (List Char)) (rest : List Char) :
    ∃ r, skipSpace (more indent depth closing (t :: ts) ++ rest) = ',' :: r ∧
      skipSpace r = skipSpace (t ++ (more indent depth closing ts ++ rest)) := by
  obtain ⟨r, split, skipped⟩ := separator_skipped indent (depth + 1)
    (t ++ (more indent depth closing ts ++ rest))
  rw [more_cons, List.append_assoc, List.append_assoc, split]
  exact ⟨r, skipSpace_of_front (by decide) r, skipped⟩

theorem length_more_pos (indent : Option Nat) (depth : Nat) (closing : Char)
    (ts : List (List Char)) : 0 < (more indent depth closing ts).length := by
  rw [more, List.length_append]
  exact Nat.succ_pos _

theorem length_more_cons (indent : Option Nat) (depth : Nat) (closing : Char) (t : List Char)
    (ts : List (List Char)) : t.length + (more indent depth closing ts).length <
      (more indent depth closing (t :: ts)).length := by
  have separated : 0 < (separator indent (depth + 1)).length := by
    cases indent <;> exact Nat.succ_pos _
  rw [more_cons, List.length_append, List.length_append]
  omega

/-! ## What the reader does

One lemma for each way in which a reader goes on, given what it reads first. -/

theorem readValue_string (fuel : Nat) (s r : List Char) :
    readValue (fuel + 1) (writeString s ++ r) = some (string s, r) := by
  simp only [writeString, List.cons_append, List.append_assoc, List.nil_append, readValue,
    readString_write, Option.map_some]

theorem readValue_array {fuel : Nat} {r s t : List Char} {vs : List Json}
    (skipped : skipSpace r = s) (ne : s.head? ≠ some ']') (read : readItems fuel s = some (vs, t)) :
    readValue (fuel + 1) ('[' :: r) = some (array vs, t) := by
  rw [readValue]
  split
  · rename_i u hu
    rw [← skipped, hu] at ne
    exact absurd rfl ne
  · rw [skipped, read]
    rfl

theorem readValue_object {fuel : Nat} {r s t : List Char} {ms : List (List Char × Json)}
    (skipped : skipSpace r = s) (ne : s.head? ≠ some '}')
    (read : readMembers fuel s [] = some (ms, t)) :
    readValue (fuel + 1) ('{' :: r) = some (object ms, t) := by
  rw [readValue]
  split
  · rename_i u hu
    rw [← skipped, hu] at ne
    exact absurd rfl ne
  · rw [skipped, read]
    rfl

theorem readItems_last {fuel : Nat} {s r t : List Char} {v : Json}
    (read : readValue fuel s = some (v, r)) (close : skipSpace r = ']' :: t) :
    readItems (fuel + 1) s = some ([v], t) := by
  simp only [readItems, read, close, Option.bind_eq_bind, Option.bind_some]

theorem readItems_more {fuel : Nat} {s r t u : List Char} {v : Json} {vs : List Json}
    (read : readValue fuel s = some (v, r)) (comma : skipSpace r = ',' :: t)
    (others : readItems fuel (skipSpace t) = some (vs, u)) :
    readItems (fuel + 1) s = some (v :: vs, u) := by
  simp only [readItems, read, comma, others, Option.bind_eq_bind, Option.bind_some]

/-- What follows the value of a member decides how reading goes on. -/
theorem readMembers_member {fuel : Nat} {indent : Option Nat} {depth : Nat} {r : List Char}
    {m : List Char × Json} (done : List (List Char × Json)) (plain : Plain m.2)
    (read : readValue fuel (writeAt indent depth m.2 ++ r) = some (m.2, r)) :
    (∀ t, skipSpace r = '}' :: t →
      readMembers (fuel + 1) (writeMember indent depth m ++ r) done =
        some (put m.1 m.2 done, t)) ∧
    ∀ t, skipSpace r = ',' :: t →
      readMembers (fuel + 1) (writeMember indent depth m ++ r) done =
        readMembers fuel (skipSpace t) (put m.1 m.2 done) := by
  have value : skipSpace (' ' :: (writeAt indent depth m.2 ++ r)) = writeAt indent depth m.2 ++ r :=
    skipSpace_writeAt plain indent depth r
  constructor
  all_goals
    intro t front
    simp only [writeMember, writeString, List.cons_append, List.append_assoc, List.nil_append,
      readMembers, readString_write, skipSpace_of_front (by decide : isSpace ':' = false), value,
      read, front, Option.bind_eq_bind, Option.bind_some]

theorem put_of_not_mem {key : List Char} {ms : List (List Char × Json)}
    (h : key ∉ ms.map Prod.fst) (v : Json) : put key v ms = ms ++ [(key, v)] := by
  induction ms with
  | nil => rfl
  | cons m ms ih =>
    rw [List.map_cons, List.mem_cons, not_or] at h
    rw [put, if_neg (Ne.symm h.1), ih h.2]
    rfl

/-- The reader adds a member behind those it has, as long as its key is new. -/
theorem new_of_nodup {done ms : List (List Char × Json)} {m : List Char × Json}
    (h : ((done ++ m :: ms).map Prod.fst).Nodup) : m.1 ∉ done.map Prod.fst := by
  rw [List.map_append, List.nodup_append] at h
  exact fun mem => h.2.2 _ mem m.1 List.mem_cons_self rfl

mutual

/-- Each call that the reader makes is for a shorter text, so that as much fuel as
there is text is enough. -/
theorem readValue_write (indent : Option Nat) : ∀ (v : Json) (depth fuel : Nat) (rest : List Char),
    Plain v → (writeAt indent depth v).length ≤ fuel →
      readValue fuel (writeAt indent depth v ++ rest) = some (v, rest)
  | v, depth, 0, _, plain, bound => by
    obtain ⟨c, r, front, -⟩ := front_writeAt plain indent depth
    rw [front] at bound
    cases bound
  | null, _, _ + 1, _, _, _ => by simp [writeAt, readValue, readWord, words]
  | bool b, _, _ + 1, _, _, _ => by cases b <;> simp [writeAt, readValue, readWord, words]
  | string s, _, fuel + 1, rest, _, _ => readValue_string fuel s rest
  | array [], _, _ + 1, _, _, _ => rfl
  | object [], _, _ + 1, _, _, _ => rfl
  | array (v :: vs), depth, fuel + 1, rest, plain, bound => by
    rw [writeAt, writeItems, enclose_cons] at bound ⊢
    simp only [List.cons_append, List.append_assoc, List.length_cons, List.length_append] at bound ⊢
    refine readValue_array ((skipSpace_newline _ _ _).trans (skipSpace_writeAt plain.1 _ _ _)) ?_
      (readItems_write indent v vs depth fuel rest plain (by rw [List.length_append]; omega))
    obtain ⟨c, r, front, -, noClose⟩ := front_writeAt plain.1 indent (depth + 1)
    simpa [front] using noClose
  | object (m :: ms), depth, fuel + 1, rest, plain, bound => by
    rw [writeAt, writeMembers_cons, enclose_cons] at bound ⊢
    simp only [List.cons_append, List.append_assoc, List.length_cons, List.length_append] at bound ⊢
    exact readValue_object ((skipSpace_newline _ _ _).trans (skipSpace_writeMember _ _ _ _))
      (by simp [writeMember, writeString])
      (readMembers_write indent m ms [] depth fuel rest plain.2 plain.1
        (by rw [List.length_append]; omega))

theorem readItems_write (indent : Option Nat) : ∀ (v : Json) (vs : List Json) (depth fuel : Nat)
    (rest : List Char), PlainItems (v :: vs) →
    (writeAt indent (depth + 1) v ++
      more indent depth ']' (writeItems indent (depth + 1) vs)).length ≤ fuel →
    readItems fuel (writeAt indent (depth + 1) v ++
      (more indent depth ']' (writeItems indent (depth + 1) vs) ++ rest)) = some (v :: vs, rest)
  | v, vs, depth, 0, _, _, bound => by
    have := length_more_pos indent depth ']' (writeItems indent (depth + 1) vs)
    rw [List.length_append] at bound
    omega
  | v, [], depth, fuel + 1, rest, plain, bound => by
    have closing := length_more_pos indent depth ']' []
    rw [writeItems, List.length_append] at bound
    exact readItems_last (readValue_write indent v (depth + 1) fuel _ plain.1 (by omega))
      (skipSpace_more_nil indent depth (by decide) rest)
  | v, w :: vs, depth, fuel + 1, rest, plain, bound => by
    have others := length_more_cons indent depth ']' (writeAt indent (depth + 1) w)
      (writeItems indent (depth + 1) vs)
    rw [writeItems, List.length_append] at bound
    obtain ⟨t, comma, skipped⟩ := skipSpace_more_cons indent depth ']'
      (writeAt indent (depth + 1) w) (writeItems indent (depth + 1) vs) rest
    refine readItems_more (readValue_write indent v (depth + 1) fuel _ plain.1 (by omega)) comma ?_
    rw [skipped, skipSpace_writeAt plain.2.1]
    exact readItems_write indent w vs depth fuel rest plain.2 (by rw [List.length_append]; omega)

theorem readMembers_write (indent : Option Nat) : ∀ (m : List Char × Json)
    (ms done : List (List Char × Json)) (depth fuel : Nat) (rest : List Char),
    PlainMembers (m :: ms) → ((done ++ m :: ms).map Prod.fst).Nodup →
    (writeMember indent (depth + 1) m ++
      more indent depth '}' (writeMembers indent (depth + 1) ms)).length ≤ fuel →
    readMembers fuel (writeMember indent (depth + 1) m ++
      (more indent depth '}' (writeMembers indent (depth + 1) ms) ++ rest)) done =
        some (done ++ m :: ms, rest)
  | m, ms, _, depth, 0, _, _, _, bound => by
    have := length_more_pos indent depth '}' (writeMembers indent (depth + 1) ms)
    rw [List.length_append] at bound
    omega
  | m, [], done, depth, fuel + 1, rest, plain, distinct, bound => by
    have value := length_writeMember indent (depth + 1) m
    have closing := length_more_pos indent depth '}' []
    rw [writeMembers, List.length_append] at bound
    have member := readMembers_member done plain.1
      (readValue_write indent m.2 (depth + 1) fuel (more indent depth '}' [] ++ rest) plain.1
        (by omega))
    rw [writeMembers, member.1 rest (skipSpace_more_nil indent depth (by decide) rest),
      put_of_not_mem (new_of_nodup distinct)]
  | m, n :: ms, done, depth, fuel + 1, rest, plain, distinct, bound => by
    have value := length_writeMember indent (depth + 1) m
    have others := length_more_cons indent depth '}' (writeMember indent (depth + 1) n)
      (writeMembers indent (depth + 1) ms)
    rw [writeMembers_cons, List.length_append] at bound
    obtain ⟨t, comma, skipped⟩ := skipSpace_more_cons indent depth '}'
      (writeMember indent (depth + 1) n) (writeMembers indent (depth + 1) ms) rest
    have member := readMembers_member done plain.1
      (readValue_write indent m.2 (depth + 1) fuel (more indent depth '}'
        (writeMembers indent (depth + 1) (n :: ms)) ++ rest) plain.1 (by omega))
    rw [writeMembers_cons] at member
    rw [writeMembers_cons, member.2 t comma, put_of_not_mem (new_of_nodup distinct)]
    rw [List.append_cons done m (n :: ms)] at distinct ⊢
    rw [skipped, skipSpace_writeMember]
    exact readMembers_write indent n ms (done ++ [m]) depth fuel rest plain.2 distinct
      (by rw [List.length_append]; omega)

end

/-- Reading undoes writing, whatever the indentation. -/
theorem read?_write (indent : Option Nat) {v : Json} (plain : Plain v) :
    read? (write indent v) = some v := by
  have skipped := skipSpace_writeAt plain indent 0 []
  have value := readValue_write indent v 0 (2 * (write indent v).length + 2) [] plain
    (by rw [← write]; omega)
  rw [List.append_nil, ← write] at skipped value
  simp only [read?, skipped, value, Option.bind_eq_bind, Option.bind_some]
  rfl

/-! ## ASCII -/

def Ascii (s : List Char) : Prop := ∀ c ∈ s, c.toNat < 0x80

theorem Ascii.append {s t : List Char} (h : Ascii s) (h' : Ascii t) : Ascii (s ++ t) :=
  List.forall_mem_append.2 ⟨h, h'⟩

theorem Ascii.cons {c : Char} {s : List Char} (h : c.toNat < 0x80) (h' : Ascii s) :
    Ascii (c :: s) := List.forall_mem_cons.2 ⟨h, h'⟩

theorem Ascii.flatMap {α : Type} {f : α → List Char} {xs : List α} (h : ∀ x ∈ xs, Ascii (f x)) :
    Ascii (xs.flatMap f) := List.forall_mem_flatMap.2 h

theorem hexDigit_ascii : ∀ n < 16, (Quoted.hexDigit n).toNat < 0x80 := by decide

theorem unicodeEscape_ascii (n : Nat) : Ascii (unicodeEscape n) := by
  intro d hd
  rw [unicodeEscape_eq] at hd
  simp only [List.mem_cons, List.not_mem_nil, or_false] at hd
  obtain rfl | rfl | rfl | rfl | rfl | rfl := hd
  · decide
  · decide
  all_goals exact hexDigit_ascii _ (Nat.mod_lt _ (by decide))

theorem writeChar_ascii (c : Char) : Ascii (writeChar c) := by
  by_cases h : c ∈ shortened
  · obtain ⟨e, short, -, -, -, ascii⟩ := writeChar_of_mem h
    rw [short]
    exact .cons (by decide) (.cons ascii nofun)
  · obtain ⟨plain, -, high⟩ | long := writeChar_of_not_mem h
    · rw [plain]
      exact .cons (by omega) nofun
    · rw [long]
      exact .flatMap fun u _ => unicodeEscape_ascii u

theorem newline_ascii (indent : Option Nat) (depth : Nat) : Ascii (newline indent depth) := by
  cases indent with
  | none => exact nofun
  | some n =>
    refine .cons (by decide) fun c hc => ?_
    rw [List.eq_of_mem_replicate hc]
    decide

theorem separator_ascii (indent : Option Nat) (depth : Nat) : Ascii (separator indent depth) := by
  cases indent with
  | none => exact .cons (by decide) (.cons (by decide) nofun)
  | some n => exact .cons (by decide) (newline_ascii _ _)

theorem enclose_ascii {opening closing : Char} (ho : opening.toNat < 0x80)
    (hc : closing.toNat < 0x80) (indent : Option Nat) (depth : Nat) {ts : List (List Char)}
    (h : ∀ t ∈ ts, Ascii t) : Ascii (enclose indent depth opening closing ts) := by
  cases ts with
  | nil => exact .cons ho (.cons hc nofun)
  | cons t ts =>
    obtain ⟨first, others⟩ := List.forall_mem_cons.1 h
    rw [enclose_cons, more]
    refine .append (.append (.cons ho (newline_ascii _ _)) first) ?_
    refine .append (.append (.flatMap fun u hu => ?_) (newline_ascii _ _)) (.cons hc nofun)
    exact .append (separator_ascii _ _) (others u hu)

theorem writeString_ascii (s : List Char) : Ascii (writeString s) :=
  .cons (by decide) (.append (.flatMap fun c _ => writeChar_ascii c) (.cons (by decide) nofun))

mutual

theorem writeAt_ascii (indent : Option Nat) : ∀ (v : Json) (depth : Nat), Plain v →
    Ascii (writeAt indent depth v)
  | null, _, _ => by simp [Ascii, writeAt]
  | bool b, _, _ => by cases b <;> simp [Ascii, writeAt]
  | string s, _, _ => writeString_ascii s
  | array vs, depth, plain =>
    enclose_ascii (by decide) (by decide) indent depth (writeItems_ascii indent vs _ plain)
  | object ms, depth, plain =>
    enclose_ascii (by decide) (by decide) indent depth (writeMembers_ascii indent ms _ plain.2)

theorem writeItems_ascii (indent : Option Nat) : ∀ (vs : List Json) (depth : Nat), PlainItems vs →
    ∀ t ∈ writeItems indent depth vs, Ascii t
  | [], _, _ => nofun
  | v :: vs, depth, plain => List.forall_mem_cons.2
    ⟨writeAt_ascii indent v depth plain.1, writeItems_ascii indent vs depth plain.2⟩

theorem writeMembers_ascii (indent : Option Nat) : ∀ (ms : List (List Char × Json)) (depth : Nat),
    PlainMembers ms → ∀ t ∈ writeMembers indent depth ms, Ascii t
  | [], _, _ => nofun
  | m :: ms, depth, plain => List.forall_mem_cons.2
    ⟨.append (writeString_ascii m.1)
      (.cons (by decide) (.cons (by decide) (writeAt_ascii indent m.2 depth plain.1))),
      writeMembers_ascii indent ms depth plain.2⟩

end

end Json

end HaskellLexis
