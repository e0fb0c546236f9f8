import HaskellLexis.Proofs.Single
import HaskellLexis.Proofs.Strings

/-!
# Characters that stand for themselves

A character without a backslash stands for itself between single quotes as it
does in a string. Strings refuse a few more: the blanks besides the line feed
that end a line or a page.

* `Literal.IsRaw`, `Literal.isFeed`: characters that need no backslash, and the
  blanks that strings refuse;
* `lexesAs_string_iff`, `lexesAs_char_iff`: what each of the two scanners asks
  of such characters;
* `raw_characters`: how far the two agree.
-/

namespace HaskellLexis

variable {on : Extensions} {config : Config} {c : Char} {r t u w : List Char}

namespace Literal

/-- The character needs no backslash, neither in a string nor between single
quotes. -/
def IsRaw (c : Char) : Prop := c ≠ '"' ∧ c ≠ '\'' ∧ c ≠ '\\'

instance (c : Char) : Decidable (IsRaw c) :=
  inferInstanceAs (Decidable (c ≠ '"' ∧ c ≠ '\'' ∧ c ≠ '\\'))

/-- Blanks that end a line or a page, but for the line feed. -/
def isFeed (c : Char) : Bool := c = '\r' || c = '\x0c' || c = '\x0b'

/-- What stands between single quotes. -/
def isQuotable (c : Char) : Bool := c ≠ '\n' && !isControl c

theorem isPlainChar_of_raw (raw : IsRaw c) :
    isPlainChar c = true ↔ isQuotable c = true ∧ isFeed c = false := by
  obtain ⟨noDouble, -, noBackslash⟩ := raw
  rw [isPlainChar_iff]
  simp [noDouble, noBackslash, isStringBreak, isQuotable, isFeed]
  tauto

theorem isQuotable_of_isFeed (h : isFeed c = true) : isQuotable c = true := by
  simp only [isFeed, Bool.or_eq_true, decide_eq_true_eq] at h
  obtain (rfl | rfl) | rfl := h <;> decide

/-- Without quotes and backslashes a string has nothing but plain characters. -/
theorem plain_of_completes (raw : ∀ c ∈ w, IsRaw c) (h : Completes t (w ++ u)) :
    ∀ c ∈ w, isPlainChar c = true := by
  obtain ⟨closed, front⟩ := h
  induction w generalizing t with
  | nil => exact List.forall_mem_nil _
  | cons c w ih =>
    obtain ⟨noDouble, -, noBackslash⟩ := raw c List.mem_cons_self
    cases closed with
    | close => exact absurd (List.cons_prefix_cons.1 front).1.symm noDouble
    | escape => exact absurd (List.cons_prefix_cons.1 front).1.symm noBackslash
    | plain ok more =>
      obtain ⟨rfl, rest⟩ := List.cons_prefix_cons.1 front
      have inner := ih (fun d mem => raw d (List.mem_cons_of_mem _ mem)) more rest
      exact List.forall_mem_cons.2 ⟨ok, inner⟩

theorem scanString_iff (raw : ∀ c ∈ w, IsRaw c) :
    scanString on (w ++ ['"']) = .ok (.literal .string, (w ++ ['"']).length) ↔
      ∀ c ∈ w, isPlainChar c = true := by
  constructor
  · intro h
    obtain ⟨⟨t, completes, -⟩, -⟩ := completes_of_scanString h
    exact plain_of_completes raw completes
  · intro plain
    have length : stringLength 0 (w ++ ['"']) = .ok (w ++ ['"']).length := by
      rw [stringLength_plains (List.all_eq_true.2 plain), List.length_append]
      exact congrArg Except.ok (Nat.add_comm _ _)
    have unhashed : hashed on ((w ++ ['"']).drop (w ++ ['"']).length) = false := by
      rw [List.drop_length, hashed]
      exact Bool.and_false _
    rw [scanString, length]
    change Except.ok (if hashed on _ = true then _ else _) = _
    rw [unhashed]
    rfl

/-- Behind the one character the closing quote is all that is left. -/
theorem scanQuote_raw (raw : IsRaw c) :
    scanQuote on [c, '\''] =
      if c = '\n' then quotedName on [c, '\'']
      else if isControl c then .error (.literalCharacter (some c))
      else .ok (.literal .char, 2) := by
  obtain ⟨-, noSingle, noBackslash⟩ := raw
  unfold scanQuote
  rw [charBody_cons noBackslash]
  by_cases feed : c = '\n'
  · simp [feed, bind, Except.bind]
  · cases control : isControl c <;>
      simp [noSingle, feed, Option.filter_some, control, hashed, bind, Except.bind]

theorem scanQuote_iff (raw : IsRaw c) :
    scanQuote on [c, '\''] = .ok (.literal .char, [c, '\''].length) ↔ isQuotable c = true := by
  rw [scanQuote_raw raw, isQuotable]
  split
  · rename_i feed
    exact iff_of_false quotedName_ne_literal (by simp [feed])
  · rename_i noFeed
    split
    · rename_i control
      exact iff_of_false nofun (by simp [control])
    · rename_i noControl
      exact iff_of_true rfl (by simpa [noFeed] using noControl)

end Literal

theorem lexesAs_string_iff (raw : ∀ c ∈ w, Literal.IsRaw c) :
    LexesAs config ('"' :: (w ++ ['"'])) (.literal .string) ↔
      ∀ c ∈ w, Literal.isPlainChar c = true := by
  have last : ('"' :: (w ++ ['"'])).getLast? = some '"' := getLast?_behind rfl ('"' :: w)
  rw [lexesAs_iff (by decide) last (by decide) fun _ => Kind.noConfusion, Lexer.scan_quote]
  exact Literal.scanString_iff raw

theorem lexesAs_char_iff (raw : Literal.IsRaw c) :
    LexesAs config ['\'', c, '\''] (.literal .char) ↔ Literal.isQuotable c = true := by
  have last : ['\'', c, '\''].getLast? = some '\'' := rfl
  rw [lexesAs_iff (by decide) last (by decide) fun _ => Kind.noConfusion,
    Lexeme.scan_character]
  exact Literal.scanQuote_iff raw

/-- **Strings and character literals take the same characters.** A text without
quotes and backslashes is a string between double quotes just if each of its
characters is a literal between single ones, and none is a blank that ends a
line or a page: such a blank is a character literal, but in no string. -/
theorem raw_characters (raw : ∀ c ∈ w, Literal.IsRaw c) :
    (LexesAs config ('"' :: (w ++ ['"'])) (.literal .string) ↔
      (∀ c ∈ w, LexesAs config ['\'', c, '\''] (.literal .char)) ∧
        ∀ c ∈ w, Literal.isFeed c = false) ∧
      ∀ c, Literal.isFeed c = true → LexesAs config ['\'', c, '\''] (.literal .char) := by
  constructor
  · rw [lexesAs_string_iff raw, ← forall₂_and]
    apply forall₂_congr
    intro c mem
    rw [lexesAs_char_iff (raw c mem)]
    exact Literal.isPlainChar_of_raw (raw c mem)
  · intro c feed
    have free : Literal.IsRaw c := by
      simp only [Literal.isFeed, Bool.or_eq_true, decide_eq_true_eq] at feed
      obtain (rfl | rfl) | rfl := feed <;> decide
    exact (lexesAs_char_iff free).2 (Literal.isQuotable_of_isFeed feed)

/-- A tab and a carriage return are both character literals, but the return
keeps the two from being a string. -/
theorem raw_characters_return :
    let w := ['\t', '\r']
    (∀ c ∈ w, Literal.IsRaw c) ∧
      (∀ c ∈ w, LexesAs .permissive ['\'', c, '\''] (.literal .char)) ∧
      ¬LexesAs .permissive ('"' :: (w ++ ['"'])) (.literal .string) := by
  intro w
  have raw : ∀ c ∈ w, Literal.IsRaw c := by
    simp [w, Literal.IsRaw]
  obtain ⟨same, feeds⟩ := raw_characters raw
  have tab : LexesAs .permissive ['\'', '\t', '\''] (.literal .char) :=
    (lexesAs_char_iff (by decide)).2 (by decide)
  have carriage : LexesAs .permissive ['\'', '\r', '\''] (.literal .char) := feeds '\r' rfl
  refine ⟨raw, ?_, ?_⟩
  · simp [w, tab, carriage]
  · intro string
    have noFeed := (same.1 string).2 '\r' (by simp [w])
    cases noFeed

end HaskellLexis
