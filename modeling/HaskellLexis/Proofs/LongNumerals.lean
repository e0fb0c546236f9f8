import HaskellLexis.Proofs.Failure
import HaskellLexis.Proofs.Progress
import HaskellLexis.Proofs.Strings

/-!
# Where the lexer gives up

A decimal numeral that is too long to be read stops the lexer, and nothing else
does that is no error of the text. Only behind a backslash a numeral is read at
all, in a string or at the front of a character.

* `Stuck`: the lexemes that cannot be read to their end for such a numeral;
* `scan_eq_numeral_iff`: the scanner gives up at these and no others;
* `lex_eq_numeral_iff`: a text is given up where the lexer comes to one of them;
* `overlong_of_lex`, `lex_overlong`: the numeral stands in the text, and behind a
  quote and a backslash it is enough.
-/

namespace HaskellLexis

variable {on : Extensions} {c : Char} {r s t text : List Char} {o : NumeralError}

open Literal in
/-- A string or a character, up to a numeral that is too long to be read, and
whatever follows. -/
inductive Stuck (o : NumeralError) : List Char → Prop where
  | string {r : List Char} (long : Exceeds o r) : Stuck o ('"' :: r)
  | character {s : List Char} (long : Overlong o s) : Stuck o ('\'' :: '\\' :: s)

namespace Literal

/-- A numeral that is too long stands somewhere behind a backslash. -/
def HoldsOverlong (o : NumeralError) (text : List Char) : Prop :=
  ∃ s, '\\' :: s <:+ text ∧ Overlong o s

theorem HoldsOverlong.mono (h : HoldsOverlong o s) (behind : s <:+ t) : HoldsOverlong o t := by
  obtain ⟨u, place, long⟩ := h
  exact ⟨u, place.trans behind, long⟩

/-- So a short text holds none. -/
theorem HoldsOverlong.length_lt (h : HoldsOverlong o text) :
    NumeralError.maxDigits < text.length := by
  obtain ⟨s, place, run, many⟩ := h
  have behind := place.length_le
  have inside := runLength_le isDigit s
  rw [List.length_cons] at behind
  omega

theorem Exceeds.holds (h : Exceeds o r) : HoldsOverlong o r := by
  induction h with
  | numeral here => exact ⟨_, List.suffix_refl _, here⟩
  | plain _ _ ih => exact ih.mono (List.suffix_cons _ _)
  | escape _ _ _ ih => exact ih.mono ((List.suffix_append _ _).trans (List.suffix_cons _ _))

theorem charBody_eq_numeral_iff :
    charBody r = .error (.numeral o) ↔ ∃ s, r = '\\' :: s ∧ Overlong o s := by
  constructor
  · intro h
    unfold charBody at h
    split at h
    · exact ⟨_, rfl, escapeLength_eq_numeral_iff.1 (error_of_map h)⟩
    · cases h
    · cases h
  · rintro ⟨s, rfl, long⟩
    rw [charBody, escapeLength_eq_numeral_iff.2 long]
    rfl

theorem quotedName_ne_numeral : quotedName on r ≠ .error (.numeral o) := by
  intro h
  unfold quotedName at h
  split at h <;> cases h

theorem scanQuote_eq_numeral_iff :
    scanQuote on r = .error (.numeral o) ↔ ∃ s, r = '\\' :: s ∧ Overlong o s := by
  rw [← charBody_eq_numeral_iff]
  constructor
  · intro h
    obtain body | ⟨n, -, found⟩ := error_of_bind h
    · exact body
    split at found
    · exact absurd found quotedName_ne_numeral
    split at found
    · split at found
      · cases found
      · split at found <;> cases found
    · exact absurd found quotedName_ne_numeral
  · intro h
    rw [scanQuote, h]
    rfl

end Literal

theorem Stuck.exists_cons (h : Stuck o t) : ∃ c r, t = c :: r := by
  cases h with
  | string | character => exact ⟨_, _, rfl⟩

theorem Stuck.holds (h : Stuck o t) : Literal.HoldsOverlong o t := by
  cases h with
  | string long => exact long.holds.mono (List.suffix_cons _ _)
  | character long => exact ⟨_, List.suffix_cons _ _, long⟩

/-! ## What the other scanners say -/

namespace Pragma

theorem scanWhole_ne_numeral (k : Kind) : scanWhole k s ≠ .error (.numeral o) := by
  intro h
  unfold scanWhole at h
  split at h <;> cases h

theorem scan_ne_numeral : scan on s ≠ .error (.numeral o) := by
  intro h
  unfold scan at h
  split at h
  · exact absurd h (scanWhole_ne_numeral _)
  · cases h
  · exact absurd h (scanWhole_ne_numeral _)

end Pragma

theorem Comment.scanBlock_ne_numeral : scanBlock on r ≠ .error (.numeral o) := by
  intro h
  unfold scanBlock at h
  split at h <;> cases h

theorem Quotation.scanQuasi_ne_numeral {result : Except LexCause (Quotation × Nat)}
    (h : scanQuasi? s = some result) : result ≠ .error (.numeral o) := by
  obtain ⟨q, -, rfl⟩ := Option.map_eq_some_iff.1 h
  intro failed
  dsimp only at failed
  split at failed <;> cases failed

namespace Bracket

theorem scanSquare_ne_numeral : scanSquare on r ≠ .error (.numeral o) := by
  intro h
  simp only [scanSquare] at h
  split at h
  · cases h
  split at h
  · rename_i found
    split at found
    · exact absurd (error_of_map h) (Quotation.scanQuasi_ne_numeral found)
    · cases found
  · split at h <;> cases h

theorem scan_ne_numeral (p : Punctuation) : scan on c p r ≠ .error (.numeral o) := by
  intro h
  unfold scan at h
  split at h
  · cases h
  split at h
  · exact absurd h scanSquare_ne_numeral
  · cases h

end Bracket

/-! ## What the lexer says -/

namespace Lexeme

variable {site : Site}

theorem ite_ne {α : Type} {p : Prop} [Decidable p] {x y z : α} (pos : x ≠ z) (neg : y ≠ z) :
    (if p then x else y) ≠ z := by
  split
  · exact pos
  · exact neg

theorem scanBraceDash_ne_numeral : scanBraceDash on r ≠ .error (.numeral o) := by
  intro h
  unfold scanBraceDash at h
  split at h
  · exact absurd h Pragma.scan_ne_numeral
  · exact absurd (error_of_map h) Comment.scanBlock_ne_numeral

/-- Lexemes without quotes hold no numerals that are read. -/
theorem scan_ne_numeral (noDouble : c ≠ '"') (noSingle : c ≠ '\'') :
    scan site c r ≠ .error (.numeral o) := by
  have taken (p : Kind × Nat) : Except.ok p ≠ .error (LexCause.numeral o) := by
    intro h
    cases h
  unfold scan
  refine ite_ne scanBraceDash_ne_numeral (ite_ne (taken _) (ite_ne (taken _) ?_))
  cases Punctuation.ofChar? c with
  | some p => exact Bracket.scan_ne_numeral p
  | none =>
    dsimp only
    rw [if_neg noDouble, if_neg noSingle]
    refine ite_ne (taken _) (ite_ne (taken _) (ite_ne (taken _) (ite_ne (taken _) ?_)))
    refine ite_ne ?_ (taken _)
    intro h
    cases h

theorem scan_eq_numeral_iff : scan site c r = .error (.numeral o) ↔ Stuck o (c :: r) := by
  constructor
  · intro h
    by_cases double : c = '"'
    · subst double
      rw [scan_string] at h
      exact .string (Literal.scanString_eq_numeral_iff.1 h)
    by_cases single : c = '\''
    · subst single
      rw [scan_character] at h
      obtain ⟨s, rfl, long⟩ := Literal.scanQuote_eq_numeral_iff.1 h
      exact .character long
    exact absurd h (scan_ne_numeral double single)
  · rintro (long | long)
    · rw [scan_string]
      exact Literal.scanString_eq_numeral_iff.2 long
    · rw [scan_character]
      exact Literal.scanQuote_eq_numeral_iff.2 ⟨_, rfl, long⟩

end Lexeme

/-- Nothing but a numeral is reported as one. -/
theorem LexFailure.cause_of_report {config : Config} {f : LexFailure}
    (h : f.report config = .numeral o) : f.cause = .numeral o := by
  unfold report LexStop.ofCause at h
  split at h
  · rename_i cause
    rw [cause, LexStop.numeral.inj h]
  · cases h

open Lexer

/-- **Where the lexer gives up.** A text is given up just if the lexer, some
lexemes taken, comes to a string or a character that it cannot read to its end
for a numeral that is too long. -/
theorem lex_eq_numeral_iff {config : Config} :
    lex config text = .error (.numeral o) ↔
      ∃ ls out x, Run (start config text) ls out x ∧ Stuck o x.skipBlanks.rest := by
  constructor
  · intro h
    obtain ⟨ls, out, x, run, halts, -, error⟩ := exists_run (start config text)
    rw [lex, Trace.result, error] at h
    cases failed : x.trace.error? with
    | none =>
      rw [failed] at h
      cases h
    | some f =>
      rw [failed] at h
      have cause := LexFailure.cause_of_report (Except.error.inj h)
      obtain ⟨-, place⟩ := failure_of_halts halts failed
      rw [cause] at place
      obtain ⟨c, r, front, scanned, -⟩ | ⟨-, -, opened⟩ := place
      · refine ⟨ls, out, x, run, ?_⟩
        rw [front]
        exact Lexeme.scan_eq_numeral_iff.1 scanned
      · cases opened
  · rintro ⟨ls, out, x, run, stuck⟩
    obtain ⟨c, r, front⟩ := stuck.exists_cons
    rw [front] at stuck
    have failed := trace_of_failed front (Lexeme.scan_eq_numeral_iff.2 stuck)
    exact lex_of_failed_run run failed.2

theorem overlong_of_lex {config : Config}
    (h : lex config text = .error (.numeral o)) : Literal.HoldsOverlong o text := by
  obtain ⟨ls, out, x, run, stuck⟩ := lex_eq_numeral_iff.1 h
  exact stuck.holds.mono (x.skipBlanks_suffix.trans (run_within run).1)

/-- A string that begins with a numeral that is too long, whatever follows. -/
theorem lex_overlong (config : Config) (long : Literal.Overlong o s) :
    lex config ('"' :: '\\' :: s) = .error (.numeral o) := by
  refine lex_eq_numeral_iff.2 ⟨[], [], _, .stay _, ?_⟩
  exact .string (.numeral long)

theorem Literal.overlong_ones {n : Nat} (many : NumeralError.maxDigits < n)
    (stops : s.head?.any isDigit = false) : Overlong ⟨n⟩ (List.replicate n '1' ++ s) := by
  have digits : ∀ d ∈ List.replicate n '1', isDigit d = true := by
    intro d mem
    rw [List.eq_of_mem_replicate mem]
    rfl
  have long := overlong_of_digits digits stops (many.trans_eq List.length_replicate.symm)
  rwa [List.length_replicate] at long

end HaskellLexis
