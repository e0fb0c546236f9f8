import HaskellLexis.Proofs.Scan

/-!
# Kinds of the lexemes of a text

No scanner ever makes the end of the text out of characters: whatever `scan`
cuts off has another kind. So the end of the text can be told from the lexemes
before it by its kind alone.

A type application is the one kind that what follows the lexeme decides; only
the scanner of operators gives it.
-/

namespace HaskellLexis

theorem ok_of_bind {ε α β : Type} {x : Except ε α} {f : α → Except ε β} {b : β}
    (h : x >>= f = .ok b) : ∃ a, x = .ok a ∧ f a = .ok b := by
  cases x with
  | error e => cases h
  | ok a => exact ⟨a, rfl, h⟩

theorem ok_of_map {ε α β : Type} {x : Except ε α} {f : α → β} {b : β}
    (h : x.map f = .ok b) : ∃ a, x = .ok a ∧ f a = b := by
  cases x with
  | error e => cases h
  | ok a => exact ⟨a, rfl, Except.ok.inj h⟩

theorem error_of_bind {ε α β : Type} {x : Except ε α} {f : α → Except ε β} {e : ε}
    (h : x >>= f = .error e) : x = .error e ∨ ∃ a, x = .ok a ∧ f a = .error e := by
  cases x with
  | error e => exact .inl (congrArg Except.error (Except.error.inj h))
  | ok a => exact .inr ⟨a, rfl, h⟩

theorem error_of_map {ε α β : Type} {x : Except ε α} {f : α → β} {e : ε}
    (h : x.map f = .error e) : x = .error e := by
  cases x with
  | error e => exact congrArg Except.error (Except.error.inj h)
  | ok a => cases h

theorem mem_of_lookup {α : Type} {rows : List (List Char × α)} {w : List Char} {a : α}
    (h : rows.lookup w = some a) : (w, a) ∈ rows := by
  obtain ⟨before, after, row, -⟩ := List.lookup_eq_some_iff.1 h
  rw [row]
  exact List.mem_append_right before List.mem_cons_self

/-- The text of the lexeme decides the kind, whatever stands around it. -/
def Kind.isIntrinsic : Kind → Bool
  | .endOfText | .typeApplication => false
  | _ => true

/-- Kinds of the lexemes that a brace and a dash open. -/
def Kind.isBraced : Kind → Bool
  | .comment _ | .openPragma _ | .optionsPragma | .includePragma => true
  | _ => false

/-- Kinds of reserved operators. -/
def Kind.isReserved : Kind → Bool
  | .operator _ | .typeApplication => true
  | _ => false

/-- Kinds that have to do with neither comments, pragmas nor reserved operators,
and that the text of the lexeme decides. -/
def Kind.isPlain : Kind → Bool
  | .comment _ | .openPragma _ | .closePragma | .optionsPragma | .includePragma => false
  | .endOfText | .operator _ | .typeApplication => false
  | _ => true

theorem Kind.exists_of_isComment {k : Kind} (h : k.isComment = true) :
    ∃ comment, k = .comment comment := by
  cases k with
  | comment comment => exact ⟨comment, rfl⟩
  | _ => cases h

theorem Kind.isIntrinsic_of_isBraced {k : Kind} (h : k.isBraced = true) : k.isIntrinsic = true := by
  cases k <;> first | rfl | cases h

theorem Kind.isIntrinsic_of_isPlain {k : Kind} (h : k.isPlain = true) : k.isIntrinsic = true := by
  cases k <;> first | rfl | cases h

theorem Kind.isBraced_of_isPlain {k : Kind} (h : k.isPlain = true) : k.isBraced = false := by
  cases k <;> first | rfl | cases h

theorem Kind.isBraced_of_isReserved {k : Kind} (h : k.isReserved = true) : k.isBraced = false := by
  cases k <;> first | rfl | cases h

theorem Kind.ne_end_of_isIntrinsic {k : Kind} (h : k.isIntrinsic = true) : k ≠ .endOfText := by
  rintro rfl
  cases h

theorem Kind.ne_end_of_isReserved {k : Kind} (h : k.isReserved = true) : k ≠ .endOfText := by
  rintro rfl
  cases h

theorem Kind.ne_close_of_isReserved {k : Kind} (h : k.isReserved = true) : k ≠ .closePragma := by
  rintro rfl
  cases h

theorem Kind.ne_close_of_isBraced {k : Kind} (h : k.isBraced = true) : k ≠ .closePragma := by
  rintro rfl
  cases h

theorem Kind.ne_close_of_isPlain {k : Kind} (h : k.isPlain = true) : k ≠ .closePragma := by
  rintro rfl
  cases h

variable {on : Extensions} {site : Site} {c : Char} {r s : List Char} {k : Kind} {n : Nat}

namespace Pragma

theorem whole?_braced {w : List Char} (h : whole? on w = some k) : k.isBraced = true := by
  simp only [whole?] at h
  split at h
  · cases h
    rfl
  · split at h
    · cases h
      rfl
    · split at h <;> cases h
      rfl

theorem whole?_of_shape {s : List Char} (h : shape on s = .whole k) :
    ∃ w, whole? on w = some k := by
  simp only [shape] at h
  split at h
  · rename_i hw
    cases h
    exact ⟨_, hw⟩
  · split at h
    · cases h
    · split at h <;> cases h

theorem shape_whole_braced {s : List Char} (h : shape on s = .whole k) :
    k.isBraced = true := by
  obtain ⟨w, whole⟩ := whole?_of_shape h
  exact whole?_braced whole

theorem scanWhole_kind {kind : Kind} (h : scanWhole kind s = .ok (k, n)) : k = kind := by
  simp only [scanWhole] at h
  split at h <;> cases h
  rfl

theorem scan_braced (h : scan on s = .ok (k, n)) : k.isBraced = true := by
  unfold scan at h
  split at h
  · rename_i kind hs
    rw [scanWhole_kind h]
    exact shape_whole_braced hs
  · cases h
    rfl
  · rw [scanWhole_kind h]
    rfl

end Pragma

namespace Bracket

theorem scanRound_plain : (scanRound on r).1.isPlain = true := by
  simp only [scanRound]
  split
  · rfl
  · split <;> rfl

theorem scanSquare_plain (h : scanSquare on r = .ok (k, n)) : k.isPlain = true := by
  simp only [scanSquare] at h
  split at h
  · cases h
    rfl
  · split at h
    · obtain ⟨a, -, hk⟩ := ok_of_map h
      cases hk
      rfl
    · split at h <;> cases h <;> rfl

theorem scan_plain {p : Punctuation} (h : scan on c p r = .ok (k, n)) :
    k.isPlain = true := by
  unfold scan at h
  split at h
  · have hk : (scanRound on r).1 = k := congrArg Prod.fst (Except.ok.inj h)
    exact hk ▸ scanRound_plain
  · split at h
    · exact scanSquare_plain h
    · cases h
      rfl

end Bracket

namespace Literal

theorem scanString_plain (h : scanString on r = .ok (k, n)) : k.isPlain = true := by
  obtain ⟨m, -, hk⟩ := ok_of_bind h
  split at hk <;> cases hk <;> rfl

theorem quotedName_plain (h : quotedName on r = .ok (k, n)) : k.isPlain = true := by
  simp only [quotedName] at h
  split at h
  · split at h <;> cases h <;> rfl
  · cases h

/-- A name behind a single quote is no literal. -/
theorem quotedName_ne_literal {l : Literal} : quotedName on r ≠ .ok (.literal l, n) := by
  unfold quotedName
  split
  · split <;> exact nofun
  · exact nofun

theorem scanQuote_plain (h : scanQuote on r = .ok (k, n)) : k.isPlain = true := by
  obtain ⟨m, -, hk⟩ := ok_of_bind h
  split at hk
  · exact quotedName_plain hk
  · split at hk
    · split at hk
      · cases hk
      · split at hk <;> cases hk <;> rfl
    · exact quotedName_plain hk

end Literal

namespace Name

theorem scan_plain : (scan site c r).1.isPlain = true := by
  simp only [scan, scanUpper, scanLower]
  split
  · rfl
  · split
    · rfl
    · split <;> rfl

end Name

namespace ReservedOperator

theorem mem_of_ofRun? {run : List Char} (h : ofRun? on run = some k) :
    ∃ p ∈ spellings, p.2.kind = k := by
  obtain ⟨o, ho, rfl⟩ := Option.map_eq_some_iff.1 h
  obtain ⟨hl, -⟩ := Option.filter_eq_some_iff.1 ho
  exact ⟨(run, o), mem_of_lookup hl, rfl⟩

theorem ofRun?_intrinsic {run : List Char} (h : ofRun? on run = some k) :
    k.isIntrinsic = true := by
  obtain ⟨p, mem, rfl⟩ := mem_of_ofRun? h
  have table : ∀ p ∈ spellings, p.2.kind.isIntrinsic = true := by decide
  exact table p mem

theorem ofRun?_kind {run : List Char} (h : ofRun? on run = some k) :
    k.isPlain = true ∨ k.isReserved = true := by
  obtain ⟨p, mem, rfl⟩ := mem_of_ofRun? h
  have table : ∀ p ∈ spellings, p.2.kind.isPlain = true ∨ p.2.kind.isReserved = true := by decide
  exact table p mem

end ReservedOperator

namespace Operator

theorem closer?_plain (h : closer? on s = some (k, n)) : k.isPlain = true := by
  obtain ⟨p, hp, hk⟩ := Option.map_eq_some_iff.1 h
  cases hk
  have table : ∀ p ∈ closers, p.2.1.isPlain = true := by decide
  exact table p (List.mem_of_find?_eq_some hp)

theorem scanSplice_plain {name paren : Quotation} (h : scanSplice name paren s = some (k, n)) :
    k.isPlain = true := by
  simp only [scanSplice] at h
  split at h
  · cases h
    rfl
  · split at h <;> cases h
    rfl
  · cases h

theorem mark?_plain {run : List Char} (h : mark? on run s = some (k, n)) :
    k.isPlain = true := by
  simp only [mark?] at h
  split at h
  · exact scanSplice_plain h
  · split at h
    · cases h
    · split at h
      · cases h
        rfl
      · split at h
        · cases h
          rfl
        · split at h <;> cases h
          rfl

theorem ofRun_kind {run : List Char} :
    (ofRun site run s).isPlain = true ∨ (ofRun site run s).isReserved = true := by
  simp only [ofRun]
  split
  · split <;> exact .inr rfl
  · rename_i hk
    exact ReservedOperator.ofRun?_kind hk
  · exact .inl rfl

theorem scan_kind :
    (scan site c r).1.isPlain = true ∨ (scan site c r).1.isReserved = true := by
  simp only [scan]
  split
  · rename_i h
    exact .inl (closer?_plain h)
  · split
    · rename_i h
      exact .inl (mark?_plain h)
    · exact ofRun_kind

end Operator

namespace Lexeme

theorem scanBraceDash_braced (h : scanBraceDash on r = .ok (k, n)) : k.isBraced = true := by
  simp only [scanBraceDash] at h
  split at h
  · exact Pragma.scan_braced h
  · obtain ⟨a, -, hk⟩ := ok_of_map h
    cases hk
    rfl

/-- Comments, pragmas and operators have scanners of their own; what the others
find is none of these. -/
theorem kind_of_scanned (h : Scanned site c r k n) :
    k.isPlain = true ∨ k.isReserved = true ∧ k = (Operator.scan site c r).1 ∨
      c = '{' ∧ r.head? = some '-' ∧ k.isBraced = true ∨
      Comment.startsLineComment (c :: r) = true ∧ (∃ comment, k = .comment comment) ∨
      site.inPragma = true ∧ k = .closePragma := by
  cases h with
  | braceDash opens ok =>
    exact .inr (.inr (.inl ⟨opens.1, opens.2, scanBraceDash_braced ok⟩))
  | lineComment starts => exact .inr (.inr (.inr (.inl ⟨starts, _, rfl⟩)))
  | closePragma inside => exact .inr (.inr (.inr (.inr ⟨inside, rfl⟩)))
  | bracket _ _ ok => exact .inl (Bracket.scan_plain ok)
  | string _ ok => exact .inl (Literal.scanString_plain ok)
  | quote _ ok => exact .inl (Literal.scanQuote_plain ok)
  | name => exact .inl Name.scan_plain
  | operator =>
    obtain plain | reserved := Operator.scan_kind
    · exact .inl plain
    · exact .inr (.inl ⟨reserved, rfl⟩)
  | number | negative | unknown => exact .inl rfl

/-- The first characters tell whether a comment or a pragma stands there. -/
theorem isBraced_iff (h : Scanned site c r k n) :
    k.isBraced = true ↔
      c = '{' ∧ r.head? = some '-' ∨ Comment.startsLineComment (c :: r) = true := by
  constructor
  · intro braced
    obtain plain | ⟨reserved, -⟩ | ⟨brace, dash, -⟩ | ⟨starts, -⟩ | ⟨-, rfl⟩ := kind_of_scanned h
    · rw [Kind.isBraced_of_isPlain plain] at braced
      cases braced
    · rw [Kind.isBraced_of_isReserved reserved] at braced
      cases braced
    · exact .inl ⟨brace, dash⟩
    · exact .inr starts
    · cases braced
  · have found := scan_of_scanned h
    unfold scan at found
    rintro (⟨rfl, dash⟩ | starts)
    · rw [if_pos (by simpa using dash)] at found
      exact scanBraceDash_braced found
    · have first := Comment.dash_of_startsLineComment starts
      subst first
      rw [if_neg (by simp), if_pos starts] at found
      cases found
      rfl

theorem scan_ne_end (h : scan site c r = .ok (k, n)) : k ≠ .endOfText := by
  obtain plain | ⟨reserved, -⟩ | ⟨-, -, braced⟩ | ⟨-, comment, rfl⟩ | ⟨-, rfl⟩ :=
    kind_of_scanned (scanned_of_scan h)
  · exact Kind.ne_end_of_isIntrinsic (Kind.isIntrinsic_of_isPlain plain)
  · exact Kind.ne_end_of_isReserved reserved
  · exact Kind.ne_end_of_isIntrinsic (Kind.isIntrinsic_of_isBraced braced)
  · exact Kind.noConfusion
  · exact Kind.noConfusion

/-- Only inside a pragma a lexeme can close one. -/
theorem inPragma_of_scan (h : scan site c r = .ok (.closePragma, n)) : site.inPragma = true := by
  obtain plain | ⟨reserved, -⟩ | ⟨-, -, braced⟩ | ⟨-, comment, eq⟩ | ⟨inside, -⟩ :=
    kind_of_scanned (scanned_of_scan h)
  · exact absurd rfl (Kind.ne_close_of_isPlain plain)
  · exact absurd rfl (Kind.ne_close_of_isReserved reserved)
  · exact absurd rfl (Kind.ne_close_of_isBraced braced)
  · cases eq
  · exact inside

end Lexeme

end HaskellLexis
