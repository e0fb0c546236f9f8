import HaskellLexis.Proofs.Progress

/-!
# Extensions gate kinds

What an extension brings is only found where the extension is on; where it is
off, the same characters make other lexemes.

* `Kind.needs`: the extensions that bring a kind, by how the lexeme is spelled;
* `Permits`: what a set of extensions asks of a lexeme;
* `…_available`, `…_gated`: what one of the scanners finds;
* `extensions_gate`: all that a lexer delivers, also before it fails.
-/

namespace HaskellLexis

/-! ## Gates -/

def isAscii (text : List Char) : Bool := text.all (·.toNat < 0x80)

def Operator.needs (ascii : Bool) : Operator → List Extension
  | tildeHash => [.magicHash]
  | leftTail | rightTail | leftDoubleTail | rightDoubleTail =>
    [if ascii then .arrows else .unicodeSyntax]
  | doubleColon | leftArrow | rightArrow | doubleArrow => if ascii then [] else [.unicodeSyntax]
  | _ => []

def Punctuation.needs : Punctuation → List Extension
  | openUnboxed | closeUnboxed => [.unboxedTuples]
  | openBanana | closeBanana => [.arrows]
  | openArray | closeArray => [.parallelArrays]
  | _ => []

def Quotation.needs : Quotation → List Extension
  | quasi | qualifiedQuasi => [.quasiQuotes]
  | _ => [.templateHaskell]

def Name.needs : Name → List Extension
  | implicitParam => [.implicitParams]
  | label => [.overloadedLabels]
  | _ => []

def Literal.needs : Literal → List Extension
  | primChar | primString | primInt | primWord | primFloat | primDouble => [.magicHash]
  | _ => []

def Comment.needs : Comment → List Extension
  | line | block => []
  | _ => [.haddock]

/-- The extensions of which one has to be on; with none listed the kind is
always there. One keyword and eight operators have a second spelling beyond
ASCII, and a single extension brings all of these. -/
def Kind.needs (ascii : Bool) : Kind → List Extension
  | keyword .forallKw => [if ascii then .explicitForall else .unicodeSyntax]
  | keyword k => k.needs
  | operator o => o.needs ascii
  | lambdaCase => [.lambdaCase]
  | punctuation p => p.needs
  | name n => n.needs
  | literal l => l.needs
  | quotation q => q.needs
  | typeApplication => [.typeApplications]
  | comment c => c.needs
  | openPragma _ | closePragma | optionsPragma | includePragma | unknown | endOfText => []

def Kind.available (on : Extensions) (ascii : Bool) (k : Kind) : Bool :=
  (k.needs ascii).isEmpty || (k.needs ascii).any on

def Kind.isNumeric : Kind → Bool
  | literal .char | literal .string | literal .primChar | literal .primString => false
  | literal _ => true
  | _ => false

/-- What the extensions that are on allow of a lexeme: its kind is one that they
bring, or that needs none, and a number has a sign only where numbers may. -/
structure Permits (on : Extensions) (k : Kind) (text : List Char) : Prop where
  kind : k.available on (isAscii text) = true
  sign : k.isNumeric = true → text.head? = some '-' → on .negativeLiterals = true

variable {on : Extensions} {site : Site} {a : Bool} {c : Char} {r s : List Char} {k : Kind}
  {n : Nat}

namespace Kind

theorem available_of_nil (h : k.needs a = []) : k.available on a = true := by
  rw [available, h]
  rfl

theorem available_of_single {e : Extension} (h : k.needs a = [e]) (active : on e = true) :
    k.available on a = true := by
  simp [available, h, active]

end Kind

/-! ## Comments and pragmas -/

theorem Comment.documentation?_available {comment : Comment}
    (h : documentation? on s = some comment) : (Kind.comment comment).available on a = true := by
  unfold documentation? at h
  split at h
  · rename_i active
    cases comment <;> first | rfl | exact Kind.available_of_single rfl active
  · cases h

theorem Comment.scanLine_available :
    (Kind.comment (scanLine on r).1).available on a = true := by
  have plain : (Kind.comment .line).available on a = true := rfl
  change (Kind.comment ((lineDocumentation? on r).getD line)).available on a = true
  cases documented : lineDocumentation? on r with
  | none => exact plain
  | some comment =>
    unfold lineDocumentation? at documented
    split at documented
    · cases documented
    · exact documentation?_available documented
    · cases documented

theorem Comment.scanBlock_available {comment : Comment} (h : scanBlock on r = .ok (comment, n)) :
    (Kind.comment comment).available on a = true := by
  unfold scanBlock at h
  split at h
  · cases h
    cases documented : documentation? on r.tail with
    | none => rfl
    | some comment => exact documentation?_available documented
  · cases h

namespace Pragma

theorem whole?_available {w : List Char} (h : whole? on w = some k) :
    k.available on a = true := by
  simp only [whole?] at h
  split at h
  · cases h
    rfl
  · split at h
    · cases h
      rfl
    · split at h
      · cases h
        split
        · rename_i active
          exact Kind.available_of_single rfl active
        · rfl
      · cases h

theorem scan_available (h : scan on s = .ok (k, n)) : k.available on a = true := by
  unfold scan at h
  split at h
  · rename_i kind hs
    obtain ⟨w, found⟩ := whole?_of_shape hs
    rw [scanWhole_kind h]
    exact whole?_available found
  · cases h
    rfl
  · rw [scanWhole_kind h]
    rfl

end Pragma

/-! ## Brackets and literals -/

namespace Bracket

theorem scanRound_available : (scanRound on r).1.available on a = true := by
  simp only [scanRound]
  split
  · rename_i h
    simp only [Bool.and_eq_true] at h
    exact Kind.available_of_single rfl h.1.2
  · split
    · rename_i h
      simp only [Bool.and_eq_true] at h
      exact Kind.available_of_single rfl h.1.2
    · rfl

theorem opener_needs {mark : List Char} {q : Quotation} (h : (mark, q) ∈ Quotation.openers) :
    q.needs = [.templateHaskell] := by
  have table : ∀ p ∈ Quotation.openers, p.2.needs = [.templateHaskell] := by decide
  exact table _ h

theorem scanQuasi?_needs {q : Quotation} (h : Quotation.scanQuasi? s = some (.ok (q, n))) :
    q.needs = [.quasiQuotes] := by
  obtain ⟨⟨qualified, m⟩, -, found⟩ := Option.map_eq_some_iff.1 h
  dsimp only at found
  split at found
  · cases found
    cases qualified <;> rfl
  · cases found

theorem scanSquare_available (h : scanSquare on r = .ok (k, n)) : k.available on a = true := by
  simp only [scanSquare] at h
  split at h
  · rename_i mark q opener
    cases h
    split at opener
    · rename_i active
      exact Kind.available_of_single (opener_needs (List.mem_of_find?_eq_some opener)) active
    · cases opener
  · split at h
    · rename_i result quasi
      obtain ⟨⟨q, m⟩, rfl, found⟩ := ok_of_map h
      cases found
      split at quasi
      · rename_i active
        exact Kind.available_of_single (scanQuasi?_needs quasi) active
      · cases quasi
    · split at h
      · rename_i array
        cases h
        exact Kind.available_of_single rfl (Bool.and_eq_true_iff.1 array).2
      · cases h
        rfl

theorem scan_available {p : Punctuation} (special : Punctuation.ofChar? c = some p)
    (h : scan on c p r = .ok (k, n)) : k.available on a = true := by
  unfold scan at h
  split at h
  · have hk : (scanRound on r).1 = k := congrArg Prod.fst (Except.ok.inj h)
    exact hk ▸ scanRound_available
  · split at h
    · exact scanSquare_available h
    · cases h
      unfold Punctuation.ofChar? at special
      split at special <;> cases special <;> rfl

end Bracket

namespace Literal

theorem hashed_on (h : hashed on s = true) : on .magicHash = true := (Bool.and_eq_true_iff.1 h).1

theorem scanString_available (h : scanString on r = .ok (k, n)) : k.available on a = true := by
  obtain ⟨m, -, found⟩ := ok_of_bind h
  split at found
  · rename_i hash
    cases found
    exact Kind.available_of_single rfl (hashed_on hash)
  · cases found
    rfl

theorem quotedName_available (h : quotedName on r = .ok (k, n)) : k.available on a = true := by
  simp only [quotedName] at h
  split at h
  · rename_i active
    split at h <;> cases h <;> exact Kind.available_of_single rfl active
  · cases h

theorem scanQuote_available (h : scanQuote on r = .ok (k, n)) : k.available on a = true := by
  obtain ⟨m, -, found⟩ := ok_of_bind h
  split at found
  · exact quotedName_available found
  · split at found
    · split at found
      · cases found
      · split at found
        · rename_i hash
          cases found
          exact Kind.available_of_single rfl (hashed_on hash)
        · cases found
          rfl
    · exact quotedName_available found

end Literal

theorem Number.scan_available :
    (Kind.literal (Number.scan on c r).1).available on a = true := by
  change (Kind.literal (Number.kind (body on c r).1 (hashCount on _))).available on a = true
  cases active : on .magicHash with
  | true =>
    unfold Number.kind
    split <;> first | rfl | exact Kind.available_of_single rfl active
  | false =>
    rw [hashCount, active]
    cases (body on c r).1 <;> rfl

/-! ## Names and operators -/

theorem Keyword.needs_kind (k : Keyword) : (Kind.keyword k).needs true = k.needs := by
  cases k <;> rfl

theorem Keyword.isAscii_spelling (k : Keyword) : isAscii k.spelling.toList = true := by
  cases k <;> decide

theorem Keyword.ofWord?_spelling {word : List Char} {k : Keyword}
    (h : ofWord? on word = some k) : word = k.spelling.toList ∧ k.active on = true := by
  obtain ⟨listed, active⟩ := Option.filter_eq_some_iff.1 h
  obtain ⟨k', -, eq⟩ := List.mem_map.1 (mem_of_lookup listed)
  cases eq
  exact ⟨rfl, active⟩

theorem Name.scanQualified_needs (q : Bool) : (scanQualified site q s).1.needs = [] := by
  induction s using qualified_induction generalizing q with
  | dot d r ih =>
    have stop : (if q then qconid else conid).needs = [] := by cases q <;> rfl
    rw [scanQualified_dot]
    dsimp only
    by_cases upper : startsUpper d = true
    · rw [if_pos upper]
      exact ih true
    rw [if_neg upper]
    split
    · split
      · exact stop
      · rfl
    · split
      · split
        · exact stop
        · split <;> rfl
      · exact stop
  | other s noDot =>
    rw [scanQualified_of_ne site q noDot]
    cases q <;> rfl

/-- A keyword is told by its whole word, which is never spelled beyond ASCII. -/
theorem Name.scan_available :
    (Name.scan site c r).1.available site.on (isAscii (c :: r.take (Name.scan site c r).2)) =
      true := by
  unfold scan
  split
  · change (Kind.name (scanQualified site false (r.drop (wordLength r))).1).available _ _ = true
    exact Kind.available_of_nil (scanQualified_needs false)
  · unfold scanLower
    dsimp only
    split
    · rfl
    · split
      · rename_i k found
        obtain ⟨word, active⟩ := Keyword.ofWord?_spelling found
        rw [word, Keyword.isAscii_spelling, Kind.available, Keyword.needs_kind]
        exact active
      · rfl

/-! An operator is never a number, and that is proved along with its gate. -/

namespace Operator

theorem closer?_gated (h : closer? on s = some (k, n)) :
    k.available on a = true ∧ k.isNumeric = false := by
  obtain ⟨⟨mark, kind, e⟩, found, eq⟩ := Option.map_eq_some_iff.1 h
  cases eq
  have table : ∀ m ∈ closers, m.2.1.needs a = [m.2.2] ∧ m.2.1.isNumeric = false := by
    cases a <;> decide
  obtain ⟨needs, symbolic⟩ : k.needs a = [e] ∧ k.isNumeric = false :=
    table _ (List.mem_of_find?_eq_some found)
  have marked := List.find?_some found
  exact ⟨Kind.available_of_single needs (Bool.and_eq_true_iff.1 marked).2, symbolic⟩

theorem splice?_needs {run : List Char} {name paren : Quotation}
    (h : splice? run = some (name, paren)) :
    name.needs = [.templateHaskell] ∧ paren.needs = [.templateHaskell] := by
  unfold splice? at h
  split at h
  · cases h
    exact ⟨rfl, rfl⟩
  · split at h <;> cases h
    exact ⟨rfl, rfl⟩

theorem scanSplice_gated {name paren : Quotation} (quoted : name.needs = [.templateHaskell])
    (quotedParen : paren.needs = [.templateHaskell]) (active : on .templateHaskell = true)
    (h : scanSplice name paren s = some (k, n)) :
    k.available on a = true ∧ k.isNumeric = false := by
  simp only [scanSplice] at h
  split at h
  · cases h
    exact ⟨Kind.available_of_single quotedParen active, rfl⟩
  · split at h <;> cases h
    exact ⟨Kind.available_of_single quoted active, rfl⟩
  · cases h

theorem mark?_gated {run : List Char} (h : mark? on run s = some (k, n)) :
    k.available on a = true ∧ k.isNumeric = false := by
  simp only [mark?] at h
  split at h
  · rename_i name paren splice
    split at splice
    · rename_i active
      obtain ⟨quoted, quotedParen⟩ := splice?_needs splice
      exact scanSplice_gated quoted quotedParen active h
    · cases splice
  · split at h
    · cases h
    · split at h
      · rename_i implicit
        cases h
        exact ⟨Kind.available_of_single rfl (Bool.and_eq_true_iff.1 implicit).2, rfl⟩
      · split at h
        · rename_i label
          cases h
          exact ⟨Kind.available_of_single rfl (Bool.and_eq_true_iff.1 label).2, rfl⟩
        · split at h
          · rename_i lambda
            cases h
            simp only [Bool.and_eq_true] at lambda
            exact ⟨Kind.available_of_single rfl lambda.1.2, rfl⟩
          · cases h

/-- The table of reserved operators asks for what their kinds need. -/
theorem ofRun?_gated {run : List Char} (h : ReservedOperator.ofRun? on run = some k) :
    k.available on (isAscii run) = true ∧ k.isNumeric = false := by
  obtain ⟨o, found, rfl⟩ := Option.map_eq_some_iff.1 h
  obtain ⟨listed, active⟩ := Option.filter_eq_some_iff.1 found
  have table : ∀ p ∈ ReservedOperator.spellings,
      p.2.kind.needs (isAscii p.1) = p.2.needs.toList ∧ p.2.kind.isNumeric = false := by decide
  obtain ⟨needs, symbolic⟩ := table (run, o) (mem_of_lookup listed)
  refine ⟨?_, symbolic⟩
  dsimp only at needs
  unfold ReservedOperator.active at active
  cases gate : o.needs with
  | none =>
    rw [gate] at needs
    exact Kind.available_of_nil needs
  | some e =>
    rw [gate] at needs active
    exact Kind.available_of_single needs active

theorem ofRun_gated {run : List Char} :
    (ofRun site run s).available site.on (isAscii run) = true ∧
      (ofRun site run s).isNumeric = false := by
  unfold ofRun
  split
  · rename_i reserved
    split
    · rename_i application
      simp only [isTypeApplication, Bool.and_eq_true] at application
      exact ⟨Kind.available_of_single rfl application.1.1, rfl⟩
    · exact ofRun?_gated reserved
  · rename_i reserved
    exact ofRun?_gated reserved
  · split <;> exact ⟨rfl, rfl⟩

theorem scan_gated :
    (scan site c r).1.available site.on (isAscii (c :: r.take (scan site c r).2)) = true ∧
      (scan site c r).1.isNumeric = false := by
  unfold scan
  split
  · rename_i closes
    exact closer?_gated closes
  · dsimp only
    split
    · rename_i marks
      exact mark?_gated marks
    · have whole : r.take (r.takeWhile isSymbol).length = r.takeWhile isSymbol :=
        take_runLength isSymbol r
      rw [whole]
      exact ofRun_gated

end Operator

/-! ## Lexemes -/

namespace Lexeme

theorem scanned_available (h : Scanned site c r k n) :
    k.available site.on (isAscii (c :: r.take n)) = true := by
  cases h with
  | braceDash opens ok =>
    unfold scanBraceDash at ok
    split at ok
    · exact Pragma.scan_available ok
    · obtain ⟨⟨comment, m⟩, found, eq⟩ := ok_of_map ok
      cases eq
      exact Comment.scanBlock_available found
  | lineComment => exact Comment.scanLine_available
  | bracket special _ ok => exact Bracket.scan_available special ok
  | string _ ok => exact Literal.scanString_available ok
  | quote _ ok => exact Literal.scanQuote_available ok
  | number => exact Number.scan_available
  | name => exact Name.scan_available
  | negative =>
    cases r with
    | nil => rfl
    | cons d s => exact Number.scan_available
  | operator => exact Operator.scan_gated.1
  | closePragma | unknown => rfl

/-- No scanner but that of negative numbers finds a number at a dash. -/
theorem scanned_sign (h : Scanned site '-' r k n) (numeric : k.isNumeric = true) :
    site.on .negativeLiterals = true := by
  cases h with
  | negative sign =>
    simp only [isNegative, Bool.and_eq_true] at sign
    exact sign.1.2
  | operator =>
    rw [Operator.scan_gated.2] at numeric
    cases numeric
  | braceDash opens => exact absurd opens.1 (by decide)
  | bracket special => cases special
  | string double => exact absurd double (by decide)
  | quote single => exact absurd single (by decide)
  | number digit => exact absurd digit (by decide)
  | name starts => exact absurd starts (by decide)
  | lineComment | closePragma | unknown => cases numeric

theorem scanned_permits (h : Scanned site c r k n) : Permits site.on k (c :: r.take n) where
  kind := scanned_available h
  sign numeric front := by
    obtain rfl : c = '-' := Option.some.inj front
    exact scanned_sign h numeric

end Lexeme

/-! ## Lexers -/

theorem permits_of_free {text : List Char} (free : ∀ a, k.needs a = [])
    (symbolic : k.isNumeric = false) : Permits on k text where
  kind := Kind.available_of_nil (free _)
  sign numeric := by
    rw [symbolic] at numeric
    cases numeric

theorem Lexer.permits_of_step {x y : Lexer} {l : Lexeme} {out : List (Token × Lexer)}
    (h : Step x l out y) : Permits x.config.enabled l.kind l.text := by
  obtain ⟨front, scanned, cut⟩ := h
  obtain ⟨rfl, -⟩ := Prod.mk.inj cut
  have permits := Lexeme.scanned_permits (Lexeme.scanned_of_scan scanned)
  rw [← List.take_succ_cons, ← front] at permits
  exact permits

open Lexer in
/-- **Extensions gate kinds.** Whatever a lexer delivers, to the end of its
text or up to where it fails, is permitted by the extensions that are on: its
kind is no other extension's, and if it is a number, it has a sign only where
numbers may have one. -/
theorem extensions_gate {config : Config} {text : List Char} {t : Token}
    (mem : t ∈ (start config text).trace.items) : Permits config.enabled t.kind t.text := by
  cases t with
  | virtual b => cases b <;> exact permits_of_free (fun _ => rfl) rfl
  | lexeme l =>
    change Permits config.enabled l.kind l.text
    by_cases last : l.kind = .endOfText
    · rw [last]
      exact permits_of_free (fun _ => rfl) rfl
    have delivered : l ∈ located (start config text).trace.items :=
      List.mem_filter.2 ⟨List.mem_filterMap.2 ⟨_, mem, rfl⟩, by simpa using last⟩
    obtain ⟨before, out, x, out', y, run, step⟩ := step_of_located delivered
    have permits := permits_of_step step
    rw [config_of_run run] at permits
    exact permits

/-- A negative number with a hash, under the two extensions that it takes. -/
theorem extensions_gate_negative :
    let config : Config := { Config.permissive with
      enabled := fun e => e = .negativeLiterals ∨ e = .magicHash }
    let t : Token := .lexeme ⟨.literal .primInt, ⟨⟨1, 1⟩, ⟨1, 4⟩⟩, ['-', '1', '#']⟩
    t ∈ (Lexer.start config ['-', '1', '#']).trace.items ∧
      Permits config.enabled t.kind t.text := by
  intro config t
  have mem : t ∈ (Lexer.start config ['-', '1', '#']).trace.items := by decide +kernel
  exact ⟨mem, extensions_gate mem⟩

/-- The arrow tails beyond ASCII do without arrow notation. -/
theorem tail_without_arrows :
    let config := Config.permissive.without [.arrows]
    config.enabled .arrows = false ∧
      ∃ t ∈ (Lexer.start config ['⤙']).trace.items, t.kind = .operator .leftTail := by
  decide +kernel

end HaskellLexis
