import HaskellLexis.Proofs.Gates
import HaskellLexis.Proofs.Locality
import HaskellLexis.Proofs.Restarts

/-!
# Extensions that bring keywords

Ten of the extensions do nothing but turn words into keywords. Without one of
them its keywords are names again, and that is all, in a text without dots: a
keyword does not bind to the name of a module before it, but a name does. Where
such a keyword opened a block there are other virtual braces, but no lexeme
depends on these.

* `Extension.turnsWords`: the extensions;
* `Lexeme.without`: a lexeme as it is without one of them;
* `Alike`, `…_alike`: all scanners but that of names look at other extensions
  only;
* `Name.scan_without`, `Lexer.trace_without`: names, and with them all that a
  lexer delivers;
* `keywords_without`: a whole text.
-/

namespace HaskellLexis

/-- All that the extension does is to turn words into keywords. -/
def Extension.turnsWords : Extension → Bool
  | explicitForall | recursiveDo | typeFamilies | roleAnnotations | patternSynonyms
  | staticPointers | derivingStrategies | transformListComp | ffi | backpack => true
  | _ => false

/-- The keyword needs this one of the extensions that are on. -/
def Keyword.owes (on : Extensions) (e : Extension) (k : Keyword) : Bool :=
  k.needs.contains e && !k.needs.any fun e' => e' ≠ e && on e'

/-- The kind of a text without the extension: a keyword that no other one
brings is a name. -/
def Kind.without (on : Extensions) (e : Extension) (text : List Char) : Kind → Kind
  | .keyword k =>
    if text = k.spelling.toList ∧ k.owes on e = true then .name .varid else .keyword k
  | k => k

def Lexeme.without (on : Extensions) (e : Extension) (l : Lexeme) : Lexeme :=
  { l with kind := l.kind.without on e l.text }

/-- All lexemes of a text, the end last. -/
def lexemes (tokens : List Token) : List Lexeme := tokens.filterMap Token.lexeme?

/-- The sets differ only in extensions that turn words. -/
def Alike (on on' : Extensions) : Prop := ∀ e, e.turnsWords = false → on' e = on e

variable {on on' : Extensions} {site site' : Site} {c : Char} {r s : List Char} {e : Extension}

/-! ## Scanners that look at other extensions -/

theorem Bracket.scan_alike (h : Alike on on') (c : Char) (p : Punctuation) (r : List Char) :
    scan on' c p r = scan on c p r := by
  simp only [scan, scanRound, scanSquare, h .unboxedTuples rfl, h .arrows rfl,
    h .templateHaskell rfl, h .quasiQuotes rfl, h .parallelArrays rfl]

theorem Number.scan_alike (h : Alike on on') (c : Char) (r : List Char) :
    scan on' c r = scan on c r := by
  have letters : radix? on' = radix? on := by
    funext x
    simp only [radix?, h .binaryLiterals rfl]
  simp only [scan, body, hashCount, letters, h .numericUnderscores rfl, h .magicHash rfl]

namespace Literal

theorem hashed_alike (h : Alike on on') : hashed on' = hashed on := by
  funext s
  rw [hashed, hashed, h .magicHash rfl]

theorem scanString_alike (h : Alike on on') (r : List Char) :
    scanString on' r = scanString on r := by
  simp only [scanString, hashed_alike h]

theorem scanQuote_alike (h : Alike on on') (r : List Char) :
    scanQuote on' r = scanQuote on r := by
  have quoted : quotedName on' = quotedName on := by
    funext s
    rw [quotedName, quotedName, h .templateHaskell rfl]
  simp only [scanQuote, hashed_alike h, quoted]

end Literal

/-- No reserved operator needs an extension that turns words. -/
theorem ReservedOperator.ofRun?_alike (h : Alike on on') (run : List Char) :
    ofRun? on' run = ofRun? on run := by
  have table : ∀ p ∈ spellings, p.2.needs.all (!·.turnsWords) = true := by decide
  rw [ofRun?, ofRun?]
  cases found : listed? run with
  | none => rfl
  | some o =>
    have needs := table (run, o) (mem_of_lookup found)
    have active : o.active on' = o.active on := by
      unfold ReservedOperator.active
      cases gate : o.needs with
      | none => rfl
      | some e =>
        rw [gate] at needs
        exact h e (by simpa using needs)
    simp only [Option.filter_some, active]

theorem isLoose_of_before (before : site'.before = site.before) :
    site'.isLoose = site.isLoose := by
  rw [Site.isLoose, Site.isLoose, before]

theorem Operator.scan_alike (h : Alike site.on site'.on) (before : site'.before = site.before)
    (c : Char) (r : List Char) : scan site' c r = scan site c r := by
  have closer : closer? site'.on = closer? site.on := by
    funext s
    have table : ∀ m ∈ closers, m.2.2.turnsWords = false := by decide
    have same : (closers.find? fun m => m.1.isPrefixOf s && site'.on m.2.2) =
        closers.find? fun m => m.1.isPrefixOf s && site.on m.2.2 :=
      List.find?_congr fun m mem => by rw [h m.2.2 (table m mem)]
    exact congrArg (Option.map fun m => (m.2.1, m.1.length)) same
  have mark (run s : List Char) : mark? site'.on run s = mark? site.on run s := by
    simp only [mark?, h .templateHaskell rfl, h .implicitParams rfl, h .overloadedLabels rfl,
      h .lambdaCase rfl]
  have application (s : List Char) : isTypeApplication site' s = isTypeApplication site s := by
    rw [isTypeApplication, isTypeApplication, h .typeApplications rfl, isLoose_of_before before]
  have run (run s : List Char) : ofRun site' run s = ofRun site run s := by
    simp only [ofRun, ReservedOperator.ofRun?_alike h, application]
  simp only [scan, closer, mark, run]

namespace Lexeme

/-- Wherever no name begins, the same lexeme is found, or none for the same cause. -/
theorem scan_alike (h : Alike site.on site'.on) (inPragma : site'.inPragma = site.inPragma)
    (before : site'.before = site.before) (noName : startsName c = false) (r : List Char) :
    scan site' c r = scan site c r := by
  have doc := h .haddock rfl
  have braceDash : scanBraceDash site'.on r = scanBraceDash site.on r := by
    unfold scanBraceDash
    rw [Pragma.scan_documented doc, Comment.scanBlock_documented doc]
  have sign : isNegative site' c r = isNegative site c r := by
    rw [isNegative, isNegative, h .negativeLiterals rfl, isLoose_of_before before]
  have negative : scanNegative site'.on r = scanNegative site.on r := by
    simp only [scanNegative, Number.scan_alike h]
  unfold scan
  simp only [braceDash, Comment.scanLine_documented doc, inPragma, Bracket.scan_alike h,
    Literal.scanString_alike h, Literal.scanQuote_alike h, Number.scan_alike h, noName, sign,
    negative, Operator.scan_alike h before, Bool.false_eq_true, if_false]

end Lexeme

/-! ## Names -/

/-- The one set is the other without the extension. -/
def Lacks (on : Extensions) (e : Extension) (on' : Extensions) : Prop :=
  ∀ e', on' e' = (on e' && e' ≠ e)

theorem Lacks.alike (h : Lacks on e on') (words : e.turnsWords = true) : Alike on on' := by
  intro e' other
  have apart : e' ≠ e := by
    rintro rfl
    rw [words] at other
    cases other
  rw [h e', decide_eq_true apart, Bool.and_true]

namespace Keyword

variable {k : Keyword}

/-- A keyword that is on goes off just if it owes that to the extension. -/
theorem active_of_lacks (h : Lacks on e on') (k : Keyword) :
    k.active on' = (k.active on && !k.owes on e) := by
  have others : k.needs.any on' = k.needs.any fun e' => e' ≠ e && on e' := by
    congr
    funext e'
    rw [h e', Bool.and_comm]
  rw [active, active, owes, others]
  cases other : k.needs.any fun e' => e' ≠ e && on e' with
  | true =>
    obtain ⟨e', mem, both⟩ := List.any_eq_true.1 other
    have active : on e' = true := (Bool.and_eq_true_iff.1 both).2
    have some : k.needs.any on = true := List.any_eq_true.2 ⟨e', mem, active⟩
    simp [some]
  | false =>
    cases some : k.needs.any on with
    | false => cases needs : k.needs <;> rfl
    | true =>
      obtain ⟨e', mem, active⟩ := List.any_eq_true.1 some
      have own : e' = e := by
        have lone := List.any_eq_false.1 other e' mem
        simpa [active] using lone
      have brought : k.needs.contains e = true := List.contains_iff_mem.2 (own ▸ mem)
      rw [brought, List.isEmpty_eq_false_iff.2 (List.ne_nil_of_mem mem)]
      rfl

theorem ofWord?_without (h : Lacks on e on') (word : List Char) :
    ofWord? on' word = (ofWord? on word).filter (!·.owes on e) := by
  rw [ofWord?, ofWord?, Option.filter_filter]
  congr 1
  funext k
  rw [active_of_lacks h]

end Keyword

namespace Name

theorem scan_without (words : e.turnsWords = true) (h : Lacks site.on e site'.on)
    (inPragma : site'.inPragma = site.inPragma) (c : Char) (noDot : '.' ∉ r) :
    scan site' c r =
      ((scan site c r).1.without site.on e (c :: r.take (scan site c r).2), (scan site c r).2) := by
  have hashes : hashLength site' = hashLength site := by
    funext s
    rw [hashLength, hashLength, inPragma, h.alike words .magicHash rfl]
  have length : hashedWordLength site' = hashedWordLength site := by
    funext s
    rw [hashedWordLength, hashedWordLength, hashes]
  unfold scan
  split
  · have rest : ∀ d t, r.drop (wordLength r) ≠ '.' :: d :: t := by
      intro d t front
      apply noDot
      apply List.mem_of_mem_drop (i := wordLength r)
      rw [front]
      exact List.mem_cons_self
    have same : scanUpper site' r = scanUpper site r := by
      simp only [scanUpper, scanQualified_of_ne _ false rest, hashes]
    rw [same]
    rfl
  · unfold scanLower
    dsimp only
    rw [length, Keyword.ofWord?_without h]
    split
    · rfl
    · cases found : Keyword.ofWord? site.on (c :: r.take (hashedWordLength site r)) with
      | none => rfl
      | some k =>
        obtain ⟨word, -⟩ := Keyword.ofWord?_spelling found
        cases owes : k.owes site.on e <;> simp [Option.filter_some, Kind.without, word, owes]

end Name

namespace Lexeme

/-- What no name character begins is no keyword that an extension brings. -/
theorem without_of_noName (on : Extensions) (e : Extension) {k : Kind} {w : List Char}
    (noName : startsName c = false) : k.without on e (c :: w) = k := by
  unfold Kind.without
  split
  · rename_i k
    apply if_neg
    rintro ⟨spelled, -⟩
    have first : k.spelling.toList.head?.any startsName = true := by
      cases k <;> decide
    rw [← spelled, List.head?_cons, Option.any_some, noName] at first
    cases first
  · rfl

/-- One lexeme of a text without dots. -/
theorem scan_without (words : e.turnsWords = true) (h : Lacks site.on e site'.on)
    (inPragma : site'.inPragma = site.inPragma) (before : site'.before = site.before)
    (noDot : '.' ∉ r) :
    scan site' c r =
      (scan site c r).map fun p => (p.1.without site.on e (c :: r.take p.2), p.2) := by
  by_cases starts : startsName c = true
  · rw [scan_of_scanned (.name starts), scan_of_scanned (.name starts),
      Name.scan_without words h inPragma c noDot]
    rfl
  · have noName := Bool.eq_false_iff.2 starts
    rw [scan_alike (h.alike words) inPragma before noName]
    cases scan site c r with
    | error cause => rfl
    | ok p =>
      simp only [Except.map, without_of_noName site.on e noName]

end Lexeme

/-! ## Lexers -/

theorem pragmaAfter_without (x : Lexer) (on : Extensions) (e : Extension) (text : List Char)
    (k : Kind) : x.pragmaAfter (k.without on e text) = x.pragmaAfter k := by
  unfold Kind.without
  split
  · split <;> rfl
  · rfl

namespace Lexer

variable {x y : Lexer} {l : Lexeme} {out : List (Token × Lexer)} {config : Config}

/-- Cut without the extension, a lexeme differs in the kind alone, and the lexer
behind it in nothing. -/
theorem cut_without (x : Lexer) (config : Config) (e : Extension) (k : Kind) (n : Nat) :
    (x.under config).cut (k.without x.config.enabled e (x.rest.take n)) n =
      ((x.cut k n).1.without x.config.enabled e, (x.cut k n).2.under config) := by
  unfold cut
  rw [pragmaAfter_without]
  rfl

/-- What the lexer without the extension finds at the same place. -/
theorem scan_under {c : Char} {r : List Char} (words : e.turnsWords = true)
    (h : Lacks x.config.enabled e config.enabled) (noDot : '.' ∉ x.rest)
    (front : x.skipBlanks.rest = c :: r) :
    Lexeme.scan (x.under config).skipBlanks.site c r = (Lexeme.scan x.skipBlanks.site c r).map
      fun p => (p.1.without x.config.enabled e (c :: r.take p.2), p.2) := by
  have rest : '.' ∉ r := by
    intro dot
    apply noDot
    apply (skipBlanks_suffix x).subset
    rw [front]
    exact List.mem_cons_of_mem c dot
  have lacks : Lacks x.skipBlanks.site.on e (x.under config).skipBlanks.site.on := h
  exact Lexeme.scan_without words lacks rfl rfl rest

/-- Where one lexer takes a lexeme, so does the one without the extension. Behind
it the two differ in no more than the layout. -/
theorem step_without (words : e.turnsWords = true) (h : Lacks x.config.enabled e config.enabled)
    (noDot : '.' ∉ x.rest) (step : Step x l out y) :
    ∃ (z : Lexer) (lay lay' : Layout) (out' : List (Token × Lexer)), y = z.withLayout lay ∧
      Step (x.under config) (l.without x.config.enabled e) out'
        ((z.under config).withLayout lay') := by
  obtain ⟨front, scanned, cut⟩ := step
  rename_i c r k n z
  have scanned' := scan_under words h noDot front
  rw [scanned] at scanned'
  have cut' : (x.under config).skipBlanks.cut (k.without x.config.enabled e (c :: r.take n))
      (n + 1) = (l.without x.config.enabled e, z.under config) := by
    have both := x.skipBlanks.cut_without config e k (n + 1)
    rw [front, List.take_succ_cons, cut] at both
    exact both
  have step' := Step.take (x := x.under config) front scanned' cut'
  obtain ⟨-, -, lay, -, same⟩ := emit_shape z l
  obtain ⟨-, -, lay', -, same'⟩ := emit_shape (z.under config) (l.without x.config.enabled e)
  rw [same'] at step'
  exact ⟨z, lay, lay', _, same, step'⟩

theorem lexemes_of_halts (h : x.Halts) (on : Extensions) (e : Extension) :
    (lexemes x.trace.items).map (Lexeme.without on e) = lexemes x.trace.items := by
  have ends : ∀ l ∈ lexemes x.trace.items, l.kind = .endOfText := by
    intro l mem
    simpa using List.filter_eq_nil_iff.1 (located_of_halts h) l mem
  apply (List.map_congr_left (g := id) fun l mem => ?_).trans (List.map_id _)
  obtain ⟨kind, span, text⟩ := l
  obtain rfl : kind = .endOfText := ends _ mem
  rfl

/-- All that is delivered, step by step, with the layout left aside. -/
theorem trace_without (words : e.turnsWords = true) (h : Lacks x.config.enabled e config.enabled)
    (noDot : '.' ∉ x.rest) :
    lexemes (x.under config).trace.items =
        (lexemes x.trace.items).map (Lexeme.without x.config.enabled e) ∧
      (x.under config).trace.error? = x.trace.error? := by
  generalize hn : x.rest.length = n
  induction n using Nat.strongRecOn generalizing x with
  | ind n ih =>
    obtain ⟨l, out, y, step⟩ | halts := x.step_or_halts
    · have shorter := step_shorter step
      have behind := suffix_of_step step
      have same := config_of_step step
      obtain ⟨items, error⟩ := trace_of_step step
      have delivered := step_lexemes step
      obtain ⟨z, lay, lay', out', rfl, step'⟩ := step_without words h noDot step
      obtain ⟨items', error'⟩ := trace_of_step step'
      have delivered' := step_lexemes step'
      obtain ⟨plain, ends⟩ := z.lexemes_withLayout lay
      obtain ⟨plain', ends'⟩ := (z.under config).lexemes_withLayout lay'
      have kept : z.config = x.config := same
      rw [← kept] at h delivered' ⊢
      obtain ⟨more, failure⟩ := ih z.rest.length (hn ▸ shorter) h
        (fun dot => noDot (behind.subset dot)) rfl
      constructor
      · rw [items, items', lexemes, lexemes, List.filterMap_append, List.filterMap_append,
          delivered, delivered', plain, plain', List.map_append]
        exact congrArg _ more
      · rw [error, error', ends, ends', failure]
    · have refused : ∀ c r cause, x.skipBlanks.rest = c :: r →
          Lexeme.scan x.skipBlanks.site c r = .error cause →
            Lexeme.scan (x.skipBlanks.under config).site c r = .error cause := by
        intro c r cause front scanned
        have scanned' := scan_under words h noDot front
        rw [scanned] at scanned'
        exact scanned'
      obtain ⟨items, error⟩ := halts_under halts refused
      rw [items, lexemes_of_halts halts]
      exact ⟨rfl, error⟩

end Lexer

/-- **Without an extension its keywords are names.** Without one of the extensions
that do no more than turn words into keywords, a text that has no dot gives the same
error, or the same lexemes but for the keywords that no other extension brings:
these are names. -/
theorem keywords_without {config : Config} {text : List Char} (words : e.turnsWords = true)
    (noDot : '.' ∉ text) :
    (lex (config.without [e]) text).map lexemes =
      (lex config text).map fun tokens =>
        (lexemes tokens).map (Lexeme.without config.enabled e) := by
  have lacks : Lacks config.enabled e (config.without [e]).enabled := by
    intro e'
    simp [Config.without]
  obtain ⟨items, error⟩ := Lexer.trace_without (x := Lexer.start config text) words lacks noDot
  change lexemes (Lexer.start (config.without [e]) text).trace.items = _ at items
  change (Lexer.start (config.without [e]) text).trace.error? = _ at error
  rw [lex, lex, Trace.result, Trace.result, error]
  cases (Lexer.start config text).trace.error? with
  | none => exact congrArg Except.ok items
  | some failure => rfl

/-- Without its extension `mdo` opens no block, but `rec`, which arrows bring too,
still does. -/
theorem keywords_without_recursion :
    let text := ['m', 'd', 'o', ' ', 'r', 'e', 'c']
    let word (k : Kind) (start stop : Int) (text : List Char) : Token :=
      .lexeme ⟨k, ⟨⟨1, start⟩, ⟨1, stop⟩⟩, text⟩
    let mdo (k : Kind) : Token := word k 1 4 ['m', 'd', 'o']
    let rec' : Token := word (.keyword .recKw) 5 8 ['r', 'e', 'c']
    let last : Token := .lexeme (Lexeme.atEnd text)
    Extension.recursiveDo.turnsWords = true ∧ '.' ∉ text ∧
      lex .permissive text = .ok [mdo (.keyword .mdoKw), .virtual .opening, rec',
        .virtual .opening, .virtual .closing, .virtual .closing, last] ∧
      (lex (Config.permissive.without [.recursiveDo]) text).map lexemes =
        .ok (lexemes [mdo (.name .varid), rec', last]) := by
  intro text word mdo rec' last
  have noDot : '.' ∉ text := by decide
  have h : lex .permissive text = .ok [mdo (.keyword .mdoKw), .virtual .opening, rec',
      .virtual .opening, .virtual .closing, .virtual .closing, last] := by decide +kernel
  refine ⟨rfl, noDot, h, ?_⟩
  rw [keywords_without (e := .recursiveDo) rfl noDot, h]
  rfl

end HaskellLexis
