import HaskellLexis.Proofs.Failure
import HaskellLexis.Proofs.Locality
import HaskellLexis.Session

/-!
# An explicit configuration shields

Of a configuration only the extensions decide what a text lexes to. The name
of the source stands in front of a message and in the log, and warnings are
only logged. A call with a configuration of its own sees nothing of the one in
force.

* `LexError.named`: the same error in another source;
* `lex_named`: two configurations with the same extensions;
* `explicit_config_shields`: calls in any two sessions.
-/

namespace HaskellLexis

/-- The same error, of a source with another name or with none. -/
def LexError.named (source : Option String) (e : LexError) : LexError := { e with source }

def LexStop.named (source : Option String) : LexStop → LexStop
  | lexical e => lexical (e.named source)
  | numeral e => numeral e

def HighlightError.named (source : Option String) : HighlightError → HighlightError
  | lexical e => lexical (e.named source)
  | uncaught e => uncaught e

variable {config config' : Config} {text : List Char}

theorem LexFailure.report_named (config config' : Config) (f : LexFailure) :
    f.report config' = (f.report config).named config'.source? := by
  cases f with
  | mk cause position => cases cause <;> rfl

theorem lex_named (same : config'.enabled = config.enabled) :
    lex config' text = (lex config text).mapError (·.named config'.source?) := by
  have alike : (Lexer.start config text).Indifferent config' :=
    ⟨fun e _ => .inl (congrFun same e), .inl (congrFun same .haddock)⟩
  obtain ⟨items, error⟩ := Lexer.trace_under alike
  change (Lexer.start config' text).trace.items = _ at items
  change (Lexer.start config' text).trace.error? = _ at error
  rw [lex, lex, Trace.result, Trace.result, items, error]
  cases (Lexer.start config text).trace.error? with
  | none => rfl
  | some f => exact congrArg Except.error (f.report_named config config')

theorem lexSpans_named (same : config'.enabled = config.enabled) :
    (lexSpans config' text).value =
      (lexSpans config text).value.mapError (·.named config'.source?) := by
  have lexed' : (lexLogged config' text).value = _ := lex_named same
  have lexed : (lexLogged config text).value = lex config text := rfl
  simp only [lexSpans, lexed', lexed]
  cases lex config text <;> rfl

/-- Slicing takes the spans and the text alone. -/
theorem highlightPieces_named (same : config'.enabled = config.enabled) :
    (highlightPieces config' text).value =
      (highlightPieces config text).value.mapError (·.named config'.source?) := by
  simp only [highlightPieces, Logged.map, lexSpans_named same]
  cases (lexSpans config text).value with
  | error e => cases e <;> rfl
  | ok spans =>
    dsimp only [Except.mapError]
    cases (slice text spans).result <;> rfl

/-- A report begins with the name of the source, and what stands behind it does
not depend on that name. -/
theorem message_named {e : LexError} (failed : lex config text = .error (.lexical e))
    (config' : Config) :
    ∃ rest, e.message = LexError.sourceMark config ++ rest ∧
      (e.named config'.source?).message = LexError.sourceMark config' ++ rest := by
  rw [lex] at failed
  cases result : (Lexer.start config text).trace.result with
  | ok tokens =>
    rw [result] at failed
    cases failed
  | error f =>
    rw [result] at failed
    obtain rfl := LexFailure.eq_of_report (Except.error.inj failed)
    have assoc (mark : String) : mark ++ f.position.text ++ " " ++ f.cause.text =
        mark ++ (f.position.text ++ " " ++ f.cause.text) := by
      rw [String.append_assoc, String.append_assoc, String.append_assoc]
    refine ⟨f.position.text ++ " " ++ f.cause.text, ?_, ?_⟩
    · exact (LexError.message_ofCause config f.cause f.position).trans (assoc _)
    · exact (LexError.message_ofCause config' f.cause f.position).trans (assoc _)

/-- **An explicit configuration shields.** Whatever two sessions have in force,
calls with configurations of the same extensions come to the same: the same
tokens, spans and pieces, or an error that differs in the name of the source
and in that part of its message. With one and the same configuration the logs
are the same, too. -/
theorem explicit_config_shields (s s' : Session) (config config' : Config)
    (same : config'.enabled = config.enabled) (text : List Char) :
    (s'.tokens (some config') text).value =
        (s.tokens (some config) text).value.mapError (·.named config'.source?) ∧
      (s'.spans (some config') text).value =
        (s.spans (some config) text).value.mapError (·.named config'.source?) ∧
      (s'.tokenize (some config') text).2.value =
        (s.tokenize (some config) text).2.value.mapError (·.named config'.source?) ∧
      (∀ e, (s.tokens (some config) text).value = .error (.lexical e) →
        ∃ rest, e.message = LexError.sourceMark config ++ rest ∧
          (e.named config'.source?).message = LexError.sourceMark config' ++ rest) ∧
      (s'.tokens (some config) text).notices = (s.tokens (some config) text).notices ∧
      (s'.spans (some config) text).notices = (s.spans (some config) text).notices ∧
      (s'.tokenize (some config) text).2.notices = (s.tokenize (some config) text).2.notices :=
  ⟨lex_named same, lexSpans_named same, highlightPieces_named same,
    fun _ failed => message_named failed config', rfl, rfl, rfl⟩

/-- A tab and an open comment, in a session that has fewer extensions in force
than the call, and reported under two names. -/
theorem explicit_config_shields_open :
    let config : Config := { Config.permissive with warns := fun _ => true, sourceName := "M" }
    let s := Session.fresh.enter (Config.permissive.without Extension.all)
    let text := ['\t', '{', '-']
    let e : LexError := ⟨"unterminated \x60\x7b-'", some 1, some 9, some "M"⟩
    Config.permissive.enabled = config.enabled ∧
      (s.tokens (some config) text).value = .error (.lexical e) ∧
      (Session.fresh.tokens (some .permissive) text).value =
        .error (.lexical (e.named none)) ∧
      ∃ rest, e.message = LexError.sourceMark config ++ rest ∧
        (e.named none).message = LexError.sourceMark .permissive ++ rest := by
  intro config s text e
  have failed : (s.tokens (some config) text).value = .error (.lexical e) := by decide +kernel
  obtain ⟨values, -, -, messages, -⟩ :=
    explicit_config_shields s .fresh config .permissive rfl text
  refine ⟨rfl, failed, ?_, messages e failed⟩
  rw [values, failed]
  rfl

end HaskellLexis
