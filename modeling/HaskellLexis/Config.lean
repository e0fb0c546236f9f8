/-!
# Configurations

What the lexer accepts and what it reports. A configuration is a set of
language extensions, a set of warnings and the name of the source; the
permissive one, with every extension and no warning, is the default.
-/

namespace HaskellLexis

/-- Language extensions that change how a text is cut into lexemes. -/
inductive Extension where
  | magicHash
  | templateHaskell
  | quasiQuotes
  | arrows
  | unboxedTuples
  | parallelArrays
  | recursiveDo
  | explicitForall
  | typeFamilies
  | roleAnnotations
  | patternSynonyms
  | staticPointers
  | derivingStrategies
  | transformListComp
  | ffi
  | implicitParams
  | overloadedLabels
  | binaryLiterals
  | negativeLiterals
  | numericUnderscores
  | lambdaCase
  | unicodeSyntax
  | typeApplications
  | backpack
  | haddock
  deriving DecidableEq

namespace Extension

/-- In the order of their declaration. -/
def all : List Extension :=
  [magicHash, templateHaskell, quasiQuotes, arrows, unboxedTuples, parallelArrays, recursiveDo,
    explicitForall, typeFamilies, roleAnnotations, patternSynonyms, staticPointers,
    derivingStrategies, transformListComp, ffi, implicitParams, overloadedLabels, binaryLiterals,
    negativeLiterals, numericUnderscores, lambdaCase, unicodeSyntax, typeApplications, backpack,
    haddock]

theorem mem_all (e : Extension) : e ∈ all := by
  cases e <;> decide

def name : Extension → String
  | magicHash => "MAGIC_HASH"
  | templateHaskell => "TEMPLATE_HASKELL"
  | quasiQuotes => "QUASI_QUOTES"
  | arrows => "ARROWS"
  | unboxedTuples => "UNBOXED_TUPLES"
  | parallelArrays => "PARALLEL_ARRAYS"
  | recursiveDo => "RECURSIVE_DO"
  | explicitForall => "EXPLICIT_FORALL"
  | typeFamilies => "TYPE_FAMILIES"
  | roleAnnotations => "ROLE_ANNOTATIONS"
  | patternSynonyms => "PATTERN_SYNONYMS"
  | staticPointers => "STATIC_POINTERS"
  | derivingStrategies => "DERIVING_STRATEGIES"
  | transformListComp => "TRANSFORM_LIST_COMP"
  | ffi => "FFI"
  | implicitParams => "IMPLICIT_PARAMS"
  | overloadedLabels => "OVERLOADED_LABELS"
  | binaryLiterals => "BINARY_LITERALS"
  | negativeLiterals => "NEGATIVE_LITERALS"
  | numericUnderscores => "NUMERIC_UNDERSCORES"
  | lambdaCase => "LAMBDA_CASE"
  | unicodeSyntax => "UNICODE_SYNTAX"
  | typeApplications => "TYPE_APPLICATIONS"
  | backpack => "BACKPACK"
  | haddock => "HADDOCK"

def ofName? (s : String) : Option Extension := all.find? (·.name = s)

end Extension

/-- The set of extensions that are on. -/
abbrev Extensions := Extension → Bool

/-- What the lexer reports, without failing. -/
inductive Warning where
  | tabs
  | unrecognisedPragmas
  deriving DecidableEq

namespace Warning

def all : List Warning := [tabs, unrecognisedPragmas]

theorem mem_all (w : Warning) : w ∈ all := by
  cases w <;> decide

def name : Warning → String
  | tabs => "TABS"
  | unrecognisedPragmas => "UNRECOGNISED_PRAGMAS"

def ofName? (s : String) : Option Warning := all.find? (·.name = s)

end Warning

/-- The source name, possibly empty, only shows in messages. -/
structure Config where
  enabled : Extensions
  warns : Warning → Bool
  sourceName : String

namespace Config

def permissive : Config := ⟨fun _ => true, fun _ => false, ""⟩

instance : Inhabited Config := ⟨permissive⟩

def without (c : Config) (es : List Extension) : Config :=
  { c with enabled := fun e => c.enabled e && !es.contains e }

def extensions (c : Config) : List Extension := Extension.all.filter c.enabled

def warnings (c : Config) : List Warning := Warning.all.filter c.warns

/-- Both sets are finite, so it is enough to list them. -/
def same (c d : Config) : Bool :=
  c.extensions = d.extensions && c.warnings = d.warnings && c.sourceName = d.sourceName

theorem same_iff {c d : Config} : c.same d = true ↔ c = d := by
  constructor
  · intro h
    simp only [same, Bool.and_eq_true, decide_eq_true_eq] at h
    obtain ⟨⟨he, hw⟩, hs⟩ := h
    have enabled : c.enabled = d.enabled := by
      funext e
      have := congrArg (e ∈ ·) he
      simp only [extensions, List.mem_filter, Extension.mem_all, true_and, eq_iff_iff] at this
      exact Bool.eq_iff_iff.2 this
    have warns : c.warns = d.warns := by
      funext w
      have := congrArg (w ∈ ·) hw
      simp only [warnings, List.mem_filter, Warning.mem_all, true_and, eq_iff_iff] at this
      exact Bool.eq_iff_iff.2 this
    cases c
    cases d
    simp_all
  · rintro rfl
    simp [same]

/-- An empty name counts as none. -/
def source? (c : Config) : Option String :=
  if c.sourceName = "" then none else some c.sourceName

/-- How a report names the source. -/
def sourceLabel (c : Config) : String := c.source?.getD "<source>"

end Config

end HaskellLexis
