import HaskellLexis.Character
import HaskellLexis.Config
import HaskellLexis.Json.Basic

/-!
# Configurations from JSON

Names of extensions and warnings are read in any case. A member that is absent
leaves its default, and a member that is not known is skipped. The first fault
counts: extensions come before warnings.
-/

namespace HaskellLexis

namespace ConfigReading

inductive Fault where
  | notObject
  | notCollection
  | notName
  | unknownExtension (name : List Char)
  | unknownWarning (name : List Char)

/-- The text of a fault that has one. -/
def Fault.text? : Fault → Option String
  | unknownExtension n => some ("Unknown Extension name: " ++ Quoted.text n)
  | unknownWarning n => some ("Unknown LexerWarning name: " ++ Quoted.text n)
  | _ => none

/-- The name behind a spelling in any case. -/
def canonical (s : List Char) : String := String.ofList (upperCase s)

/-- What is found under a name; `unknown` is the fault of a name that is not
known. -/
def lookUp {α : Type} (find : String → Option α) (unknown : List Char → Fault) :
    Json → Except Fault α
  | .string s =>
    match find (canonical s) with
    | some a => .ok a
    | none => .error (unknown s)
  | _ => .error .notName

/-- A text is a collection of characters, and an object one of its keys. -/
def elements : Json → Except Fault (List Json)
  | .array vs => .ok vs
  | .string s => .ok (s.map fun c => .string [c])
  | .object ms => .ok (ms.map fun m => .string m.1)
  | _ => .error .notCollection

def names {α : Type} (find : String → Option α) (unknown : List Char → Fault)
    (v : Json) : Except Fault (List α) := do
  (← elements v).mapM (lookUp find unknown)

def extensions (v : Json) : Except Fault (Extension → Bool) :=
  match v.get? "extensions" with
  | none => .ok Config.permissive.enabled
  | some x => (names Extension.ofName? .unknownExtension x).map fun es e => es.contains e

def warnings (v : Json) : Except Fault (Warning → Bool) :=
  match v.get? "warnings" with
  | none => .ok Config.permissive.warns
  | some x => (names Warning.ofName? .unknownWarning x).map fun ws w => ws.contains w

/-- A name that is no text is known by its description. -/
def sourceName (v : Json) : String :=
  match v.get? "source_name" with
  | none => Config.permissive.sourceName
  | some x => String.ofList x.plain

def ofJson (v : Json) : Except Fault Config :=
  match v with
  | .object _ => do
    return ⟨← extensions v, ← warnings v, sourceName v⟩
  | _ => .error .notObject

end ConfigReading

end HaskellLexis
