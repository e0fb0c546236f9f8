import HaskellLexis.Json.Reader
import HaskellLexis.Json.Writer
import HaskellLexis.Slicing

/-!
# Saved pieces

Pieces as a JSON object with a type field, so that they are told apart from
other saved objects. Members are sorted by key, and the text is ASCII: equal
pieces are saved as equal texts.

Reading looks at no more than it needs: members that it does not know are
skipped, and the text of a piece may be any value.
-/

namespace HaskellLexis

namespace Saved

def typeName : List Char := "HighlightTokens".toList

def ofPiece (p : Piece) : Json :=
  .object [("category".toList, .string p.category.tag.toList), ("text".toList, .string p.text)]

def ofPieces (ps : List Piece) : Json :=
  .object [("_type".toList, .string typeName), ("tokens".toList, .array (ps.map ofPiece))]

def write (indent : Option Nat) (ps : List Piece) : List Char := (ofPieces ps).write indent

/-- Where a value is not what it has to be: not an object at all, not a
collection or not a piece, without a member it needs, or with an unknown one. -/
inductive Fault where
  | notJson
  | notObject
  | notCollection
  | notPiece
  | missingMember
  | missingType
  | unknownType (v : Json)
  | unknownCategory (v : Json)

/-- The text of a fault that has one. -/
def Fault.text? : Fault → Option String
  | missingType => some "Missing '_type' field in serialized tokens"
  | unknownType v => some ("Unknown serialized type: " ++ String.ofList v.describe)
  | unknownCategory v => some ("Unknown token category: " ++ String.ofList v.describe)
  | _ => none

/-- The type of a saved object. -/
def checkType (v : Json) : Except Fault Unit :=
  match v.get? "_type" with
  | none | some .null => .error .missingType
  | some (.string s) => if s = typeName then .ok () else .error (.unknownType (.string s))
  | some t => .error (.unknownType t)

/-- The category is looked at before the text. -/
def readPiece (v : Json) : Except Fault (Category × Json) :=
  match v with
  | .object _ =>
    match v.get? "category" with
    | none => .error .missingMember
    | some t =>
      let category? := match t with
        | .string s => Category.ofTag? (String.ofList s)
        | _ => none
      match category?, v.get? "text" with
      | none, _ => .error (.unknownCategory t)
      | some _, none => .error .missingMember
      | some c, some text => .ok (c, text)
  | _ => .error .notPiece

/-- A text is a collection of characters, and an object one of its keys; no
member of these is a piece. Without tokens there are none. -/
def elements (v : Option Json) : Except Fault (List Json) :=
  match v with
  | none => .ok []
  | some (.array vs) => .ok vs
  | some (.string s) => .ok (s.map fun c => .string [c])
  | some (.object ms) => .ok (ms.map fun m => .string m.1)
  | some _ => .error .notCollection

/-- The pieces of a saved object, up to the first fault. -/
def ofJson (v : Json) : Except Fault (List (Category × Json)) :=
  match v with
  | .object _ => do
    checkType v
    let vs ← elements (v.get? "tokens")
    vs.mapM readPiece
  | _ => .error .notObject

def read (s : List Char) : Except Fault (List (Category × Json)) :=
  match Json.read? s with
  | some v => ofJson v
  | none => .error .notJson

/-- What was read, if every text is one. -/
def pieces? (xs : List (Category × Json)) : Option (List Piece) :=
  xs.mapM fun
    | (c, .string s) => some ⟨c, s⟩
    | _ => none

end Saved

end HaskellLexis
