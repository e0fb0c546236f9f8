import HaskellLexis.Quoted

/-!
# JSON values

Objects keep their members in order. A number with a fraction or an exponent
keeps its spelling, since nothing is computed with it.

`Json.describe` is the form of a value in messages, which has quoted texts and
capitalised words.
-/

namespace HaskellLexis

inductive Json where
  | null
  | bool (b : Bool)
  | int (n : Int)
  | decimal (spelling : List Char)
  | string (s : List Char)
  | array (items : List Json)
  | object (members : List (List Char × Json))

namespace Json

/-- A later member takes the place of an earlier one of the same key. -/
def put (key : List Char) (value : Json) :
    List (List Char × Json) → List (List Char × Json)
  | [] => [(key, value)]
  | m :: ms => if m.1 = key then (key, value) :: ms else m :: put key value ms

def get? (key : String) : Json → Option Json
  | object ms => ms.lookup key.toList
  | _ => none

/-- The texts between the brackets are separated by a comma and a space. -/
def commas : List (List Char) → List Char
  | [] => []
  | [t] => t
  | t :: ts => t ++ ',' :: ' ' :: commas ts

mutual

def describe : Json → List Char
  | null => "None".toList
  | bool true => "True".toList
  | bool false => "False".toList
  | int n => (toString n).toList
  | decimal s => s
  | string s => Quoted.encode s
  | array items => '[' :: commas (describeItems items) ++ [']']
  | object ms => '{' :: commas (describeMembers ms) ++ ['}']

def describeItems : List Json → List (List Char)
  | [] => []
  | v :: vs => describe v :: describeItems vs

def describeMembers : List (List Char × Json) → List (List Char)
  | [] => []
  | (k, v) :: ms => (Quoted.encode k ++ ':' :: ' ' :: describe v) :: describeMembers ms

end

/-- A text stands for itself, any other value for its description. -/
def plain : Json → List Char
  | string s => s
  | v => v.describe

end Json

end HaskellLexis
