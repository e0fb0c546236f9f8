import HaskellLexis.Json.Basic

/-!
# Writing JSON

ASCII only: every other character, and every control character, is an escape,
in two parts beyond the basic plane. On one line items are separated by a
comma and a space; with an indentation each stands on a line of its own, and
what is empty stays on one line.
-/

namespace HaskellLexis

namespace Json

def unicodeEscape (unit : Nat) : List Char := '\\' :: 'u' :: Quoted.hex 4 unit

def writeChar (c : Char) : List Char :=
  if c = '"' then ['\\', '"']
  else if c = '\\' then ['\\', '\\']
  else if c = '\n' then ['\\', 'n']
  else if c = '\r' then ['\\', 'r']
  else if c = '\t' then ['\\', 't']
  else if c = '\x0c' then ['\\', 'f']
  else if c = '\x08' then ['\\', 'b']
  else if 0x20 ≤ c.toNat && c.toNat ≤ 0x7E then [c]
  else if c.toNat < 0x10000 then unicodeEscape c.toNat
  else
    let n := c.toNat - 0x10000
    unicodeEscape (0xD800 + n / 0x400) ++ unicodeEscape (0xDC00 + n % 0x400)

def writeString (s : List Char) : List Char := '"' :: s.flatMap writeChar ++ ['"']

/-- A new line at a depth, if there is an indentation. -/
def newline (indent : Option Nat) (depth : Nat) : List Char :=
  match indent with
  | none => []
  | some n => '\n' :: List.replicate (n * depth) ' '

def separator (indent : Option Nat) (depth : Nat) : List Char :=
  match indent with
  | none => [',', ' ']
  | some _ => ',' :: newline indent depth

/-- Items between brackets, the brackets right beside each other if there are
none. -/
def enclose (indent : Option Nat) (depth : Nat) (opening closing : Char) :
    List (List Char) → List Char
  | [] => [opening, closing]
  | t :: ts =>
    opening :: newline indent (depth + 1) ++ t ++
      ts.flatMap (separator indent (depth + 1) ++ ·) ++ newline indent depth ++ [closing]

mutual

def writeAt (indent : Option Nat) (depth : Nat) : Json → List Char
  | null => "null".toList
  | bool true => "true".toList
  | bool false => "false".toList
  | int n => (toString n).toList
  | decimal s => s
  | string s => writeString s
  | array items => enclose indent depth '[' ']' (writeItems indent (depth + 1) items)
  | object ms => enclose indent depth '{' '}' (writeMembers indent (depth + 1) ms)

def writeItems (indent : Option Nat) (depth : Nat) : List Json → List (List Char)
  | [] => []
  | v :: vs => writeAt indent depth v :: writeItems indent depth vs

def writeMembers (indent : Option Nat) (depth : Nat) :
    List (List Char × Json) → List (List Char)
  | [] => []
  | (k, v) :: ms =>
    (writeString k ++ ':' :: ' ' :: writeAt indent depth v) :: writeMembers indent depth ms

end

/-- The text of a value. -/
def write (indent : Option Nat) (v : Json) : List Char := writeAt indent 0 v

end Json

end HaskellLexis
