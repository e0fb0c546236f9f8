import HaskellLexis.Json.Basic

/-!
# Reading JSON

The standard grammar, with control characters refused inside strings, and the
three words for numbers that are not finite. Of equal keys the last one counts.
-/

namespace HaskellLexis

namespace Json

def isSpace (c : Char) : Bool := c = ' ' || c = '\t' || c = '\n' || c = '\r'

def skipSpace (s : List Char) : List Char := s.dropWhile isSpace

def hexValue? (c : Char) : Option Nat :=
  if '0' ≤ c && c ≤ '9' then some (c.toNat - 0x30)
  else if 'a' ≤ c && c ≤ 'f' then some (c.toNat - 0x57)
  else if 'A' ≤ c && c ≤ 'F' then some (c.toNat - 0x37)
  else none

def hexUnit? (a b c d : Char) : Option Nat := do
  return (((← hexValue? a) * 16 + (← hexValue? b)) * 16 + (← hexValue? c)) * 16 + (← hexValue? d)

/-- Escapes of one character. -/
def shortEscape? : Char → Option Char
  | '"' => some '"'
  | '\\' => some '\\'
  | '/' => some '/'
  | 'b' => some '\x08'
  | 'f' => some '\x0c'
  | 'n' => some '\n'
  | 'r' => some '\r'
  | 't' => some '\t'
  | _ => none

/-- The code units of a string up to its closing quote, and the text behind
that quote. A character that is not an escape is one unit. -/
def readUnits : List Char → Option (List Nat × List Char)
  | [] => none
  | '"' :: r => some ([], r)
  | '\\' :: 'u' :: a :: b :: c :: d :: r => do
    let n ← hexUnit? a b c d
    let (ns, t) ← readUnits r
    return (n :: ns, t)
  | '\\' :: e :: r => do
    let c ← shortEscape? e
    let (ns, t) ← readUnits r
    return (c.toNat :: ns, t)
  | '\\' :: [] => none
  | c :: r => do
    if c.toNat < 0x20 then none
    else
      let (ns, t) ← readUnits r
      return (c.toNat :: ns, t)

def isHighUnit (n : Nat) : Bool := 0xD800 ≤ n && n ≤ 0xDBFF

def isLowUnit (n : Nat) : Bool := 0xDC00 ≤ n && n ≤ 0xDFFF

/-- What stands for half a character whose other half is missing. -/
def replacement : Char := '\ufffd'

def charOfUnit (n : Nat) : Char :=
  if isHighUnit n || isLowUnit n then replacement else Char.ofNat n

/-- A high unit and the low one behind it are one character. -/
def joinUnits : List Nat → List Char
  | [] => []
  | [n] => [charOfUnit n]
  | h :: l :: ns =>
    if isHighUnit h && isLowUnit l then
      Char.ofNat (0x10000 + (h - 0xD800) * 0x400 + (l - 0xDC00)) :: joinUnits ns
    else charOfUnit h :: joinUnits (l :: ns)

/-- A string, given the text behind its opening quote. -/
def readString (s : List Char) : Option (List Char × List Char) :=
  (readUnits s).map fun (ns, t) => (joinUnits ns, t)

def isDecimalDigit (c : Char) : Bool := '0' ≤ c && c ≤ '9'

/-- The part of a number behind its digits that makes it no integer. -/
def fractionLength (s : List Char) : Nat :=
  let point :=
    match s with
    | '.' :: r =>
      match (r.takeWhile isDecimalDigit).length with
      | 0 => 0
      | n + 1 => n + 2
    | _ => 0
  let exponent :=
    match s.drop point with
    | e :: r =>
      if e = 'e' || e = 'E' then
        let signs := (r.take 1).countP (fun c => c = '+' || c = '-')
        match ((r.drop signs).takeWhile isDecimalDigit).length with
        | 0 => 0
        | n + 1 => n + 2 + signs
      else 0
    | [] => 0
  point + exponent

def numeral (digits : List Char) : Nat :=
  digits.foldl (fun n c => n * 10 + (c.toNat - 0x30)) 0

/-- A zero is not followed by further digits of the same number. -/
def integerDigits (s : List Char) : List Char :=
  match s with
  | '0' :: _ => ['0']
  | _ => s.takeWhile isDecimalDigit

def readNumber (s : List Char) : Option (Json × List Char) :=
  let sign := s.takeWhile (· = '-') |>.take 1
  let body := s.drop sign.length
  let digits := integerDigits body
  if digits = [] then none
  else
    let rest := body.drop digits.length
    let n := fractionLength rest
    if n = 0 then
      some (int (if sign = [] then (numeral digits : Int) else -(numeral digits : Int)), rest)
    else some (decimal (sign ++ digits ++ rest.take n), rest.drop n)

/-- Values that are one word. -/
def words : List (List Char × Json) :=
  [("null", null), ("true", bool true), ("false", bool false), ("NaN", decimal "nan".toList),
    ("Infinity", decimal "inf".toList), ("-Infinity", decimal "-inf".toList)].map
    (fun p => (p.1.toList, p.2))

def readWord (s : List Char) : Option (Json × List Char) :=
  (words.find? (·.1.isPrefixOf s)).map fun (w, v) => (v, s.drop w.length)

mutual

/-- The fuel bounds the number of nested calls. -/
def readValue : Nat → List Char → Option (Json × List Char)
  | 0, _ => none
  | fuel + 1, s =>
    match s with
    | '"' :: r => (readString r).map fun (t, rest) => (string t, rest)
    | '[' :: r =>
      match skipSpace r with
      | ']' :: rest => some (array [], rest)
      | s => (readItems fuel s).map fun (vs, rest) => (array vs, rest)
    | '{' :: r =>
      match skipSpace r with
      | '}' :: rest => some (object [], rest)
      | s => (readMembers fuel s []).map fun (ms, rest) => (object ms, rest)
    | s => readWord s <|> readNumber s

def readItems : Nat → List Char → Option (List Json × List Char)
  | 0, _ => none
  | fuel + 1, s => do
    let (v, r) ← readValue fuel s
    match skipSpace r with
    | ']' :: rest => some ([v], rest)
    | ',' :: rest =>
      let (vs, rest) ← readItems fuel (skipSpace rest)
      some (v :: vs, rest)
    | _ => none

def readMembers : Nat → List Char → List (List Char × Json) →
    Option (List (List Char × Json) × List Char)
  | 0, _, _ => none
  | fuel + 1, s, ms =>
    match s with
    | '"' :: r => do
      let (k, r) ← readString r
      match skipSpace r with
      | ':' :: r =>
        let (v, r) ← readValue fuel (skipSpace r)
        let ms := put k v ms
        match skipSpace r with
        | '}' :: rest => some (ms, rest)
        | ',' :: rest => readMembers fuel (skipSpace rest) ms
        | _ => none
      | _ => none
    | _ => none

end

/-- Every call but one takes a character, so twice the length is enough. -/
def read? (s : List Char) : Option Json := do
  let (v, r) ← readValue (2 * s.length + 2) (skipSpace s)
  if skipSpace r = [] then some v else none

end Json

end HaskellLexis
