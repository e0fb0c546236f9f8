import HaskellLexis.Lexeme.Site
import HaskellLexis.Reserved

/-!
# Operators

An operator is the longest run of symbol characters. Brackets that close with
symbol characters come before it, and a run that is tight to a name may be a
mark on that name instead.
-/

namespace HaskellLexis

namespace Operator

/-- Closing brackets that start with a symbol character, longer ones first. -/
def closers : List (List Char × Kind × Extension) :=
  [(['|', '|', ']'], .quotation .closeTyped, .templateHaskell),
    (['|', ']'], .quotation .close, .templateHaskell),
    (['|', ')'], .punctuation .closeBanana, .arrows),
    (['#', ')'], .punctuation .closeUnboxed, .unboxedTuples),
    ([':', ']'], .punctuation .closeArray, .parallelArrays)]

def closer? (on : Extensions) (s : List Char) : Option (Kind × Nat) :=
  (closers.find? fun (mark, _, needs) => mark.isPrefixOf s && on needs).map
    fun (mark, kind, _) => (kind, mark.length)

/-- One dollar splices, two splice with a type. -/
def splice? (run : List Char) : Option (Quotation × Quotation) :=
  if run = ['$'] then some (.spliceName, .spliceParen)
  else if run = ['$', '$'] then some (.typedSpliceName, .typedSpliceParen)
  else none

/-- A splice, given the text behind the dollars. -/
def scanSplice (name paren : Quotation) (s : List Char) : Option (Kind × Nat) :=
  match s with
  | '(' :: _ => some (.quotation paren, 1)
  | c :: _ => if startsLower c then some (.quotation name, wordLength s) else none
  | [] => none

/-- What a run makes of the name behind it, if it is a mark on that name. The
length is that of the name. -/
def mark? (on : Extensions) (run s : List Char) : Option (Kind × Nat) :=
  match if on .templateHaskell then splice? run else none with
  | some (name, paren) => scanSplice name paren s
  | none =>
    let n := wordLength s
    if !s.head?.any startsLower then none
    else if run = ['?'] && on .implicitParams then some (.name .implicitParam, n)
    else if run = ['#'] && on .overloadedLabels then some (.name .label, n)
    else if run = ['\\'] && on .lambdaCase && s.take n = ['c', 'a', 's', 'e'] then
      some (.lambdaCase, n)
    else none

/-- An at sign is tight to what follows, and nothing is attached to it from
the left. -/
def isTypeApplication (site : Site) (s : List Char) : Bool :=
  site.on .typeApplications && s.head?.any (!isBlank ·) && site.isLoose

def ofRun (site : Site) (run s : List Char) : Kind :=
  match ReservedOperator.ofRun? site.on run with
  | some (.operator .atSign) =>
    if isTypeApplication site s then .typeApplication else .operator .atSign
  | some kind => kind
  | none => .name (if run.head? = some ':' then .consym else .varsym)

/-- The text after the symbol character `c`. -/
def scan (site : Site) (c : Char) (r : List Char) : Kind × Nat :=
  match closer? site.on (c :: r) with
  | some (kind, n) => (kind, n - 1)
  | none =>
    let more := r.takeWhile isSymbol
    let rest := r.drop more.length
    match mark? site.on (c :: more) rest with
    | some (kind, n) => (kind, more.length + n)
    | none => (ofRun site (c :: more) rest, more.length)

end Operator

end HaskellLexis
