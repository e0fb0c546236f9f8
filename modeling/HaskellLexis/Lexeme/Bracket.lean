import HaskellLexis.Kind
import HaskellLexis.LexError
import HaskellLexis.Lexeme.Site

/-!
# Brackets and separators

The nine special characters, and the brackets of extensions that start with
one of them.
-/

namespace HaskellLexis

namespace Punctuation

def ofChar? : Char → Option Punctuation
  | '(' => some openParen
  | ')' => some closeParen
  | ',' => some comma
  | ';' => some semicolon
  | '[' => some openBracket
  | ']' => some closeBracket
  | '\x60' => some backquote
  | '{' => some openBrace
  | '}' => some closeBrace
  | _ => none

end Punctuation

namespace Quotation

/-- What may follow a square bracket to open a quotation, longer ones first. -/
def openers : List (List Char × Quotation) :=
  [(['|', '|'], openTypedExp), (['e', '|', '|'], openTypedExp), (['|'], openExp),
    (['e', '|'], openExp), (['p', '|'], openPat), (['d', '|'], openDec), (['t', '|'], openTyp)]

/-- The length of the name of a quoter and the bar behind it, and whether it
is qualified. -/
def quoter? (qualified : Bool) (s : List Char) : Option (Bool × Nat) :=
  match s with
  | [] => none
  | c :: r =>
    let n := wordLength (c :: r)
    if startsUpper c then
      match h : (c :: r).drop n with
      | '.' :: t => (quoter? true t).map (fun p => (p.1, n + 1 + p.2))
      | _ => none
    else if startsLower c then
      if ((c :: r).drop n).head? = some '|' then some (qualified, n + 1) else none
    else none
  termination_by s.length
  decreasing_by
    have := congrArg List.length h
    simp only [List.length_drop, List.length_cons] at this ⊢
    omega

/-- A quasi-quotation, if the text after a square bracket begins one. -/
def scanQuasi? (s : List Char) : Option (Except LexCause (Quotation × Nat)) :=
  (quoter? false s).map fun (qualified, n) =>
    match offsetOf? ['|', ']'] (s.drop n) with
    | some m => .ok (if qualified then qualifiedQuasi else quasi, n + m + 2)
    | none => .error .openQuasiQuotation

end Quotation

namespace Bracket

/-- The text after a round bracket. A symbol character behind the hash or bar
makes these an operator. -/
def scanRound (on : Extensions) (r : List Char) : Kind × Nat :=
  let tight := (r.drop 1).head?.any isSymbol
  if r.head? = some '#' && on .unboxedTuples && !tight then
    (.punctuation .openUnboxed, 1)
  else if r.head? = some '|' && on .arrows && !tight then
    (.punctuation .openBanana, 1)
  else (.punctuation .openParen, 0)

/-- The text after a square bracket. -/
def scanSquare (on : Extensions) (r : List Char) : Except LexCause (Kind × Nat) :=
  let opener :=
    if on .templateHaskell then Quotation.openers.find? (·.1.isPrefixOf r) else none
  match opener with
  | some (mark, q) => .ok (.quotation q, mark.length)
  | none =>
    match if on .quasiQuotes then Quotation.scanQuasi? r else none with
    | some result => result.map fun (q, n) => (.quotation q, n)
    | none =>
      if r.head? = some ':' && on .parallelArrays then
        .ok (.punctuation .openArray, 1)
      else .ok (.punctuation .openBracket, 0)

/-- The text after the special character `c`. -/
def scan (on : Extensions) (c : Char) (p : Punctuation) (r : List Char) :
    Except LexCause (Kind × Nat) :=
  if c = '(' then .ok (scanRound on r)
  else if c = '[' then scanSquare on r
  else .ok (.punctuation p, 0)

end Bracket

end HaskellLexis
