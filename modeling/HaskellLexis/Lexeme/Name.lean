import HaskellLexis.Lexeme.Site
import HaskellLexis.Reserved

/-!
# Names

Keywords, plain and qualified names, and qualified operators. Under the hash
extension a name takes the hashes behind it along, except those that close a
pragma.
-/

namespace HaskellLexis

namespace Name

/-- Hashes at the front of a text, as far as they do not close a pragma. -/
def hashRun (inPragma : Bool) : List Char → Nat
  | '#' :: r => if inPragma && ['-', '}'].isPrefixOf r then 0 else hashRun inPragma r + 1
  | _ => 0

def hashLength (site : Site) (s : List Char) : Nat :=
  if site.on .magicHash then hashRun site.inPragma s else 0

/-- A word and the hashes behind it. -/
def hashedWordLength (site : Site) (s : List Char) : Nat :=
  let n := wordLength s
  n + hashLength site (s.drop n)

/-- A name that starts with a small letter or an underscore. -/
def scanLower (site : Site) (c : Char) (r : List Char) : Kind × Nat :=
  let n := hashedWordLength site r
  let word := c :: r.take n
  if word = ['_'] then (.punctuation .underscore, n)
  else
    match Keyword.ofWord? site.on word with
    | some k => (.keyword k, n)
    | none => (.name .varid, n)

/-- Goes on behind a constructor name, `qualified` if a module name and a dot
stand before it. A dot binds only to what makes a name or operator with it:
never to a keyword, and never to a reserved operator, be it active or not. -/
def scanQualified (site : Site) (qualified : Bool) (s : List Char) : Name × Nat :=
  let stop := (if qualified then qconid else conid, hashLength site s)
  match s with
  | '.' :: d :: r =>
    if startsUpper d then
      let n := wordLength (d :: r)
      let (kind, m) := scanQualified site true ((d :: r).drop n)
      (kind, 1 + n + m)
    else if startsLower d then
      let n := hashedWordLength site (d :: r)
      if (Keyword.ofWord? site.on ((d :: r).take n)).isSome then stop else (qvarid, 1 + n)
    else if isSymbol d then
      let run := (d :: r).takeWhile isSymbol
      if run ≠ ['.'] && (ReservedOperator.listed? run).isSome then stop
      else (if d = ':' then qconsym else qvarsym, 1 + run.length)
    else stop
  | _ => stop
  termination_by s.length
  decreasing_by simp only [List.length_drop, List.length_cons]; omega

/-- A name that starts with a capital. -/
def scanUpper (site : Site) (r : List Char) : Kind × Nat :=
  let n := wordLength r
  let (kind, m) := scanQualified site false (r.drop n)
  (.name kind, n + m)

def scan (site : Site) (c : Char) (r : List Char) : Kind × Nat :=
  if startsUpper c then scanUpper site r else scanLower site c r

end Name

end HaskellLexis
