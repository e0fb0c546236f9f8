import HaskellLexis.Kind
import HaskellLexis.LexError
import HaskellLexis.Lexeme.Site

/-!
# Pragmas

The word after the opening mark, in any case, decides:

* options and inclusions are one lexeme up to the closing mark;
* a known pragma is an opening lexeme, and its body is lexed like other text;
* any other word makes the pragma a comment.
-/

namespace HaskellLexis

namespace Pragma

def words : List (List Char × Pragma) :=
  [("INLINE", inline), ("NOINLINE", inline), ("NOTINLINE", inline), ("INLINABLE", inline),
    ("INLINEABLE", inline), ("SPECIALISE", specialise), ("SPECIALIZE", specialise),
    ("SOURCE", source), ("RULES", rules), ("WARNING", warning), ("DEPRECATED", deprecated),
    ("LINE", line), ("COLUMN", column), ("SCC", scc), ("GENERATED", generated), ("CORE", core),
    ("UNPACK", unpack), ("NOUNPACK", noUnpack), ("ANN", ann), ("COMPLETE", complete),
    ("LANGUAGE", language), ("VECTORISE", vectorise), ("VECTORIZE", vectorise),
    ("NOVECTORISE", noVectorise), ("NOVECTORIZE", noVectorise), ("MINIMAL", minimal),
    ("OVERLAPPABLE", overlappable), ("OVERLAPPING", overlapping), ("OVERLAPS", overlaps),
    ("INCOHERENT", incoherent), ("CTYPE", ctype)].map (fun p => (p.1.toList, p.2))

/-- A second word that makes another pragma of the first. -/
def pair? (first second : List Char) : Option Pragma :=
  if ["SPECIALISE".toList, "SPECIALIZE".toList].contains first then
    if ["INLINE".toList, "NOINLINE".toList].contains second then some specialiseInline else none
  else if ["VECTORISE".toList, "VECTORIZE".toList].contains first then
    if second = "SCALAR".toList then some vectoriseScalar else none
  else none

def optionWords : List (List Char) :=
  ["OPTIONS", "OPTIONS_GHC", "OPTIONS_JHC", "OPTIONS_HUGS", "OPTIONS_NHC98"].map String.toList

/-- Pragmas that are one lexeme. The documentation tool's options are an
ordinary comment to whoever takes no documentation. -/
def whole? (on : Extensions) (word : List Char) : Option Kind :=
  if optionWords.contains word then some .optionsPragma
  else if word = "INCLUDE".toList then some .includePragma
  else if word = "OPTIONS_HADDOCK".toList then
    some (.comment (if on .haddock then .docOptions else .block))
  else none

def isWordChar (c : Char) : Bool := isAlphanumeric c || c = '_'

/-- The word of a pragma and how much text goes up to its end, given the text
after the opening mark. -/
def word (s : List Char) : List Char × Nat :=
  let blanks := runLength isBlank s
  let w := (s.drop blanks).takeWhile isWordChar
  (w, blanks + w.length)

/-- A second word has to stand on the same line. -/
def secondWord (s : List Char) : List Char × Nat :=
  let blanks := runLength isInlineBlank s
  let w := (s.drop blanks).takeWhile isWordChar
  (w, blanks + w.length)

inductive Shape where
  | whole (kind : Kind)
  | opener (p : Pragma) (length : Nat)
  | unrecognised (word : List Char)

/-- What stands behind an opening mark. -/
def shape (on : Extensions) (s : List Char) : Shape :=
  let (w, n) := word s
  let name := upperCase w
  match whole? on name with
  | some k => .whole k
  | none =>
    match words.lookup name with
    | none => .unrecognised w
    | some p =>
      let (w₂, m) := secondWord (s.drop n)
      match pair? name (upperCase w₂) with
      | some q => .opener q (n + m)
      | none => .opener p n

/-- Through the closing mark. -/
def scanWhole (kind : Kind) (s : List Char) : Except LexCause (Kind × Nat) :=
  match offsetOf? closePragmaMark s with
  | some n => .ok (kind, 2 + n + 3)
  | none => .error .openPragma

/-- Given the text after the opening mark; the length counts from the second
character of the mark. -/
def scan (on : Extensions) (s : List Char) : Except LexCause (Kind × Nat) :=
  match shape on s with
  | .whole k => scanWhole k s
  | .opener p n => .ok (.openPragma p, 2 + n)
  | .unrecognised _ => scanWhole (.comment .block) s

end Pragma

end HaskellLexis
