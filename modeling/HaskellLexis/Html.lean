import HaskellLexis.Slicing

/-!
# HTML

A text as preformatted HTML. Pieces carry a class for their category; no
element spans a line break. Text that no piece covers is shown without a
class, so that the whole text is always shown.
-/

namespace HaskellLexis

namespace Html

def escapeChar (c : Char) : List Char :=
  if c = '&' then "&amp;".toList
  else if c = '<' then "&lt;".toList
  else if c = '>' then "&gt;".toList
  else if c = '"' then "&quot;".toList
  else if c = '\'' then "&#x27;".toList
  else [c]

def escape (s : List Char) : List Char := s.flatMap escapeChar

/-- An element of the class `cls`. -/
def spanOf (cls : List Char) (body : List Char) : List Char :=
  "<span class=\"".toList ++ cls ++ "\">".toList ++ body ++ "</span>".toList

/-- The lines of a text; there is always at least one. -/
def splitLines : List Char → List (List Char)
  | [] => [[]]
  | c :: r =>
    if c = '\n' then [] :: splitLines r
    else
      match splitLines r with
      | l :: ls => (c :: l) :: ls
      | [] => [[c]]

/-- The part of a piece on one line. Nothing is marked where there is nothing. -/
def markPart (category : Option Category) (part : List Char) : List Char :=
  match category with
  | none | some .space => escape part
  | some c => if part = [] then [] else spanOf ("hs-" ++ c.tag).toList (escape part)

/-- Lines put behind lines: the last of the first goes on in the first of the
others. -/
def joinLines : List (List Char) → List (List Char) → List (List Char)
  | [], ls => ls
  | [l], [] => [l]
  | [l], m :: ms => (l ++ m) :: ms
  | l :: ls, ms => l :: joinLines ls ms

def markLines : List (Option Category × List Char) → List (List Char)
  | [] => [[]]
  | (category, text) :: ps => joinLines ((splitLines text).map (markPart category)) (markLines ps)

def coveredLength (pieces : List Piece) : Nat := (pieces.flatMap Piece.text).length

/-- One line of HTML for each line of the pieces and of what they leave
uncovered. The pieces need not match the text. -/
def renderLines (text : List Char) (pieces : List Piece) : List (List Char) :=
  let parts := pieces.map fun p => (some p.category, p.text)
  let tail := text.drop (coveredLength pieces)
  markLines (parts ++ if tail = [] then [] else [(none, tail)])

/-- Blanks in front of a text up to a width. -/
def alignRight (width : Nat) (s : List Char) : List Char :=
  List.replicate (width - s.length) ' ' ++ s

def emphasise (lines : List Int) (number : Nat) (line : List Char) : List Char :=
  if lines.contains (number : Int) then spanOf "hll".toList line else line

def enumerateLine (width number : Nat) (line : List Char) : List Char :=
  spanOf "lineno".toList (alignRight width (toString number).toList ++ [' ']) ++ line

/-- Emphasis goes around the line, and its number before that. -/
def decorate (emphasised : List Int) (numbered : Bool) (lines : List (List Char)) :
    List (List Char) :=
  let width := (toString lines.length).length
  lines.mapIdx fun i line =>
    let l := emphasise emphasised (i + 1) line
    if numbered then enumerateLine width (i + 1) l else l

def joinWithLineFeeds (lines : List (List Char)) : List Char :=
  List.intercalate ['\n'] lines

def haskellBlock (lines : List (List Char)) : List Char :=
  "<pre class=\"highlight\"><code class=\"language-haskell\">".toList ++
    joinWithLineFeeds lines ++ "</code></pre>".toList

/-- A block that is not highlighted. Without a language there is no class. -/
def plainBlock (text language : List Char) : List Char :=
  let cls :=
    if language = [] then [] else " class=\"language-".toList ++ escape language ++ ['"']
  "<pre><code".toList ++ cls ++ ['>'] ++ escape text ++ "</code></pre>".toList

end Html

end HaskellLexis
