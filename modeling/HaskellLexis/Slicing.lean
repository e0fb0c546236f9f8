import HaskellLexis.Category
import HaskellLexis.Cursor
import HaskellLexis.Quoted
import HaskellLexis.Trace

/-!
# Slicing a text along spans

A text is cut into pieces, one for each span, with a piece of space wherever
the walk to the start of a span takes characters. Spans are looked at one
after the other, each only when its piece is asked for; the first one that is
ill-formed, out of order or outside the text ends the run.

* `SpanError`: what can be wrong with a span;
* `Slicer.trace`: the pieces, with the slicer as it is left at each;
* `slice`: a whole run.
-/

namespace HaskellLexis

/-- A part of a text and how it is shown. -/
structure Piece where
  category : Category
  text : List Char
  deriving DecidableEq

def Piece.describe (p : Piece) : String :=
  "(" ++ p.category.name ++ ", " ++ Quoted.text p.text ++ ")"

def describePieces (ps : List Piece) : String :=
  "[" ++ String.intercalate ", " (ps.map Piece.describe) ++ "]"

inductive SpanFault where
  | beforeOrigin
  | backwards
  | overlapping (previous : Position)
  | pastLastLine (lines : Nat)
  | pastLineEnd (line : Int) (edge : Int)
  deriving DecidableEq

def SpanFault.text : SpanFault → String
  | beforeOrigin => "locations are 1-indexed"
  | backwards => "span ends before it starts"
  | overlapping p => "span overlaps previous span ending at " ++ p.text
  | pastLastLine n => "span ends past the last line (" ++ toString n ++ ")"
  | pastLineEnd line edge =>
    "span starts past the end of line " ++ toString line ++ " (column " ++ toString edge ++ ")"

structure SpanError where
  span : Span
  fault : SpanFault
  deriving DecidableEq

def SpanError.message (e : SpanError) : String :=
  "Span " ++ e.span.text ++ ": " ++ e.fault.text

/-- The column just past the last character of each line of a text, counted
from column `col` on. -/
def lineEdges (col : Int) : List Char → List Int
  | [] => [col]
  | c :: r =>
    if c = '\n' then col :: lineEdges 1 r else lineEdges (Position.next ⟨1, col⟩ c).col r

/-- `previous` is where the last span ended, `edges` the line ends of the
text, and `spans` what has not been looked at. -/
structure Slicer where
  cursor : Cursor
  previous : Position
  edges : Array Int
  spans : List (Category × Span)

abbrev SliceTrace := Trace Slicer Empty Piece SpanError

namespace Slicer

def start (text : List Char) (spans : List (Category × Span)) : Slicer :=
  ⟨.start text, .origin, (lineEdges 1 text).toArray, spans⟩

/-- The column just past the end of a line of the text. -/
def edge (x : Slicer) (line : Int) : Int := x.edges.getD (line - 1).toNat 1

def fault? (x : Slicer) (s : Span) : Option SpanFault :=
  if s.start.line < 1 || s.start.col < 1 then some .beforeOrigin
  else if s.stop < s.start then some .backwards
  else if s.start < x.previous then some (.overlapping x.previous)
  else if x.edges.size < s.stop.line then some (.pastLastLine x.edges.size)
  else if x.edge s.start.line < s.start.col then
    some (.pastLineEnd s.start.line (x.edge s.start.line))
  else none

/-- Walks to a position until a walk takes nothing: what was taken on each
walk, with the cursor behind it, and the cursor that goes on. A walk that takes
nothing does not move it, so a span without a gap starts where the cursor
believes to be. -/
def gaps (c : Cursor) (target : Position) : List (List Char × Cursor) × Cursor :=
  let a := c.advance target
  if _h : a.1 = [] then ([], c)
  else
    let more := gaps a.2 target
    (a :: more.1, more.2)
  termination_by c.rest.length
  decreasing_by
    have hl := c.length_advance target
    have hp : 0 < (c.advance target).1.length := List.length_pos_iff.2 _h
    change (c.advance target).2.rest.length < c.rest.length
    omega

/-- The pieces of one span that has no fault. -/
def piecesOf (x : Slicer) (category : Category) (s : Span) : List (Piece × Slicer) × Slicer :=
  let y := { x with previous := s.stop }
  let g := gaps x.cursor s.start
  let a := g.2.advance s.stop
  let z := { y with cursor := a.2 }
  (g.1.map (fun p => (⟨.space, p.1⟩, { y with cursor := p.2 })) ++ [(⟨category, a.1⟩, z)], z)

/-- The trace over the spans `todo`, whatever the slicer itself still holds. -/
def traceOver (x : Slicer) : List (Category × Span) → SliceTrace
  | [] => .done { x with spans := [] }
  | (category, s) :: todo =>
    let y := { x with spans := todo }
    match y.fault? s with
    | some f => .failed ⟨s, f⟩ y
    | none =>
      let p := y.piecesOf category s
      .itemAll p.1 (traceOver p.2 todo)

def trace (x : Slicer) : SliceTrace := x.traceOver x.spans

end Slicer

def slice (text : List Char) (spans : List (Category × Span)) : SliceTrace :=
  (Slicer.start text spans).trace

end HaskellLexis
