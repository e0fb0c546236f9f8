import HaskellLexis.Token

/-!
# Layout

After a word that opens a block, the next lexeme opens it at its column, with
a virtual brace, unless it is an explicit one. A lexeme on a later line closes
every block to the right of it. No virtual semicolons are made.

* `Block`, `Layout`: the open blocks and what is still waiting for one;
* `Placing`: braces, with the layout in which each of them is delivered, so
  that a reader may stop after any of them;
* `Layout.place`: the braces before a lexeme;
* `Layout.finish`: the braces at the end of the text.
-/

namespace HaskellLexis

/-- Explicit blocks have no column, and indentation never closes them. -/
inductive Block where
  | explicit
  | implicit (col : Int) (opener : Kind)
  deriving DecidableEq

namespace Block

def isImplicit : Block → Bool
  | explicit => false
  | implicit _ _ => true

/-- The block lies to the right of a column. -/
def isRightOf (col : Int) : Block → Bool
  | explicit => false
  | implicit c _ => col < c

def isLet : Block → Bool
  | implicit _ (.keyword .letKw) => true
  | _ => false

/-- A column that a new block must exceed. -/
def edge : Block → Int
  | explicit => 0
  | implicit c _ => c

end Block

/-- `blocks` holds the open blocks, the innermost first; `pending` is a word
whose block has not begun; `lastLine` is the line on which the last lexeme
that counts for layout ends. -/
structure Layout where
  blocks : List Block
  pending : Option Kind
  lastLine : Int
  deriving DecidableEq

namespace Layout

def start : Layout := ⟨[], none, 0⟩

/-- Whether a lexeme begins the block that is waiting, at its column: it does
if it lies further right than the enclosing block and is no explicit brace. -/
def opens (kind : Kind) (col : Int) (l : Layout) : Bool :=
  l.pending.isSome && kind ≠ .punctuation .openBrace &&
    (l.blocks.head?.map Block.edge).getD 0 < col

end Layout

/-- Braces to deliver, each with the layout at that moment, and the layout
after them. -/
structure Placing where
  braces : List (Brace × Layout)
  layout : Layout

namespace Placing

def andThen (p : Placing) (f : Layout → Placing) : Placing :=
  ⟨p.braces ++ (f p.layout).braces, (f p.layout).layout⟩

end Placing

namespace Layout

/-- Nothing changes. -/
def stay (l : Layout) : Placing := ⟨[], l⟩

def withBlocks (l : Layout) (bs : List Block) : Layout := { l with blocks := bs }

/-- The blocks that are left each time one is closed, from the innermost on as
long as they meet `p`. -/
def closings (p : Block → Bool) : List Block → List (List Block)
  | [] => []
  | b :: bs => if p b then bs :: closings p bs else []

def closeWhile (p : Block → Bool) (l : Layout) : Placing :=
  ⟨(closings p l.blocks).map fun bs => (.closing, l.withBlocks bs),
    l.withBlocks (l.blocks.dropWhile p)⟩

/-- What becomes of the block that is waiting. One that the lexeme does not
begin is empty, unless explicit braces take its place. -/
def openPending (kind : Kind) (col : Int) (l : Layout) : Placing :=
  match l.pending with
  | none => l.stay
  | some opener =>
    let l' := { l with pending := none }
    if kind = .punctuation .openBrace then l'.stay
    else if l.opens kind col then
      ⟨[(.opening, l')], l'.withBlocks (.implicit col opener :: l.blocks)⟩
    else ⟨[(.opening, l'), (.closing, l')], l'⟩

/-- Blocks that end because a lexeme starts a line to the left of them. -/
def dedent (start : Position) (l : Layout) : Placing :=
  if l.lastLine < start.line then l.closeWhile (Block.isRightOf start.col) else l.stay

/-- `in` ends the block of its `let`, on the same line too. -/
def closeLet (kind : Kind) (l : Layout) : Placing :=
  match l.blocks with
  | b :: bs =>
    if kind = .keyword .inKw && b.isLet then
      ⟨[(.closing, l.withBlocks bs)], l.withBlocks bs⟩
    else l.stay
  | [] => l.stay

/-- What explicit braces do: an opening one starts a block, a closing one
ends every block begun since and then that block, if there is one. -/
def explicitBrace (kind : Kind) (l : Layout) : Placing :=
  if kind = .punctuation .openBrace then (l.withBlocks (.explicit :: l.blocks)).stay
  else if kind = .punctuation .closeBrace then
    (l.closeWhile Block.isImplicit).andThen fun l' => (l'.withBlocks l'.blocks.tail).stay
  else l.stay

/-- The braces before a lexeme, and the layout in which it is delivered. A
lexeme that begins a block ends none by where it stands. -/
def place (kind : Kind) (start : Position) (l : Layout) : Placing :=
  (((l.openPending kind start.col).andThen
    (if l.opens kind start.col then stay else dedent start)).andThen
    (closeLet kind)).andThen (explicitBrace kind)

/-- The layout once a lexeme has been taken. -/
def settle (kind : Kind) (stop : Position) (l : Layout) : Layout :=
  { l with
    lastLine := stop.line
    pending := if kind.opensBlock then some kind else l.pending }

/-- The blocks that are left each time an implicit one is closed, all blocks
being closed. -/
def allClosings : List Block → List (List Block)
  | [] => []
  | b :: bs => if b.isImplicit then bs :: allClosings bs else allClosings bs

/-- Every block that is still open, explicit ones without a brace. -/
def closeAll (l : Layout) : Placing :=
  ⟨(allClosings l.blocks).map fun bs => (.closing, l.withBlocks bs), l.withBlocks []⟩

/-- At the end of the text a word that waits for its block gets an empty one. -/
def finish (l : Layout) : Placing :=
  let l' := { l with pending := none }
  if l.pending.isSome then (Placing.mk [(.opening, l'), (.closing, l')] l').andThen closeAll
  else l'.closeAll

end Layout

end HaskellLexis
