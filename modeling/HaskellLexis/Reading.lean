import HaskellLexis.Lexer
import HaskellLexis.Slicing

/-!
# Reading a trace in parts

A reader holds what is left of a trace and the state that its producer was
left in. A lexer can be read anew from that state: what it has taken from the
text stays taken, and what the old reading had still to deliver is lost.
-/

namespace HaskellLexis

structure Reading (σ ν α ε : Type) where
  left : σ
  rest : Option (Trace σ ν α ε)

namespace Reading

variable {σ ν α ε : Type}

/-- Takes up to `count` items, or all. A reading that has ended once gives
nothing more. -/
def pull (r : Reading σ ν α ε) (count : Option Nat) :
    Trace.Taken σ ν α ε × Reading σ ν α ε :=
  match r.rest with
  | some t =>
    let k := t.take count
    (k, ⟨k.left.getD r.left, k.rest⟩)
  | none =>
    (⟨[], [], if count = some 0 then .paused else .done, none, none⟩, r)

end Reading

abbrev LexReading := Reading Lexer Notice Token LexFailure

abbrev SliceReading := Reading Slicer Empty Piece SpanError

def Lexer.reading (x : Lexer) : LexReading := ⟨x, some x.trace⟩

/-- A new reading of the same lexer. -/
def LexReading.again (r : LexReading) : LexReading := r.left.reading

def Slicer.reading (x : Slicer) : SliceReading := ⟨x, some x.trace⟩

end HaskellLexis
