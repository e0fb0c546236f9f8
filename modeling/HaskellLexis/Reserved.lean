import HaskellLexis.Kind

/-!
# Reserved words and operators

A reserved spelling whose extension is off is an ordinary name or operator.
-/

namespace HaskellLexis

namespace Keyword

def spellings : List (List Char × Keyword) := all.map (fun k => (k.spelling.toList, k))

/-- The keyword that a word is, if its extension is on. -/
def ofWord? (on : Extensions) (word : List Char) : Option Keyword :=
  (spellings.lookup word).filter (·.active on)

end Keyword

/-- `needs` is the extension that an operator is reserved under. -/
structure ReservedOperator where
  kind : Kind
  needs : Option Extension

namespace ReservedOperator

def always (o : Operator) : ReservedOperator := ⟨.operator o, none⟩

def under (e : Extension) (o : Operator) : ReservedOperator := ⟨.operator o, some e⟩

def spellings : List (List Char × ReservedOperator) :=
  [("..", always .dotdot), (":", always .colon), ("::", always .doubleColon),
    ("=", always .equal), ("\\", always .backslash), ("|", always .bar),
    ("<-", always .leftArrow), ("->", always .rightArrow), ("@", always .atSign),
    ("~", always .tilde), ("=>", always .doubleArrow), ("-", always .minus),
    ("!", always .bang), (".", always .dot), ("~#", under .magicHash .tildeHash),
    ("-<", under .arrows .leftTail), (">-", under .arrows .rightTail),
    ("-<<", under .arrows .leftDoubleTail), (">>-", under .arrows .rightDoubleTail),
    ("∷", under .unicodeSyntax .doubleColon), ("⇒", under .unicodeSyntax .doubleArrow),
    ("→", under .unicodeSyntax .rightArrow), ("←", under .unicodeSyntax .leftArrow),
    ("∀", ⟨.keyword .forallKw, some .unicodeSyntax⟩),
    ("⤙", under .unicodeSyntax .leftTail), ("⤚", under .unicodeSyntax .rightTail),
    ("⤛", under .unicodeSyntax .leftDoubleTail),
    ("⤜", under .unicodeSyntax .rightDoubleTail)].map (fun p => (p.1.toList, p.2))

def active (on : Extensions) (r : ReservedOperator) : Bool := r.needs.all on

/-- Whether or not its extension is on: a qualified operator of this spelling
is refused all the same. -/
def listed? (run : List Char) : Option ReservedOperator := spellings.lookup run

def ofRun? (on : Extensions) (run : List Char) : Option Kind :=
  ((listed? run).filter (·.active on)).map kind

end ReservedOperator

end HaskellLexis
