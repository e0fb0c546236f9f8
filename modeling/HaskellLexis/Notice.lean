import HaskellLexis.LexError

/-!
# Notices

What is logged on the way, at two levels, under the channel of the part that
logs it.
-/

namespace HaskellLexis

inductive Level where
  | debug
  | warning
  deriving DecidableEq

def Level.name : Level → String
  | debug => "DEBUG"
  | warning => "WARNING"

/-- All channels lie under one root. -/
def channelRoot : String := "hshighlight"

/-- A name that lies outside the root is put under it. -/
def channelName (name : String) : String :=
  if name = channelRoot || (channelRoot ++ ".").toList.isPrefixOf name.toList then name
  else channelRoot ++ "." ++ name

inductive Notice where
  | droppedVirtual (count : Nat)
  | lexingFailed (e : LexError)
  | shownPlain
  | tabs (source : String) (first : Position) (count : Nat)
  | unrecognisedPragma (source : String) (start : Position) (word : List Char)
  deriving DecidableEq

namespace Notice

def level : Notice → Level
  | droppedVirtual _ | lexingFailed _ | shownPlain => .debug
  | tabs _ _ _ | unrecognisedPragma _ _ _ => .warning

def channel : Notice → String
  | droppedVirtual _ | lexingFailed _ => channelName "driver"
  | shownPlain => channelName "highlighting"
  | tabs _ _ _ => channelName "lexer.core"
  | unrecognisedPragma _ _ _ => channelName "lexer.scanners.pragma"

def message : Notice → String
  | droppedVirtual n => "Dropped " ++ toString n ++ " token(s) without a source position"
  | lexingFailed e => "Lexing failed: " ++ e.message
  | shownPlain => "Rendering unlexable Haskell block as plain text"
  | tabs source first count =>
    source ++ ":" ++ first.text ++ ": tab character found (" ++ toString count ++ " in total)"
  | unrecognisedPragma source start word =>
    source ++ ":" ++ start.text ++ ": unrecognised pragma " ++ Quoted.text word

end Notice

end HaskellLexis
