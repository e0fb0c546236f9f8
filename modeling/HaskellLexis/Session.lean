import HaskellLexis.Character
import HaskellLexis.Highlight
import HaskellLexis.Html
import HaskellLexis.Profile
import HaskellLexis.Reading

/-!
# Sessions

What one call can see of another: the configuration in force, the profiles
being taken, the highlighter that is installed and the readings that are open.

* `enter`, `leave`: a configuration for a while; leaving brings back the one
  before, whatever was set in between;
* `startProfile`, `stopProfile`: profiles nest, and only the innermost counts;
* `tokenize`, `highlightBlock`: calls that read the configuration and count in
  the profile;
* `openLexer`, `openSlicer`, `pull?`: readings under a key. A lexer keeps the
  configuration that it was opened with.
-/

namespace HaskellLexis

/-- A highlighter is the one for Haskell, or a function of a text and its
language, or one that is told about emphasised and numbered lines, too. -/
inductive Highlighter where
  | haskell
  | simple (f : List Char → List Char → List Char)
  | full (f : List Char → List Char → Option (List Int) → Bool → List Char)

/-- `spans` is the number of spans that a slicer was given. -/
inductive OpenReading where
  | lexer (r : LexReading)
  | slicer (spans : Nat) (r : SliceReading)

/-- `suspended` holds the configurations that are to come back, and `profiles`
the ones being taken, both with the innermost first. -/
structure Session where
  active : Config
  suspended : List Config
  profiles : List Profile
  highlighter : Highlighter
  readings : List (List Char × OpenReading)

namespace Session

def fresh : Session := ⟨.permissive, [], [], .haskell, []⟩

/-- An explicit configuration shields a call from the one in force. -/
def configFor (s : Session) (explicit : Option Config) : Config := explicit.getD s.active

def setConfig (s : Session) (c : Config) : Session := { s with active := c }

def resetConfig (s : Session) : Session := s.setConfig .permissive

def enter (s : Session) (c : Config) : Session :=
  { s with active := c, suspended := s.active :: s.suspended }

/-- There may be nothing to leave. -/
def leave? (s : Session) : Option Session :=
  match s.suspended with
  | [] => none
  | c :: cs => some { s with active := c, suspended := cs }

def startProfile (s : Session) : Session := { s with profiles := .empty :: s.profiles }

/-- The profile that ends, and the session without it. -/
def stopProfile? (s : Session) : Option (Profile × Session) :=
  match s.profiles with
  | [] => none
  | p :: ps => some (p, { s with profiles := ps })

/-- Changes the innermost profile, if one is being taken. -/
def count (s : Session) (f : Profile → Profile) : Session :=
  match s.profiles with
  | [] => s
  | p :: ps => { s with profiles := f p :: ps }

/-- The tokens of a text. This is not counted. -/
def tokens (s : Session) (explicit : Option Config) (text : List Char) :
    Logged (Except LexStop (List Token)) :=
  lexLogged (s.configFor explicit) text

/-- The spans of a text's lexemes. This is not counted either. -/
def spans (s : Session) (explicit : Option Config) (text : List Char) :
    Logged (Except LexStop (List (Category × Span))) :=
  lexSpans (s.configFor explicit) text

/-- How a call counts. A call that ends in what nobody catches does not. -/
def tally (text : List Char) (r : Except HighlightError (List Piece)) (p : Profile) : Profile :=
  match r with
  | .ok pieces => p.record text.length pieces.length
  | .error (.lexical _) => p.recordFailure text.length
  | .error (.uncaught _) => p

def tokenize (s : Session) (explicit : Option Config) (text : List Char) :
    Session × Logged (Except HighlightError (List Piece)) :=
  let r := highlightPieces (s.configFor explicit) text
  (s.count (tally text r.value), r)

/-- No pieces for a text with a lexical error, and a notice instead. -/
def tokenizeOrNone (s : Session) (text : List Char) :
    Session × Logged (Except Uncaught (Option (List Piece))) :=
  let (s', r) := s.tokenize none text
  (s', match r.value with
    | .ok pieces => ⟨.ok (some pieces), r.notices⟩
    | .error (.lexical e) => ⟨.ok none, r.notices ++ [.lexingFailed e]⟩
    | .error (.uncaught e) => ⟨.error e, r.notices⟩)

/-- Tags of Haskell, in any case. -/
def isHaskell (language : List Char) : Bool :=
  ["haskell".toList, "hs".toList].contains (language.map asciiLowerForm)

/-- A Haskell block as HTML; a text with a lexical error is shown without
classes, and so is every other language. -/
def haskellHtml (s : Session) (text language : List Char) (emphasised : Option (List Int))
    (numbered : Bool) : Session × Logged (Except Uncaught (List Char)) :=
  if isHaskell language then
    let (s', r) := s.tokenizeOrNone text
    let block (pieces : List Piece) : List Char :=
      Html.haskellBlock
        (Html.decorate (emphasised.getD []) numbered (Html.renderLines text pieces))
    (s', match r.value with
      | .ok (some pieces) => ⟨.ok (block pieces), r.notices⟩
      | .ok none => ⟨.ok (block []), r.notices ++ [.shownPlain]⟩
      | .error e => ⟨.error e, r.notices⟩)
  else (s, ⟨.ok (Html.plainBlock text language), []⟩)

/-- A block as the installed highlighter shows it. -/
def highlightBlock (s : Session) (text language : List Char) (emphasised : Option (List Int))
    (numbered : Bool) : Session × Logged (Except Uncaught (List Char)) :=
  match s.highlighter with
  | .haskell => s.haskellHtml text language emphasised numbered
  | .simple f => (s, ⟨.ok (f text language), []⟩)
  | .full f => (s, ⟨.ok (f text language emphasised numbered), []⟩)

/-- A later reading takes the place of an earlier one under the same key. -/
def keep (s : Session) (key : List Char) (r : OpenReading) : Session :=
  { s with readings := (key, r) :: s.readings.filter (·.1 != key) }

def openLexer (s : Session) (key : List Char) (explicit : Option Config) (text : List Char) :
    Session :=
  s.keep key (.lexer (Lexer.start (s.configFor explicit) text).reading)

def openSlicer (s : Session) (key : List Char) (text : List Char)
    (spans : List (Category × Span)) : Session :=
  s.keep key (.slicer spans.length (Slicer.start text spans).reading)

/-- Reads a lexer anew. -/
def again? (s : Session) (key : List Char) : Option Session :=
  match s.readings.lookup key with
  | some (.lexer r) => some (s.keep key (.lexer r.again))
  | _ => none

/-- What a pull delivers: tokens, with the configuration that errors are
reported under, or pieces, with the number of spans looked at so far. -/
inductive Pulled where
  | tokens (config : Config) (t : Trace.Taken Lexer Notice Token LexFailure)
  | pieces (looked : Nat) (t : Trace.Taken Slicer Empty Piece SpanError)

def pull? (s : Session) (key : List Char) (count : Option Nat) : Option (Session × Pulled) :=
  match s.readings.lookup key with
  | some (.lexer r) =>
    let (k, r') := r.pull count
    some (s.keep key (.lexer r'), .tokens r'.left.config k)
  | some (.slicer n r) =>
    let (k, r') := r.pull count
    some (s.keep key (.slicer n r'), .pieces (n - r'.left.spans.length) k)
  | none => none

end Session

end HaskellLexis
