import HaskellLexis.Layout
import HaskellLexis.Lexeme
import HaskellLexis.Notice
import HaskellLexis.Trace

/-!
# The lexer

A lexer stands somewhere in a text. It skips blanks, takes one lexeme, lets
the layout put braces before it, and goes on; at the end of the text it closes
the blocks and delivers the end.

* `Lexer.consume`: the only way to move, so that position and tabs follow every
  character;
* `Lexer.trace`: all that the lexer delivers from where it stands, with the
  lexer as it is left at each token;
* `lex`: a whole text.
-/

namespace HaskellLexis

/-- The tabs met so far, and where the first one stood. -/
structure Tabs where
  count : Nat
  first : Option Position
  deriving DecidableEq

namespace Tabs

def empty : Tabs := ⟨0, none⟩

def see (t : Tabs) (p : Position) (c : Char) : Tabs :=
  if c = '\t' then ⟨t.count + 1, t.first <|> some p⟩ else t

/-- The tabs of a text that starts at `p`, added. -/
def seeAll (t : Tabs) (p : Position) : List Char → Tabs
  | [] => t
  | c :: cs => (t.see p c).seeAll (p.next c) cs

end Tabs

/-- `rest` is the text not yet taken, `before` the last character taken, `here`
the position in between, and `pragma` where the open pragma starts. -/
structure Lexer where
  config : Config
  rest : List Char
  before : Option Char
  here : Position
  pragma : Option Position
  layout : Layout
  tabs : Tabs

structure LexFailure where
  cause : LexCause
  position : Position
  deriving DecidableEq

def LexFailure.report (config : Config) (f : LexFailure) : LexStop :=
  .ofCause config f.cause f.position

abbrev LexTrace := Trace Lexer Notice Token LexFailure

namespace Lexer

def start (config : Config) (text : List Char) : Lexer :=
  ⟨config, text, none, .origin, none, .start, .empty⟩

def site (x : Lexer) : Site := ⟨x.config.enabled, x.pragma.isSome, x.before⟩

/-- Takes the first `n` characters. -/
def consume (x : Lexer) (n : Nat) : Lexer :=
  let taken := x.rest.take n
  { x with
    rest := x.rest.drop n
    before := taken.getLast? <|> x.before
    here := x.here.after taken
    tabs := x.tabs.seeAll x.here taken }

def skipBlanks (x : Lexer) : Lexer := x.consume (runLength isBlank x.rest)

theorem rest_consume (x : Lexer) (n : Nat) : (x.consume n).rest = x.rest.drop n := rfl

theorem length_rest_consume (x : Lexer) (n : Nat) :
    (x.consume n).rest.length = x.rest.length - n := by
  simp [rest_consume]

/-- An opening lexeme opens a pragma, also inside another one. -/
def pragmaAfter (x : Lexer) (kind : Kind) : Option Position :=
  match kind with
  | .openPragma _ => some x.here
  | .closePragma => none
  | _ => x.pragma

/-- A lexeme of `n` characters, and the lexer behind it. -/
def cut (x : Lexer) (kind : Kind) (n : Nat) : Lexeme × Lexer :=
  let y := x.consume n
  (⟨kind, ⟨x.here, y.here⟩, x.rest.take n⟩, { y with pragma := x.pragmaAfter kind })

def withLayout (x : Lexer) (l : Layout) : Lexer := { x with layout := l }

/-- Indentation looks through comments, and through everything in a pragma. -/
def seesLayout (x : Lexer) (kind : Kind) : Bool := !kind.isTransparent && x.pragma.isNone

/-- Braces as items of a trace. -/
def braceItems (x : Lexer) (braces : List (Brace × Layout)) : List (Token × Lexer) :=
  braces.map fun (b, l) => (.virtual b, x.withLayout l)

/-- The tokens that a lexeme makes, each with the lexer as it is left then,
and the lexer that goes on. -/
def emit (x : Lexer) (l : Lexeme) : List (Token × Lexer) × Lexer :=
  if x.seesLayout l.kind then
    let p := x.layout.place l.kind l.span.start
    (x.braceItems p.braces ++ [(.lexeme l, x.withLayout p.layout)],
      x.withLayout (p.layout.settle l.kind l.span.stop))
  else ([(.lexeme l, x)], x)

def pragmaNotices (x : Lexer) (c : Char) (r : List Char) : List Notice :=
  if x.config.warns .unrecognisedPragmas then
    ((Lexeme.unrecognisedPragma? x.config.enabled c r).map
      (.unrecognisedPragma x.config.sourceLabel x.here ·)).toList
  else []

def tabNotices (x : Lexer) : List Notice :=
  if x.config.warns .tabs then
    (x.tabs.first.map (.tabs x.config.sourceLabel · x.tabs.count)).toList
  else []

/-- The end of the text. -/
def atEnd (x : Lexer) : LexTrace :=
  match x.pragma with
  | some p => .failed ⟨.openPragma, p⟩ x
  | none =>
    let p := x.layout.finish
    let y := x.withLayout p.layout
    .itemAll (x.braceItems p.braces)
      (.remarkAll y.tabNotices
        (.item (.lexeme ⟨.endOfText, ⟨x.here, x.here⟩, []⟩) y (.done y)))

/-- Looking for the end of a comment takes all the text; any other lexeme that
fails is not taken. -/
def afterFailure (x : Lexer) (cause : LexCause) : Lexer :=
  match cause with
  | .openComment => x.consume x.rest.length
  | _ => x

theorem rest_cut (x : Lexer) (kind : Kind) (n : Nat) : (x.cut kind n).2.rest = x.rest.drop n := rfl

theorem rest_emit (x : Lexer) (l : Lexeme) : (x.emit l).2.rest = x.rest := by
  unfold emit
  split <;> rfl

theorem length_rest_skipBlanks (x : Lexer) : x.skipBlanks.rest.length ≤ x.rest.length := by
  simp [skipBlanks, length_rest_consume]

def trace (x : Lexer) : LexTrace :=
  let y := x.skipBlanks
  match _h : y.rest with
  | [] => y.atEnd
  | c :: r =>
    .remarkAll (y.pragmaNotices c r)
      (match Lexeme.scan y.site c r with
        | .error cause => .failed ⟨cause, y.here⟩ (y.afterFailure cause)
        | .ok (kind, n) =>
          let t := y.cut kind (n + 1)
          let e := t.2.emit t.1
          .itemAll e.1 (trace e.2))
  termination_by x.rest.length
  decreasing_by
    have := length_rest_skipBlanks x
    have hy := congrArg List.length _h
    simp only [rest_emit, rest_cut, List.length_drop, List.length_cons, y] at hy ⊢
    omega

theorem trace_of_nil {x : Lexer} (h : x.skipBlanks.rest = []) :
    x.trace = x.skipBlanks.atEnd := by
  rw [trace]
  split
  · rfl
  · simp_all

theorem trace_of_cons {x : Lexer} {c : Char} {r : List Char} (h : x.skipBlanks.rest = c :: r) :
    x.trace = .remarkAll (x.skipBlanks.pragmaNotices c r)
      (match Lexeme.scan x.skipBlanks.site c r with
        | .error cause => .failed ⟨cause, x.skipBlanks.here⟩ (x.skipBlanks.afterFailure cause)
        | .ok (kind, n) =>
          let t := x.skipBlanks.cut kind (n + 1)
          let e := t.2.emit t.1
          .itemAll e.1 e.2.trace) := by
  rw [trace]
  split
  · simp_all
  · rename_i c' r' h'
    rw [h] at h'
    cases h'
    rfl

end Lexer

/-- The tokens of a text, the end of the text last, or why there are none. -/
def lex (config : Config) (text : List Char) : Except LexStop (List Token) :=
  (Lexer.start config text).trace.result.mapError (·.report config)

end HaskellLexis
