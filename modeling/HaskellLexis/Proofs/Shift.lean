import HaskellLexis.Proofs.Lengths
import HaskellLexis.Proofs.Run

/-!
# The same text further down

A lexer sees of what lies behind it only whether a lexeme is attached to it,
and counts lines but never asks for their numbers. So two lexers before the
same text take the same lexemes, only in other lines.

* `Lexeme.scan_congr`: what a scanner sees of the place where it starts;
* `Shifted`: the second lexer stands before the same text, `d` lines down;
* `trace_shifted`: what it delivers, and why it stops.
-/

namespace HaskellLexis

variable {on : Extensions} {site site' : Site} {c : Char} {r s : List Char}

namespace Site

/-- Two places that no scanner can tell apart by more than what is attached
from the left. -/
structure Alike (site site' : Site) : Prop where
  on : site'.on = site.on
  inPragma : site'.inPragma = site.inPragma

end Site

namespace Name

theorem hashLength_congr (h : site.Alike site') (s : List Char) :
    hashLength site' s = hashLength site s := by
  simp only [hashLength, h.on, h.inPragma]

theorem hashedWordLength_congr (h : site.Alike site') (s : List Char) :
    hashedWordLength site' s = hashedWordLength site s := by
  simp only [hashedWordLength, hashLength_congr h]

theorem scanLower_congr (h : site.Alike site') (c : Char) (r : List Char) :
    scanLower site' c r = scanLower site c r := by
  simp only [scanLower, hashedWordLength_congr h, h.on]

theorem scanQualified_congr (h : site.Alike site') (q : Bool) (s : List Char) :
    scanQualified site' q s = scanQualified site q s := by
  induction s using qualified_induction generalizing q with
  | dot d r ih =>
    rw [scanQualified_dot, scanQualified_dot]
    simp only [hashedWordLength_congr h, h.on, ih]
  | other s noDot =>
    rw [scanQualified_of_ne site' q noDot, scanQualified_of_ne site q noDot, hashLength_congr h]

theorem scan_congr (h : site.Alike site') (c : Char) (r : List Char) :
    scan site' c r = scan site c r := by
  simp only [scan, scanUpper, scanQualified_congr h, scanLower_congr h]

end Name

namespace Operator

theorem ofRun_congr (h : site.Alike site') (loose : site'.isLoose = site.isLoose)
    (run s : List Char) : ofRun site' run s = ofRun site run s := by
  have mark : isTypeApplication site' s = isTypeApplication site s := by
    simp only [isTypeApplication, h.on, loose]
  unfold ofRun
  rw [mark, h.on]

theorem scan_congr (h : site.Alike site') (loose : site'.isLoose = site.isLoose) (c : Char)
    (r : List Char) : scan site' c r = scan site c r := by
  unfold scan
  rw [h.on]
  simp only [ofRun_congr h loose]

end Operator

namespace Lexeme

theorem isNegative_congr (h : site.Alike site') (loose : site'.isLoose = site.isLoose) (c : Char)
    (r : List Char) : isNegative site' c r = isNegative site c r := by
  simp only [isNegative, h.on, loose]

theorem scan_congr (h : site.Alike site') (loose : site'.isLoose = site.isLoose) (c : Char)
    (r : List Char) : scan site' c r = scan site c r := by
  simp only [scan, h.on, h.inPragma, Name.scan_congr h, Operator.scan_congr h loose,
    isNegative_congr h loose]

end Lexeme

/-! ## Lines down -/

def Position.down (d : Int) (p : Position) : Position := ⟨p.line + d, p.col⟩

def Span.down (d : Int) (s : Span) : Span := ⟨s.start.down d, s.stop.down d⟩

def Lexeme.down (d : Int) (l : Lexeme) : Lexeme := { l with span := l.span.down d }

def LexFailure.down (d : Int) (f : LexFailure) : LexFailure :=
  { f with position := f.position.down d }

def LexError.down (d : Int) (e : LexError) : LexError := { e with line := e.line.map (· + d) }

/-- A numeral has no place that could be moved. -/
def LexStop.down (d : Int) : LexStop → LexStop
  | lexical e => lexical (e.down d)
  | numeral e => numeral e

namespace Position

theorem next_down (d : Int) (p : Position) (c : Char) : (p.down d).next c = (p.next c).down d := by
  simp only [next, down]
  split
  · simp only [mk.injEq, and_true]
    omega
  · split <;> rfl

theorem after_down (d : Int) (p : Position) (cs : List Char) :
    (p.down d).after cs = (p.after cs).down d := by
  induction cs generalizing p with
  | nil => rfl
  | cons c cs ih => rw [after_cons, after_cons, next_down, ih]

end Position

theorem LexFailure.report_down (d : Int) (config : Config) (f : LexFailure) :
    (f.down d).report config = (f.report config).down d := by
  cases f with
  | mk cause position => cases cause <;> rfl

namespace Lexer

variable {d : Int} {x y z : Lexer} {l : Lexeme} {ls : List Lexeme} {out : List (Token × Lexer)}

structure Shifted (d : Int) (x y : Lexer) : Prop where
  config : y.config = x.config
  rest : y.rest = x.rest
  loose : y.site.isLoose = x.site.isLoose
  here : y.here = x.here.down d
  pragma : y.pragma = x.pragma.map (Position.down d)

theorem Shifted.alike (h : Shifted d x y) : x.site.Alike y.site := by
  constructor
  · simp only [site, h.config]
  · simp only [site, h.pragma, Option.isSome_map]

theorem Shifted.scan (h : Shifted d x y) (c : Char) (r : List Char) :
    Lexeme.scan y.site c r = Lexeme.scan x.site c r := Lexeme.scan_congr h.alike h.loose c r

theorem shifted_consume (h : Shifted d x y) (n : Nat) : Shifted d (x.consume n) (y.consume n) where
  config := h.config
  rest := by rw [rest_consume, rest_consume, h.rest]
  loose := by
    have loose := h.loose
    simp only [site, consume, h.rest] at loose ⊢
    cases (x.rest.take n).getLast? with
    | none => exact loose
    | some c => rfl
  here := by
    simp only [consume, h.rest, h.here]
    exact Position.after_down d x.here (x.rest.take n)
  pragma := h.pragma

theorem shifted_skipBlanks (h : Shifted d x y) : Shifted d x.skipBlanks y.skipBlanks := by
  rw [skipBlanks, skipBlanks, h.rest]
  exact shifted_consume h _

theorem shifted_cut (h : Shifted d x y) (k : Kind) (n : Nat) :
    (y.cut k n).1 = (x.cut k n).1.down d ∧ Shifted d (x.cut k n).2 (y.cut k n).2 := by
  have behind := shifted_consume h n
  have pragma : y.pragmaAfter k = (x.pragmaAfter k).map (Position.down d) := by
    unfold pragmaAfter
    split
    · rw [h.here]
      rfl
    · rfl
    · exact h.pragma
  refine ⟨?_, ⟨behind.config, behind.rest, behind.loose, behind.here, pragma⟩⟩
  simp only [cut, behind.here, h.here, h.rest]
  rfl

/-- Braces come and go with the columns; no lexeme depends on them. -/
theorem shifted_emit (h : Shifted d x y) (l l' : Lexeme) :
    Shifted d (x.emit l).2 (y.emit l').2 where
  config := by rw [config_emit, config_emit, h.config]
  rest := by rw [rest_emit, rest_emit, h.rest]
  loose := by rw [site_emit, site_emit, h.loose]
  here := by rw [here_emit, here_emit, h.here]
  pragma := by rw [pragma_emit, pragma_emit, h.pragma]

theorem step_shifted (step : Step x l out z) (h : Shifted d x y) :
    ∃ out' z', Step y (l.down d) out' z' ∧ Shifted d z z' := by
  obtain ⟨front, scanned, cut⟩ := step
  rename_i k n behind
  have skip := shifted_skipBlanks h
  have taken := shifted_cut skip k (n + 1)
  rw [cut] at taken
  exact ⟨_, _, .take (skip.rest.trans front) ((skip.scan _ _).trans scanned)
    (Prod.ext taken.1 rfl), shifted_emit taken.2 _ _⟩

theorem run_shifted (run : Run x ls out z) (h : Shifted d x y) :
    ∃ out' z', Run y (ls.map (Lexeme.down d)) out' z' ∧ Shifted d z z' := by
  induction run generalizing y with
  | stay x => exact ⟨[], y, .stay y, h⟩
  | step s _ ih =>
    obtain ⟨out, z, step, behind⟩ := step_shifted s h
    obtain ⟨more, w, run, last⟩ := ih behind
    exact ⟨out ++ more, w, .step step run, last⟩

theorem shifted_atEnd (h : Shifted d x y) :
    y.atEnd.items.filterMap Token.lexeme? =
        (x.atEnd.items.filterMap Token.lexeme?).map (Lexeme.down d) ∧
      y.atEnd.error? = x.atEnd.error?.map (LexFailure.down d) := by
  have pragma := h.pragma
  cases opened : x.pragma with
  | none =>
    rw [opened] at pragma
    obtain ⟨items, error⟩ := atEnd_of_none opened
    obtain ⟨items', error'⟩ := atEnd_of_none pragma
    rw [items, items', error, error', h.here]
    exact ⟨rfl, rfl⟩
  | some p =>
    rw [opened] at pragma
    rw [atEnd_of_some opened, atEnd_of_some pragma]
    exact ⟨rfl, rfl⟩

theorem shifted_halts (halts : x.Halts) (h : Shifted d x y) :
    y.trace.items.filterMap Token.lexeme? =
        (x.trace.items.filterMap Token.lexeme?).map (Lexeme.down d) ∧
      y.trace.error? = x.trace.error?.map (LexFailure.down d) := by
  have skip := shifted_skipBlanks h
  obtain front | ⟨c, r, cause, front, scanned⟩ := halts
  · rw [trace_of_nil front, trace_of_nil (skip.rest.trans front)]
    exact shifted_atEnd skip
  · obtain ⟨nothing, error⟩ := trace_of_failed front scanned
    obtain ⟨nothing', error'⟩ :=
      trace_of_failed (skip.rest.trans front) ((skip.scan c r).trans scanned)
    rw [nothing, error, nothing', error', skip.here]
    exact ⟨rfl, rfl⟩

/-- The same lexemes `d` lines further down, and the same failure. -/
theorem trace_shifted (h : Shifted d x y) :
    y.trace.items.filterMap Token.lexeme? =
        (x.trace.items.filterMap Token.lexeme?).map (Lexeme.down d) ∧
      y.trace.error? = x.trace.error?.map (LexFailure.down d) := by
  obtain ⟨ls, out, z, run, halts, -, -⟩ := exists_run x
  obtain ⟨out', w, run', behind⟩ := run_shifted run h
  obtain ⟨items, error⟩ := trace_of_run run
  obtain ⟨items', error'⟩ := trace_of_run run'
  obtain ⟨last, failure⟩ := shifted_halts halts behind
  rw [items, items', error, error', List.map_append, last]
  exact ⟨rfl, failure⟩

end Lexer

end HaskellLexis
