import Mathlib.Data.List.Chain
import HaskellLexis.Proofs.Failure

/-!
# Pragmas are closed

A lexer knows that it is inside a pragma, but not how many are open. So the
lexemes that bound pragmas come in groups: some that open one, and then the one
that closes them all.

* `Closure`: one such group;
* `Settles`: what a lexer that comes to the end of its text has met;
* `pragmas_close`: openers and closers alternate, but for openers that stand
  inside an open pragma.
-/

namespace HaskellLexis

def Kind.opensPragma : Kind → Bool
  | openPragma _ => true
  | _ => false

def Lexeme.boundsPragma (l : Lexeme) : Bool := l.kind.boundsPragma

/-- Lexemes that open pragmas, each inside the one before, and the one lexeme
that closes them. -/
structure Closure where
  openers : List Lexeme
  closer : Lexeme
  some : openers ≠ []
  opens : ∀ l ∈ openers, l.kind.opensPragma = true
  closes : closer.kind = .closePragma

def Closure.lexemes (c : Closure) : List Lexeme := c.openers ++ [c.closer]

/-- The second lexeme does not open a pragma inside the one that the first
opens. -/
def Apart (l m : Lexeme) : Prop := ¬(l.kind.opensPragma = true ∧ m.kind.opensPragma = true)

/-- A pragma is only closed if one is open, as `inside` says at the start, and
none is open at the end. -/
def Settles : Bool → List Lexeme → Prop
  | inside, [] => inside = false
  | inside, l :: ls =>
    if l.kind.opensPragma then Settles true ls
    else if l.kind = .closePragma then inside = true ∧ Settles false ls
    else Settles inside ls

theorem Kind.boundsPragma_iff {k : Kind} :
    k.boundsPragma = true ↔ k.opensPragma = true ∨ k = .closePragma := by
  cases k <;> simp [boundsPragma, opensPragma]

theorem Kind.exists_of_opensPragma {k : Kind} (h : k.opensPragma = true) :
    ∃ p, k = .openPragma p := by
  cases k with
  | openPragma p => exact ⟨p, rfl⟩
  | _ => cases h

theorem Closure.opensPragma_closer (c : Closure) : c.closer.kind.opensPragma = false := by
  rw [c.closes]
  rfl

section

variable {x y : Lexer} {l : Lexeme} {ls : List Lexeme} {out : List (Token × Lexer)}

theorem inside_of_step (h : Lexer.Step x l out y) (closes : l.kind = .closePragma) :
    x.pragma.isSome = true := by
  obtain ⟨front, scanned, cut⟩ := h
  rename_i k n _
  obtain ⟨rfl, -⟩ := Prod.mk.inj cut
  obtain rfl : k = .closePragma := closes
  exact Lexeme.inPragma_of_scan scanned

/-- A lexer that ends outside of pragmas has closed all that it has opened. -/
theorem settles_of_run (run : Lexer.Run x ls out y) (closed : y.pragma = none) :
    Settles x.pragma.isSome ls := by
  induction run with
  | stay x =>
    rw [closed]
    rfl
  | @step x y z l ls out more s _ ih =>
    have rest := ih closed
    rw [Lexer.pragma_of_step s] at rest
    unfold Settles
    split
    · rename_i opens
      obtain ⟨p, opener⟩ := Kind.exists_of_opensPragma opens
      rwa [Lexeme.pragmaAfter, opener] at rest
    split
    · rename_i closes
      rw [Lexeme.pragmaAfter, closes] at rest
      exact ⟨inside_of_step s closes, rest⟩
    · rename_i noOpener noCloser
      have inner : l.kind.boundsPragma = false := by
        rw [← Bool.not_eq_true, Kind.boundsPragma_iff]
        rintro (opens | closes)
        · exact noOpener opens
        · exact noCloser closes
      rwa [Lexeme.pragmaAfter_inner inner] at rest

end

/-- What settles is a row of closures. What settles inside a pragma goes on
with more openers, if any, up to the closer. -/
theorem closures_of_settles (ls : List Lexeme) :
    (Settles false ls → ∃ cs : List Closure,
      ls.filter Lexeme.boundsPragma = cs.flatMap Closure.lexemes) ∧
    (Settles true ls → ∃ (openers : List Lexeme) (closer : Lexeme) (cs : List Closure),
      (∀ m ∈ openers, m.kind.opensPragma = true) ∧ closer.kind = .closePragma ∧
      ls.filter Lexeme.boundsPragma = openers ++ closer :: cs.flatMap Closure.lexemes) := by
  induction ls with
  | nil =>
    refine ⟨fun _ => ⟨[], rfl⟩, ?_⟩
    intro h
    cases (show true = false from h)
  | cons l ls ih =>
    obtain ⟨outside, inside⟩ := ih
    unfold Settles
    by_cases opens : l.kind.opensPragma = true
    · have bounds : l.boundsPragma = true := Kind.boundsPragma_iff.2 (.inl opens)
      rw [if_pos opens, if_pos opens, List.filter_cons_of_pos bounds]
      constructor
      · intro h
        obtain ⟨openers, closer, cs, all, closes, eq⟩ := inside h
        have all' : ∀ m ∈ l :: openers, m.kind.opensPragma = true :=
          List.forall_mem_cons.2 ⟨opens, all⟩
        refine ⟨⟨l :: openers, closer, List.cons_ne_nil l openers, all', closes⟩ :: cs, ?_⟩
        rw [eq, List.flatMap_cons, Closure.lexemes, List.append_assoc]
        rfl
      · intro h
        obtain ⟨openers, closer, cs, all, closes, eq⟩ := inside h
        refine ⟨l :: openers, closer, cs, List.forall_mem_cons.2 ⟨opens, all⟩, closes, ?_⟩
        rw [eq]
        rfl
    rw [if_neg opens, if_neg opens]
    by_cases closes : l.kind = .closePragma
    · have bounds : l.boundsPragma = true := Kind.boundsPragma_iff.2 (.inr closes)
      rw [if_pos closes, if_pos closes, List.filter_cons_of_pos bounds]
      constructor
      · rintro ⟨none, -⟩
        cases none
      · rintro ⟨-, h⟩
        obtain ⟨cs, eq⟩ := outside h
        refine ⟨[], l, cs, List.forall_mem_nil _, closes, ?_⟩
        rw [eq]
        rfl
    · have inner : ¬l.boundsPragma = true := by
        rw [Lexeme.boundsPragma, Kind.boundsPragma_iff]
        rintro (opener | closer)
        · exact opens opener
        · exact closes closer
      rw [if_neg closes, if_neg closes, List.filter_cons_of_neg inner]
      exact ⟨outside, inside⟩

/-- Closures of one opener are what openers that stand apart leave. -/
theorem isChain_closures (cs : List Closure) :
    (cs.flatMap Closure.lexemes).IsChain Apart ↔ ∀ c ∈ cs, ∃ l, c.openers = [l] := by
  induction cs with
  | nil => exact ⟨fun _ => List.forall_mem_nil _, fun _ => .nil⟩
  | cons c cs ih =>
    rw [List.flatMap_cons, List.forall_mem_cons, ← ih]
    have behind (l : Lexeme) : Apart c.closer l := by
      rintro ⟨opens, -⟩
      rw [c.opensPragma_closer] at opens
      cases opens
    have before (l : Lexeme) : Apart l c.closer := by
      rintro ⟨-, opens⟩
      rw [c.opensPragma_closer] at opens
      cases opens
    obtain ⟨l, more, openers⟩ := List.exists_cons_of_ne_nil c.some
    have opens := c.opens
    rw [Closure.lexemes, openers] at *
    cases more with
    | nil =>
      change List.IsChain Apart (l :: c.closer :: cs.flatMap Closure.lexemes) ↔ _
      rw [List.isChain_cons_cons, List.isChain_cons]
      constructor
      · rintro ⟨-, -, chain⟩
        exact ⟨⟨l, rfl⟩, chain⟩
      · rintro ⟨-, chain⟩
        exact ⟨before l, fun m _ => behind m, chain⟩
    | cons m more =>
      constructor
      · intro chain
        have apart := (List.isChain_cons_cons.1 chain).1
        exact absurd ⟨opens l (by simp), opens m (by simp)⟩ apart
      · rintro ⟨⟨k, single⟩, -⟩
        cases single

/-- **Pragmas are closed.** Of a text that lexes, the lexemes that bound pragmas
are closures, so that the first of them opens a pragma and the last one closes
one. If no opener stands inside an open pragma, then they alternate, each opener
with a closer of its own; and only then. -/
theorem pragmas_close {config : Config} {text : List Char} {tokens : List Token}
    (h : lex config text = .ok tokens) :
    ∃ cs : List Closure,
      (located tokens).filter Lexeme.boundsPragma = cs.flatMap Closure.lexemes ∧
      (((located tokens).filter Lexeme.boundsPragma).IsChain Apart ↔
        ∀ c ∈ cs, ∃ l, c.openers = [l]) := by
  obtain ⟨ls, out, y, run, -, closed, rfl⟩ := run_of_lex h
  obtain ⟨cs, eq⟩ := (closures_of_settles ls).1 (settles_of_run run closed)
  rw [located_of_run run, eq]
  exact ⟨cs, rfl, isChain_closures cs⟩

/-- An opener inside an open pragma has no closer of its own. -/
theorem pragmas_close_nested :
    let text := ['{', '-', '#', 'S', 'C', 'C', ' ', '{', '-', '#', 'A', 'N', 'N', '#', '-', '}']
    let mark (k : Kind) (start stop : Int) (text : List Char) : Lexeme :=
      ⟨k, ⟨⟨1, start⟩, ⟨1, stop⟩⟩, text⟩
    let outer := mark (.openPragma .scc) 1 7 ['{', '-', '#', 'S', 'C', 'C']
    let inner := mark (.openPragma .ann) 8 14 ['{', '-', '#', 'A', 'N', 'N']
    let closer := mark .closePragma 14 17 ['#', '-', '}']
    let tokens := [.lexeme outer, .lexeme inner, .lexeme closer, .lexeme (Lexeme.atEnd text)]
    lex .permissive text = .ok tokens ∧
      (located tokens).filter Lexeme.boundsPragma = [outer, inner, closer] ∧
      ∃ cs : List Closure,
        (located tokens).filter Lexeme.boundsPragma = cs.flatMap Closure.lexemes ∧
        (((located tokens).filter Lexeme.boundsPragma).IsChain Apart ↔
          ∀ c ∈ cs, ∃ l, c.openers = [l]) := by
  intro text mark outer inner closer tokens
  have h : lex .permissive text = .ok tokens := by decide +kernel
  exact ⟨h, rfl, pragmas_close h⟩

end HaskellLexis
