import Mathlib.Data.List.Induction
import HaskellLexis.Session

/-!
# Moves of a session

What happens in a session, one move after the other. Two sorts of blocks are
begun and ended by moves, in any order: configurations for a while, and
profiles.

* `Move`, `Session.act`, `Session.after`: one move, and many;
* `height`, `level?`: how many blocks are open after some moves, all of them,
  or those that the moves began themselves;
* `exists_block`: every open block has begun with a move of its own;
* `…_act`: what a move leaves as it is.
-/

namespace HaskellLexis

/-- What can be done in a session. A block is left in one way, be it by an
exception or not. -/
inductive Move where
  | setConfig (c : Config)
  | resetConfig
  | enter (c : Config)
  | leave
  | startProfile
  | stopProfile
  | tokens (explicit : Option Config) (text : List Char)
  | spans (explicit : Option Config) (text : List Char)
  | tokenize (explicit : Option Config) (text : List Char)
  | tokenizeOrNone (text : List Char)
  | highlightBlock (text language : List Char) (emphasised : Option (List Int)) (numbered : Bool)
  | openLexer (key : List Char) (explicit : Option Config) (text : List Char)
  | openSlicer (key text : List Char) (spans : List (Category × Span))
  | again (key : List Char)
  | pull (key : List Char) (count : Option Nat)

namespace Session

/-- A move that is refused, such as one that leaves when there is nothing to
leave, changes nothing. -/
def act (s : Session) : Move → Session
  | .setConfig c => s.setConfig c
  | .resetConfig => s.resetConfig
  | .enter c => s.enter c
  | .leave => s.leave?.getD s
  | .startProfile => s.startProfile
  | .stopProfile => (s.stopProfile?.map Prod.snd).getD s
  | .tokens _ _ | .spans _ _ => s
  | .tokenize explicit text => (s.tokenize explicit text).1
  | .tokenizeOrNone text => (s.tokenizeOrNone text).1
  | .highlightBlock text language emphasised numbered =>
    (s.highlightBlock text language emphasised numbered).1
  | .openLexer key explicit text => s.openLexer key explicit text
  | .openSlicer key text spans => s.openSlicer key text spans
  | .again key => (s.again? key).getD s
  | .pull key count => ((s.pull? key count).map Prod.fst).getD s

def after (s : Session) (moves : List Move) : Session := moves.foldl act s

variable {s : Session} {m : Move}

theorem after_cons (s : Session) (m : Move) (ms : List Move) :
    s.after (m :: ms) = (s.act m).after ms := rfl

theorem after_append (s : Session) (as bs : List Move) :
    s.after (as ++ bs) = (s.after as).after bs := List.foldl_append

end Session

/-! ## Blocks -/

/-- What a move is to the blocks of one sort. -/
inductive Bound where
  | begins
  | ends
  | inside

namespace Bound

/-- The number of open blocks behind a move; where none is open, none ends. -/
def height : Bound → Nat → Nat
  | begins, n => n + 1
  | ends, n => n - 1
  | inside, n => n

/-- The same, where no other blocks than the `n` may end. -/
def level? : Bound → Nat → Option Nat
  | begins, n => some (n + 1)
  | ends, 0 => none
  | ends, n + 1 => some n
  | inside, n => some n

theorem height_of_level {b : Bound} {n k : Nat} (h : b.level? n = some k) : b.height n = k := by
  cases b with
  | begins | inside => exact Option.some.inj h
  | ends =>
    cases n with
    | zero => cases h
    | succ n => exact Option.some.inj h

end Bound

namespace Move

def scope : Move → Bound
  | enter _ => .begins
  | leave => .ends
  | _ => .inside

def profiling : Move → Bound
  | startProfile => .begins
  | stopProfile => .ends
  | _ => .inside

end Move

section Blocks

variable {bound : Move → Bound} {ms : List Move} {k : Nat}

/-- The number of blocks that some moves leave open. -/
def height (bound : Move → Bound) (ms : List Move) : Nat :=
  ms.foldl (fun n m => (bound m).height n) 0

/-- The number of blocks open after some moves of `n` before them and those
that the moves begin, if the moves end none but these. -/
def level? (bound : Move → Bound) (n : Nat) (ms : List Move) : Option Nat :=
  ms.foldlM (fun n m => (bound m).level? n) n

/-- Moves that end every block that they begin, and no other. -/
def Balanced (bound : Move → Bound) (ms : List Move) : Prop := level? bound 0 ms = some 0

theorem level?_cons (bound : Move → Bound) (n : Nat) (m : Move) (ms : List Move) :
    level? bound n (m :: ms) = ((bound m).level? n).bind (level? bound · ms) :=
  List.foldlM_cons

theorem level?_concat (bound : Move → Bound) (n : Nat) (ms : List Move) (m : Move) :
    level? bound n (ms ++ [m]) = (level? bound n ms).bind (bound m).level? := by
  rw [level?, List.foldlM_append]
  simp only [List.foldlM_cons, List.foldlM_nil, bind_pure]
  rfl

theorem height_concat (bound : Move → Bound) (ms : List Move) (m : Move) :
    height bound (ms ++ [m]) = (bound m).height (height bound ms) := by
  rw [height, List.foldl_append]
  rfl

/-- Each open block, the innermost one counted first, has begun with a move
after which as many are open as there are blocks further in. -/
theorem exists_block (h : k < height bound ms) :
    ∃ earlier m inside, ms = earlier ++ m :: inside ∧ bound m = .begins ∧
      level? bound 0 inside = some k := by
  induction ms using List.reverseRecOn generalizing k with
  | nil => cases h
  | append_singleton ms m ih =>
    have further {j : Nat} (below : j < height bound ms) (moved : (bound m).level? j = some k) :
        ∃ earlier b inside, ms ++ [m] = earlier ++ b :: inside ∧ bound b = .begins ∧
          level? bound 0 inside = some k := by
      obtain ⟨earlier, b, inside, rfl, begins, level⟩ := ih below
      refine ⟨earlier, b, inside ++ [m], by simp, begins, ?_⟩
      rw [level?_concat, level]
      exact moved
    rw [height_concat] at h
    cases kind : bound m with
    | begins =>
      rw [kind] at h further
      cases k with
      | zero => exact ⟨ms, m, [], rfl, kind, rfl⟩
      | succ k => exact further (Nat.lt_of_succ_lt_succ h) rfl
    | ends =>
      rw [kind] at h further
      exact further (j := k + 1) (Nat.lt_sub_iff_add_lt.1 h) rfl
    | inside =>
      rw [kind] at h further
      exact further h rfl

end Blocks

/-! ## What a move leaves as it is -/

namespace Move

/-- The key of a move that opens or reads something. -/
def key? : Move → Option (List Char)
  | openLexer key _ _ | openSlicer key _ _ | again key | pull key _ => some key
  | _ => none

end Move

namespace Session

variable {s : Session} {m : Move} {key : List Char}

theorem exists_profiles_count (s : Session) (f : Profile → Profile) :
    ∃ profiles, s.count f = { s with profiles } := by
  unfold count
  split <;> exact ⟨_, rfl⟩

/-- The built-in highlighter tokenizes a block of its language, and does so once. -/
theorem highlightBlock_haskell (haskell : s.highlighter = .haskell) (text language : List Char)
    (emphasised : Option (List Int)) (numbered : Bool) :
    (s.highlightBlock text language emphasised numbered).1 =
      if isHaskell language then (s.tokenize none text).1 else s := by
  simp only [highlightBlock, haskell, haskellHtml]
  split <;> rfl

/-- Other highlighters do not tokenize. -/
theorem highlightBlock_cases (s : Session) (text language : List Char)
    (emphasised : Option (List Int)) (numbered : Bool) :
    (s.highlightBlock text language emphasised numbered).1 = s ∨
      (s.highlightBlock text language emphasised numbered).1 = (s.tokenize none text).1 := by
  cases kind : s.highlighter with
  | haskell =>
    rw [highlightBlock_haskell kind]
    split
    · exact .inr rfl
    · exact .inl rfl
  | simple f | full f => simp only [highlightBlock, kind, true_or]

/-- A move changes the configurations, or the profiles, or the readings. -/
theorem act_cases (s : Session) (m : Move) :
    (∃ active suspended, s.act m = { s with active, suspended } ∧
      (m.scope = .inside → suspended = s.suspended)) ∨
    (∃ profiles, s.act m = { s with profiles }) ∨
    ∃ key readings, m.key? = some key ∧ s.act m = { s with readings } := by
  cases m with
  | setConfig c => exact .inl ⟨c, _, rfl, fun _ => rfl⟩
  | resetConfig => exact .inl ⟨.permissive, _, rfl, fun _ => rfl⟩
  | enter c => exact .inl ⟨c, _, rfl, nofun⟩
  | leave =>
    left
    simp only [act, leave?]
    split <;> exact ⟨_, _, rfl, nofun⟩
  | startProfile => exact .inr (.inl ⟨_, rfl⟩)
  | stopProfile =>
    right
    left
    simp only [act, stopProfile?]
    split <;> exact ⟨_, rfl⟩
  | tokens | spans => exact .inr (.inl ⟨s.profiles, rfl⟩)
  | tokenize | tokenizeOrNone => exact .inr (.inl (s.exists_profiles_count _))
  | highlightBlock text language emphasised numbered =>
    right
    left
    rw [act]
    obtain eq | eq := s.highlightBlock_cases text language emphasised numbered
    · exact ⟨s.profiles, eq⟩
    · rw [eq]
      exact s.exists_profiles_count _
  | openLexer key | openSlicer key => exact .inr (.inr ⟨key, _, rfl, rfl⟩)
  | again key =>
    refine .inr (.inr ⟨key, ?_⟩)
    simp only [act, again?]
    split <;> exact ⟨_, rfl, rfl⟩
  | pull key count =>
    refine .inr (.inr ⟨key, ?_⟩)
    simp only [act, pull?]
    split <;> exact ⟨_, rfl, rfl⟩

theorem suspended_act (inside : m.scope = .inside) : (s.act m).suspended = s.suspended := by
  obtain ⟨active, suspended, eq, same⟩ | ⟨profiles, eq⟩ | ⟨key, readings, -, eq⟩ := s.act_cases m
  · rw [eq]
    exact same inside
  · rw [eq]
  · rw [eq]

theorem highlighter_act (s : Session) (m : Move) : (s.act m).highlighter = s.highlighter := by
  obtain ⟨active, suspended, eq, -⟩ | ⟨profiles, eq⟩ | ⟨key, readings, -, eq⟩ := s.act_cases m <;>
    rw [eq]

theorem readings_act (other : m.key? = none) : (s.act m).readings = s.readings := by
  obtain ⟨active, suspended, eq, -⟩ | ⟨profiles, eq⟩ | ⟨key, readings, reads, -⟩ := s.act_cases m
  · rw [eq]
  · rw [eq]
  · rw [other] at reads
    cases reads

end Session

end HaskellLexis
