import Mathlib.Algebra.Ring.Int.Defs
import HaskellLexis.Proofs.Checks
import HaskellLexis.Proofs.LongNumerals
import HaskellLexis.Proofs.Moves

/-!
# Profiles account for calls

A profile counts the calls that are made while no other profile is being taken
inside it, each of them once.

* `Call`: a text tokenized under a configuration;
* `Profile.ofCalls`: what a profile of some calls says;
* `Session.callsWithin`: the calls that fall to one profile among moves;
* `profiles_of_level`: the profile counts these and no others;
* `profiles_account`: all profiles that are open, and the one that ends.
-/

namespace HaskellLexis

structure Call where
  config : Config
  text : List Char

namespace Call

def lexes (c : Call) : Bool := (lex c.config c.text).isOk

/-- A call whose text is given up at a numeral is never counted. -/
def counts (c : Call) : Bool :=
  match lex c.config c.text with
  | .error (.numeral _) => false
  | _ => true

/-- What the call returns, if its text lexes. -/
def pieces (c : Call) : List Piece :=
  match (highlightPieces c.config c.text).value with
  | .ok pieces => pieces
  | .error _ => []

/-- How the call counts. -/
def tally (c : Call) : Profile → Profile :=
  Session.tally c.text (highlightPieces c.config c.text).value

end Call

/-- The sums of the lengths of the texts and of the pieces, the number of calls,
and the number of those whose text does not lex. -/
def Profile.ofCalls (calls : List Call) : Profile where
  sourceLength := (calls.map (·.text.length)).sum
  tokenCount := ((calls.filter (·.lexes)).map (·.pieces.length)).sum
  calls := calls.length
  failures := calls.countP (!·.lexes)

/-- A text that lexes is never refused at a span, so its call counts. -/
theorem Call.tally_ofCalls (c : Call) (calls : List Call) :
    c.tally (.ofCalls (calls.filter counts)) = .ofCalls ((calls ++ [c]).filter counts) := by
  rw [List.filter_append]
  cases lexed : lex c.config c.text with
  | ok tokens =>
    obtain ⟨pieces, value⟩ := exists_pieces_of_lex lexed
    have returned : c.pieces = pieces := by rw [Call.pieces, value]
    have lexes : c.lexes = true := by rw [Call.lexes, lexed]; rfl
    have counted : c.counts = true := by rw [Call.counts, lexed]
    rw [tally, value, List.filter_cons_of_pos counted]
    simp [Session.tally, Profile.record, Profile.ofCalls, lexes, returned]
  | error e =>
    rw [tally, highlightPieces_of_error lexed]
    cases e with
    | lexical e =>
      have lexes : c.lexes = false := by rw [Call.lexes, lexed]; rfl
      have counted : c.counts = true := by rw [Call.counts, lexed]
      rw [List.filter_cons_of_pos counted]
      simp [Session.tally, HighlightError.ofStop, Profile.recordFailure, Profile.ofCalls, lexes]
    | numeral o =>
      have uncounted : ¬c.counts = true := by rw [Call.counts, lexed]; exact nofun
      rw [List.filter_cons_of_neg uncounted, List.filter_nil, List.append_nil]
      rfl

theorem Call.counts_iff {c : Call} :
    c.counts = true ↔ ¬∃ o, lex c.config c.text = .error (.numeral o) := by
  rw [counts]
  split
  · rename_i o lexed
    exact iff_of_false nofun (fun none => none ⟨o, lexed⟩)
  · rename_i read
    exact iff_of_true rfl (fun ⟨o, lexed⟩ => read o lexed)

/-- Each call adds one to the number of calls, so none may be missing. -/
theorem Profile.ofCalls_counts_iff (calls : List Call) :
    ofCalls (calls.filter Call.counts) = ofCalls calls ↔
      ∀ c ∈ calls, ¬∃ o, lex c.config c.text = .error (.numeral o) := by
  simp only [← Call.counts_iff]
  constructor
  · intro same
    exact List.length_filter_eq_length_iff.1 (congrArg Profile.calls same)
  · intro all
    rw [List.filter_eq_self.2 all]

namespace Move

theorem profiling_begins {m : Move} (h : m.profiling = .begins) : m = .startProfile := by
  cases m <;> cases h
  rfl

theorem profiling_ends {m : Move} (h : m.profiling = .ends) : m = .stopProfile := by
  cases m <;> cases h
  rfl

end Move

namespace Session

variable {s : Session} {m : Move} {ms : List Move} {n k : Nat}

/-- The call that a move makes, with the built-in highlighter installed. -/
def call? (s : Session) : Move → Option Call
  | .tokenize explicit text => some ⟨s.configFor explicit, text⟩
  | .tokenizeOrNone text => some ⟨s.active, text⟩
  | .highlightBlock text language _ _ => if isHaskell language then some ⟨s.active, text⟩ else none
  | _ => none

/-- The calls that fall to a profile: those that are made while it is the
innermost one. At first `n` profiles are open inside it. -/
def callsWithin : Session → Nat → List Move → List Call
  | _, _, [] => []
  | s, n, m :: ms =>
    (if n = 0 then (s.call? m).toList else []) ++ callsWithin (s.act m) (m.profiling.height n) ms

theorem profiles_count (s : Session) (f : Profile → Profile) :
    (s.count f).profiles = s.profiles.modifyHead f := by
  unfold count
  split <;> rename_i profiles <;> rw [profiles] <;> rfl

/-- Between its bounds a profile changes by calls only. -/
theorem profiles_act (haskell : s.highlighter = .haskell) (inside : m.profiling = .inside) :
    (s.act m).profiles = s.profiles.modifyHead ((s.call? m).elim id Call.tally) := by
  have kept : s.profiles = s.profiles.modifyHead id := (congrFun List.modifyHead_id _).symm
  cases m with
  | startProfile | stopProfile => cases inside
  | tokenize | tokenizeOrNone => exact s.profiles_count _
  | highlightBlock text language emphasised numbered =>
    rw [act, highlightBlock_haskell haskell, call?]
    split
    · exact s.profiles_count _
    · exact kept
  | leave =>
    simp only [act, leave?]
    split <;> exact kept
  | again key =>
    simp only [act, again?]
    split <;> exact kept
  | pull key count =>
    simp only [act, pull?]
    split <;> exact kept
  | _ => exact kept

/-- A profile counts the call of a move if it is the innermost one then. -/
theorem profiles_of_level_act {own outer : List Profile} {calls : List Call}
    (haskell : s.highlighter = .haskell)
    (split : s.profiles = own ++ .ofCalls (calls.filter Call.counts) :: outer)
    (level : m.profiling.level? own.length = some n) :
    ∃ own', own'.length = n ∧
      (s.act m).profiles = own' ++
        .ofCalls ((calls ++ if own.length = 0 then (s.call? m).toList else []).filter
          Call.counts) :: outer := by
  cases kind : m.profiling with
  | begins =>
    rw [kind] at level
    obtain rfl := Move.profiling_begins kind
    refine ⟨.empty :: own, Option.some.inj level, ?_⟩
    simp [act, startProfile, split, call?]
  | ends =>
    rw [kind] at level
    obtain rfl := Move.profiling_ends kind
    cases own with
    | nil => cases level
    | cons p own =>
      refine ⟨own, Option.some.inj level, ?_⟩
      simp [act, stopProfile?, split]
  | inside =>
    rw [kind] at level
    have changed := profiles_act haskell kind
    rw [split] at changed
    cases own with
    | nil =>
      refine ⟨[], Option.some.inj level, ?_⟩
      rw [changed]
      cases s.call? m with
      | none => simp
      | some c => simp [c.tally_ofCalls]
    | cons p own =>
      refine ⟨(s.call? m).elim id Call.tally p :: own, Option.some.inj level, ?_⟩
      rw [changed, List.length_cons, if_neg (Nat.succ_ne_zero _), List.append_nil]
      rfl

theorem profiles_of_level {own outer : List Profile} {calls : List Call}
    (haskell : s.highlighter = .haskell)
    (split : s.profiles = own ++ .ofCalls (calls.filter Call.counts) :: outer)
    (level : level? Move.profiling own.length ms = some k) :
    ∃ own', own'.length = k ∧
      (s.after ms).profiles = own' ++
        .ofCalls ((calls ++ s.callsWithin own.length ms).filter Call.counts) :: outer := by
  induction ms generalizing s own calls with
  | nil =>
    refine ⟨own, Option.some.inj level, ?_⟩
    rw [callsWithin, List.append_nil]
    exact split
  | cons m ms ih =>
    rw [level?_cons] at level
    obtain ⟨n, moved, level⟩ := Option.bind_eq_some_iff.1 level
    obtain ⟨own', rfl, split'⟩ := profiles_of_level_act haskell split moved
    obtain ⟨last, length, profiles⟩ := ih ((s.highlighter_act m).trans haskell) split' level
    refine ⟨last, length, ?_⟩
    rw [after_cons, profiles, callsWithin, Bound.height_of_level moved, List.append_assoc]

/-- What the profile that a session starts says after some moves. -/
theorem profiles_of_start (haskell : s.highlighter = .haskell)
    (level : level? Move.profiling 0 ms = some k) :
    ∃ own, own.length = k ∧
      (s.startProfile.after ms).profiles =
        own ++ .ofCalls ((s.startProfile.callsWithin 0 ms).filter Call.counts) :: s.profiles := by
  have split : s.startProfile.profiles =
      [] ++ .ofCalls (List.filter Call.counts []) :: s.profiles := rfl
  exact profiles_of_level (s := s.startProfile) haskell split level

theorem length_profiles_act (s : Session) (m : Move) (haskell : s.highlighter = .haskell) :
    (s.act m).profiles.length = m.profiling.height s.profiles.length := by
  cases kind : m.profiling with
  | begins =>
    obtain rfl := Move.profiling_begins kind
    rfl
  | ends =>
    obtain rfl := Move.profiling_ends kind
    simp only [act, stopProfile?]
    cases profiles : s.profiles with
    | nil => simp only [Option.map_none, Option.getD_none, profiles, List.length_nil, Bound.height]
    | cons p ps => rfl
  | inside => rw [profiles_act haskell kind, List.length_modifyHead, Bound.height]

theorem highlighter_after (s : Session) (ms : List Move) :
    (s.after ms).highlighter = s.highlighter := by
  induction ms generalizing s with
  | nil => rfl
  | cons m ms ih => rw [after_cons, ih, highlighter_act]

theorem length_profiles_after (ms : List Move) :
    (fresh.after ms).profiles.length = height Move.profiling ms := by
  induction ms using List.reverseRecOn with
  | nil => rfl
  | append_singleton ms m ih =>
    rw [after_append, height_concat, ← ih,
      ← length_profiles_act _ _ (highlighter_after fresh ms)]
    rfl

end Session

open Session in
/-- **Profiles account for calls.** A profile says, at any time and when it
ends, what its own calls come to: those made since it was started while no other
profile was open inside it, each of them once, but for those whose text is given
up at a numeral. So it accounts for all its calls just if none of them is given
up. All open profiles are of this form, and when one ends, those that were being
taken before it are as they were when it was started. -/
theorem profiles_account (moves : List Move) :
    (∀ (s : Session) (k : Nat), s.highlighter = .haskell →
      level? Move.profiling 0 moves = some k →
      let calls := s.startProfile.callsWithin 0 moves
      let total := Profile.ofCalls (calls.filter Call.counts)
      (s.startProfile.after moves).profiles[k]? = some total ∧
        (total = .ofCalls calls ↔
          ∀ c ∈ calls, ¬∃ o, lex c.config c.text = .error (.numeral o))) ∧
    (∀ (k : Nat) (p : Profile), (fresh.after moves).profiles[k]? = some p →
      ∃ earlier inside, moves = earlier ++ .startProfile :: inside ∧
        level? Move.profiling 0 inside = some k ∧
        p = .ofCalls (((fresh.after earlier).startProfile.callsWithin 0 inside).filter
          Call.counts)) ∧
    (∀ s : Session, s.highlighter = .haskell → Balanced Move.profiling moves →
      ∃ t, (s.startProfile.after moves).stopProfile? =
          some (.ofCalls ((s.startProfile.callsWithin 0 moves).filter Call.counts), t) ∧
        t.profiles = s.profiles) := by
  have counted (s : Session) (inside : List Move) (k : Nat) (haskell : s.highlighter = .haskell)
      (level : level? Move.profiling 0 inside = some k) :
      (s.startProfile.after inside).profiles[k]? =
        some (.ofCalls ((s.startProfile.callsWithin 0 inside).filter Call.counts)) := by
    obtain ⟨own, rfl, profiles⟩ := profiles_of_start haskell level
    simp [profiles]
  refine ⟨?_, ?_, ?_⟩
  · intro s k haskell level
    exact ⟨counted s moves k haskell level, Profile.ofCalls_counts_iff _⟩
  · intro k p found
    have some : k < height Move.profiling moves := by
      rw [← length_profiles_after]
      exact (List.getElem?_eq_some_iff.1 found).1
    obtain ⟨earlier, m, inside, rfl, begins, level⟩ := exists_block some
    obtain rfl := Move.profiling_begins begins
    have haskell := highlighter_after fresh earlier
    rw [after_append, after_cons] at found
    exact ⟨earlier, inside, rfl, level,
      Option.some.inj (found.symm.trans (counted _ inside k haskell level))⟩
  · intro s haskell balanced
    obtain ⟨own, none, profiles⟩ := profiles_of_start haskell balanced
    obtain rfl := List.length_eq_zero_iff.1 none
    rw [stopProfile?, profiles]
    exact ⟨_, rfl, rfl⟩

open Session in
/-- A call that fails and, after a profile inside that counts another, one that
does not; the spans of a text are not counted. -/
theorem profiles_account_nested :
    let inside := [.tokenizeOrNone ['"'], .startProfile, .tokenize none ['a', ' '], .stopProfile,
      .spans none ['b'], .highlightBlock ['c'] ['h', 's'] none false]
    let calls : List Call := [⟨.permissive, ['"']⟩, ⟨.permissive, ['c']⟩]
    Balanced Move.profiling inside ∧
      fresh.startProfile.callsWithin 0 inside = calls ∧
      Profile.ofCalls calls = ⟨2, 1, 2, 1⟩ ∧
      (fresh.startProfile.after inside).profiles[0]? = some (.ofCalls calls) ∧
      (∃ earlier within, .startProfile :: inside = earlier ++ .startProfile :: within ∧
        level? Move.profiling 0 within = some 0 ∧
        Profile.ofCalls calls =
          .ofCalls (((fresh.after earlier).startProfile.callsWithin 0 within).filter
            Call.counts)) ∧
      ∃ t, (fresh.startProfile.after inside).stopProfile? = some (.ofCalls calls, t) ∧
        t.profiles = [] := by
  intro inside calls
  have within : fresh.startProfile.callsWithin 0 inside = calls := rfl
  have now := ((profiles_account inside).1 fresh 0 rfl rfl).1
  have last := (profiles_account inside).2.2 fresh rfl rfl
  have counted' : calls.filter Call.counts = calls :=
    List.filter_eq_self.2 (List.all_eq_true.1 (by decide +kernel))
  rw [within, counted'] at now last
  exact ⟨rfl, within, by decide +kernel, now,
    (profiles_account (.startProfile :: inside)).2.1 0 _ now, last⟩

open Session in
/-- A call that nobody counts, made while a profile is being taken. -/
theorem uncounted_numeral :
    let text := '"' :: '\\' :: (List.replicate 4301 '1' ++ ['"'])
    let moves : List Move := [.tokenize none text]
    fresh.startProfile.callsWithin 0 moves = [⟨.permissive, text⟩] ∧
      (fresh.startProfile.after moves).profiles = [.empty] ∧
      (Profile.ofCalls [⟨.permissive, text⟩]).calls = 1 := by
  intro text moves
  have long := Literal.overlong_ones (n := 4301) (s := ['"']) (by decide) rfl
  have lexed : lex .permissive text = .error (.numeral ⟨4301⟩) := lex_overlong .permissive long
  have uncounted : ¬Call.counts ⟨.permissive, text⟩ = true := by
    rw [Call.counts, lexed]
    exact nofun
  have within : fresh.startProfile.callsWithin 0 moves = [⟨.permissive, text⟩] := rfl
  have level : level? Move.profiling 0 moves = some 0 := rfl
  obtain ⟨own, none, profiles⟩ := profiles_of_start (s := fresh) rfl level
  obtain rfl := List.length_eq_zero_iff.1 none
  rw [within, List.filter_cons_of_neg uncounted] at profiles
  exact ⟨within, profiles, rfl⟩

end HaskellLexis
