import HaskellLexis.Proofs.Moves

/-!
# Configurations are scoped

A block with a configuration of its own leaves nothing behind, and a lexer
keeps the configuration that was in force when it was opened.

* `suspended_of_level`: what was suspended before some moves still is after
  them, under what they have suspended themselves;
* `lookup_act`: a move that does not name a key leaves its reading alone;
* `Session.pulls`: all that is pulled under a key;
* `configurations_scoped`: both laws, for all moves.
-/

namespace HaskellLexis

namespace Move

theorem scope_begins {m : Move} (h : m.scope = .begins) : ∃ c, m = .enter c := by
  cases m <;> cases h
  exact ⟨_, rfl⟩

theorem scope_ends {m : Move} (h : m.scope = .ends) : m = .leave := by
  cases m <;> cases h
  rfl

def opens (key : List Char) : Move → Bool
  | openLexer key' _ _ | openSlicer key' _ _ => key' = key
  | _ => false

def reads (key : List Char) : Move → Bool
  | again key' | pull key' _ => key' = key
  | _ => false

theorem key?_ne {m : Move} {key : List Char} (opens : m.opens key = false)
    (reads : m.reads key = false) : m.key? ≠ some key := by
  cases m with
  | openLexer | openSlicer => simpa [key?, Move.opens] using opens
  | again | pull => simpa [key?, Move.reads] using reads
  | _ => nofun

end Move

namespace Session

variable {s s' : Session} {m : Move} {ms : List Move} {n k : Nat}

/-! ## Suspended configurations -/

theorem length_suspended_act (s : Session) (m : Move) :
    (s.act m).suspended.length = m.scope.height s.suspended.length := by
  cases kind : m.scope with
  | begins =>
    obtain ⟨c, rfl⟩ := Move.scope_begins kind
    rfl
  | ends =>
    obtain rfl := Move.scope_ends kind
    simp only [act, leave?]
    cases suspended : s.suspended with
    | nil => simp only [Option.getD_none, suspended, List.length_nil, Bound.height]
    | cons c cs => rfl
  | inside => rw [suspended_act kind, Bound.height]

theorem length_suspended_after (ms : List Move) :
    (fresh.after ms).suspended.length = height Move.scope ms := by
  induction ms using List.reverseRecOn with
  | nil => rfl
  | append_singleton ms m ih => rw [after_append, height_concat, ← ih, ← length_suspended_act]; rfl

/-- Of the suspended configurations, a move changes none but the first `own`. -/
theorem suspended_of_level_act {own outer : List Config} (split : s.suspended = own ++ outer)
    (level : m.scope.level? own.length = some n) :
    ∃ own', own'.length = n ∧ (s.act m).suspended = own' ++ outer := by
  cases kind : m.scope with
  | begins =>
    rw [kind] at level
    obtain ⟨c, rfl⟩ := Move.scope_begins kind
    exact ⟨s.active :: own, Option.some.inj level, congrArg (s.active :: ·) split⟩
  | ends =>
    rw [kind] at level
    obtain rfl := Move.scope_ends kind
    cases own with
    | nil => cases level
    | cons c own =>
      refine ⟨own, Option.some.inj level, ?_⟩
      simp only [act, leave?, split, List.cons_append, Option.getD_some]
  | inside =>
    rw [kind] at level
    exact ⟨own, Option.some.inj level, (suspended_act kind).trans split⟩

theorem suspended_of_level {own outer : List Config} (split : s.suspended = own ++ outer)
    (level : level? Move.scope own.length ms = some k) :
    ∃ own', own'.length = k ∧ (s.after ms).suspended = own' ++ outer := by
  induction ms generalizing s own with
  | nil => exact ⟨own, Option.some.inj level, split⟩
  | cons m ms ih =>
    rw [level?_cons] at level
    obtain ⟨n, moved, level⟩ := Option.bind_eq_some_iff.1 level
    obtain ⟨own', rfl, split'⟩ := suspended_of_level_act split moved
    exact ih split' level

theorem leave_of_balanced (s : Session) (c : Config) (balanced : Balanced Move.scope ms) :
    ∃ t, ((s.enter c).after ms).leave? = some t ∧ t.active = s.active ∧
      t.suspended = s.suspended := by
  have entered : (s.enter c).suspended = [] ++ s.active :: s.suspended := rfl
  obtain ⟨own, none, suspended⟩ := suspended_of_level entered balanced
  obtain rfl := List.length_eq_zero_iff.1 none
  rw [leave?, suspended]
  exact ⟨_, rfl, rfl, rfl⟩

/-- What can be left has been entered. -/
theorem exists_entry {t : Session} (left : (fresh.after ms).leave? = some t) :
    ∃ earlier c inside, ms = earlier ++ .enter c :: inside ∧ Balanced Move.scope inside := by
  have some : 0 < height Move.scope ms := by
    rw [← length_suspended_after]
    unfold leave? at left
    split at left
    · cases left
    · rename_i suspended
      rw [suspended]
      exact Nat.succ_pos _
  obtain ⟨earlier, m, inside, rfl, begins, balanced⟩ := exists_block some
  obtain ⟨c, rfl⟩ := Move.scope_begins begins
  exact ⟨earlier, c, inside, rfl, balanced⟩

/-! ## Readings -/

variable {key key' : List Char}

theorem lookup_filter_of_ne {α : Type} (l : List (List Char × α)) (ne : key' ≠ key) :
    (l.filter (·.1 != key)).lookup key' = l.lookup key' := by
  induction l with
  | nil => rfl
  | cons p l ih =>
    obtain ⟨k, a⟩ := p
    by_cases same : k = key
    · subst same
      rw [List.filter_cons_of_neg (by simp), ih, List.lookup_cons, beq_false_of_ne ne]
    · rw [List.filter_cons_of_pos (by simpa using same), List.lookup_cons, List.lookup_cons, ih]

theorem lookup_keep (s : Session) (key : List Char) (r : OpenReading) :
    (s.keep key r).readings.lookup key = some r := by
  simp only [keep, List.lookup_cons, beq_self_eq_true]

theorem lookup_keep_of_ne (s : Session) (r : OpenReading) (ne : key' ≠ key) :
    (s.keep key r).readings.lookup key' = s.readings.lookup key' := by
  simp only [keep, List.lookup_cons, beq_false_of_ne ne]
  exact lookup_filter_of_ne s.readings ne

theorem lookup_act (other : m.key? ≠ some key) :
    (s.act m).readings.lookup key = s.readings.lookup key := by
  have ne {k : List Char} (named : m.key? = some k) : key ≠ k := by
    rintro rfl
    exact other named
  cases m with
  | openLexer | openSlicer => exact s.lookup_keep_of_ne _ (ne rfl)
  | again k =>
    simp only [act, again?]
    split
    · exact s.lookup_keep_of_ne _ (ne rfl)
    · rfl
  | pull k count =>
    simp only [act, pull?]
    split
    · exact s.lookup_keep_of_ne _ (ne rfl)
    · exact s.lookup_keep_of_ne _ (ne rfl)
    · rfl
  | _ => rw [readings_act rfl]

/-- What a move pulls under a key. -/
def delivers? (s : Session) (key : List Char) : Move → Option Pulled
  | .pull key' count => if key' = key then (s.pull? key' count).map Prod.snd else none
  | _ => none

/-- What moves pull under a key, one pull after the other. -/
def pulls (key : List Char) : Session → List Move → List Pulled
  | _, [] => []
  | s, m :: ms => (s.delivers? key m).toList ++ pulls key (s.act m) ms

theorem delivers_none (s : Session) (other : m.reads key = false) : s.delivers? key m = none := by
  cases m with
  | pull => exact if_neg (by simpa [Move.reads] using other)
  | _ => rfl

/-- What is read under a key depends on nothing but the reading kept there. -/
theorem read_congr (same : s.readings.lookup key = s'.readings.lookup key)
    (reads : m.reads key = true) :
    s.delivers? key m = s'.delivers? key m ∧
      (s.act m).readings.lookup key = (s'.act m).readings.lookup key := by
  cases m with
  | again k =>
    obtain rfl : k = key := by simpa [Move.reads] using reads
    refine ⟨rfl, ?_⟩
    simp only [act, again?, ← same]
    split
    · simp only [Option.getD_some, lookup_keep]
    · exact same
  | pull k count =>
    obtain rfl : k = key := by simpa [Move.reads] using reads
    simp only [act, delivers?, pull?, ← same, if_true]
    split
    · exact ⟨rfl, by simp only [Option.map_some, Option.getD_some, lookup_keep]⟩
    · exact ⟨rfl, by simp only [Option.map_some, Option.getD_some, lookup_keep]⟩
    · exact ⟨rfl, same⟩
  | _ => cases reads

theorem pulls_congr (same : s.readings.lookup key = s'.readings.lookup key)
    (kept : ∀ m ∈ ms, m.opens key = false) :
    pulls key s ms = pulls key s' (ms.filter (·.reads key)) := by
  induction ms generalizing s s' with
  | nil => rfl
  | cons m ms ih =>
    obtain ⟨here, later⟩ := List.forall_mem_cons.1 kept
    cases reads : m.reads key with
    | true =>
      obtain ⟨delivered, behind⟩ := read_congr same reads
      rw [List.filter_cons_of_pos reads, pulls, pulls, delivered, ih behind later]
    | false =>
      have behind := (lookup_act (s := s) (Move.key?_ne here reads)).trans same
      rw [List.filter_cons_of_neg (by simp [reads]), pulls, s.delivers_none reads,
        ih behind later]
      rfl

end Session

open Session in
/-- **Configurations are scoped.** Whatever is entered can be left, once all
that was entered inside has been, and then the configuration from right before
the entry is in force; nothing else can be left. A lexer that is opened without
a configuration of its own delivers, whatever happens between the pulls, what
it does in any other session where the configuration in force at its opening is
given and nothing but the pulls happens. -/
theorem configurations_scoped :
    (∀ (s : Session) (c : Config) (inside : List Move), Balanced Move.scope inside →
      ∃ t, ((s.enter c).after inside).leave? = some t ∧ t.active = s.active) ∧
    (∀ (moves : List Move) (t : Session), (fresh.after moves).leave? = some t →
      ∃ earlier c inside, moves = earlier ++ .enter c :: inside ∧
        Balanced Move.scope inside ∧ t.active = (fresh.after earlier).active) ∧
    (∀ (s s' : Session) (key text : List Char) (moves : List Move),
      (∀ m ∈ moves, m.opens key = false) →
      pulls key (s.openLexer key none text) moves =
        pulls key (s'.openLexer key (some s.active) text) (moves.filter (·.reads key))) := by
  refine ⟨?_, ?_, ?_⟩
  · intro s c inside balanced
    obtain ⟨t, left, active, -⟩ := s.leave_of_balanced c balanced
    exact ⟨t, left, active⟩
  · intro moves t left
    obtain ⟨earlier, c, inside, rfl, balanced⟩ := exists_entry left
    obtain ⟨t', left', active, -⟩ := (fresh.after earlier).leave_of_balanced c balanced
    rw [after_append, after_cons] at left
    obtain rfl : t' = t := Option.some.inj (left'.symm.trans left)
    exact ⟨earlier, c, inside, rfl, balanced, active⟩
  · intro s s' key text moves kept
    apply pulls_congr _ kept
    rw [openLexer, openLexer, lookup_keep, lookup_keep]
    rfl

open Session in
/-- A block inside a block, with changes that neither of them leaves behind,
and a lexer that is pulled under another configuration than its own. -/
theorem configurations_scoped_nested :
    let plain := Config.permissive.without Extension.all
    let inside := [.setConfig plain, .enter .permissive, .resetConfig, .leave]
    let moves := [.resetConfig, .pull ['a'] (some 1), .setConfig plain, .pull ['a'] none]
    let s := fresh.setConfig plain
    Balanced Move.scope inside ∧
      (∃ t, ((s.enter .permissive).after inside).leave? = some t ∧ t.active = plain) ∧
      (fresh.after (.enter plain :: inside)).leave? = some fresh ∧
      (∃ earlier c within, .enter plain :: inside = earlier ++ .enter c :: within ∧
        Balanced Move.scope within ∧ fresh.active = (fresh.after earlier).active) ∧
      (∀ m ∈ moves, m.opens ['a'] = false) ∧
      pulls ['a'] (s.openLexer ['a'] none ['m', 'd', 'o']) moves =
        pulls ['a'] (fresh.openLexer ['a'] (some plain) ['m', 'd', 'o'])
          [.pull ['a'] (some 1), .pull ['a'] none] := by
  intro plain inside moves s
  obtain ⟨leaving, entries, pulling⟩ := configurations_scoped
  have kept : ∀ m ∈ moves, m.opens ['a'] = false := by simp [moves, Move.opens]
  exact ⟨rfl, leaving s .permissive inside rfl, rfl, entries _ fresh rfl, kept,
    pulling s fresh ['a'] ['m', 'd', 'o'] moves kept⟩

end HaskellLexis
