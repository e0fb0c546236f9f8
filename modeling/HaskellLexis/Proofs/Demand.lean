import HaskellLexis.Proofs.Scoping
import HaskellLexis.Proofs.Shares

/-!
# Pieces on demand

A slicer looks at a span when a piece of it is asked for, and not before. What
it has delivered, and how many spans it has looked at, depends on how much was
asked for in all, and not on how that was split into pulls.

* `Trace.states`, `Trace.final`: the states that a reader may find the producer
  in, at each item and at the end;
* `Haul`, `Haul.ofTotal`: what pulls come to, and what a number of items comes to;
* `leads_pull`, `haul_of_pulls`: they are the same, for one pull and then for all;
* `Owns`: pieces that tell how many spans have been looked at;
* `owns_slice`: those of the spans before the first bad one do;
* `pieces_on_demand`: how a slicer is read.
-/

namespace HaskellLexis

/-! ## Taking items -/

namespace Trace

variable {σ ν α ε : Type}

/-- The items of a trace, each with the state that it leaves. -/
def states : Trace σ ν α ε → List (α × σ)
  | remark _ t => t.states
  | item a s t => (a, s) :: t.states
  | done _ | failed _ _ => []

/-- The state at the end, or at the error. -/
def final : Trace σ ν α ε → σ
  | remark _ t | item _ _ t => t.final
  | done s | failed _ s => s

def Ending.error? : Ending ε → Option ε
  | failed e => some e
  | _ => none

theorem map_states (t : Trace σ ν α ε) : t.states.map Prod.fst = t.items := by
  induction t with
  | remark _ _ ih => exact ih
  | item a _ _ ih => exact congrArg (a :: ·) ih
  | done | failed => rfl

theorem states_itemAll (xs : List (α × σ)) (t : Trace σ ν α ε) :
    (itemAll xs t).states = xs ++ t.states := by
  induction xs with
  | nil => rfl
  | cons x xs ih => exact congrArg (x :: ·) ih

theorem final_itemAll (xs : List (α × σ)) (t : Trace σ ν α ε) :
    (itemAll xs t).final = t.final := by
  induction xs with
  | nil => rfl
  | cons x xs ih => exact ih

/-- The trace `r` is what is left of `t` behind its first `n` items. -/
structure Behind (t : Trace σ ν α ε) (n : Nat) (r : Trace σ ν α ε) : Prop where
  states : r.states = t.states.drop n
  error : r.error? = t.error?
  final : r.final = t.final

theorem Behind.trans {t r q : Trace σ ν α ε} {n m : Nat} (h : t.Behind n r) (h' : r.Behind m q) :
    t.Behind (n + m) q where
  states := by rw [h'.states, h.states, List.drop_drop]
  error := h'.error.trans h.error
  final := h'.final.trans h.final

theorem Behind.items {t r : Trace σ ν α ε} {n : Nat} (h : t.Behind n r) :
    r.items = t.items.drop n := by
  rw [← map_states, h.states, List.map_drop, map_states]

/-- Where there are as many items as are asked for, the reader stops behind them. -/
theorem take_within (t : Trace σ ν α ε) {n : Nat} (h : n ≤ t.items.length) :
    ∃ ns r, t.take (some n) =
        ⟨t.items.take n, ns, .paused, (t.states.take n).getLast?.map Prod.snd, some r⟩ ∧
      t.Behind n r := by
  induction t generalizing n with
  | remark m t ih =>
    cases n with
    | zero => exact ⟨[], _, rfl, rfl, rfl, rfl⟩
    | succ n =>
      obtain ⟨ns, r, eq, behind⟩ := ih h
      refine ⟨m :: ns, r, ?_, behind.states, behind.error, behind.final⟩
      simp only [take, Option.some.injEq, Nat.succ_ne_zero, if_false, eq]
      rfl
  | item a s t ih =>
    cases n with
    | zero => exact ⟨[], _, rfl, rfl, rfl, rfl⟩
    | succ n =>
      obtain ⟨ns, r, eq, behind⟩ := ih (Nat.le_of_succ_le_succ h)
      refine ⟨ns, r, ?_, behind.states, behind.error, behind.final⟩
      simp only [take, Option.some.injEq, Nat.succ_ne_zero, if_false, Option.map_some,
        Nat.add_sub_cancel, eq, items, states, List.take_succ_cons, List.getLast?_cons]
      cases (t.states.take n).getLast? <;> rfl
  | done s =>
    obtain rfl := Nat.le_zero.1 h
    exact ⟨[], _, rfl, rfl, rfl, rfl⟩
  | failed e s =>
    obtain rfl := Nat.le_zero.1 h
    exact ⟨[], _, rfl, rfl, rfl, rfl⟩

/-- Where more is asked for, or all, the reader comes to the end. -/
theorem take_beyond (t : Trace σ ν α ε) {count : Option Nat}
    (h : ∀ n ∈ count, t.items.length < n) :
    ∃ ns ending, t.take count = ⟨t.items, ns, ending, some t.final, none⟩ ∧
      ending.error? = t.error? := by
  have some : count ≠ some 0 := by
    rintro rfl
    exact absurd (h 0 rfl) (Nat.not_lt_zero _)
  induction t generalizing count with
  | remark m t ih =>
    obtain ⟨ns, ending, eq, error⟩ := ih h some
    refine ⟨m :: ns, ending, ?_, error⟩
    simp only [take, if_neg some, eq]
    rfl
  | item a s t ih =>
    have fewer : ∀ n ∈ count.map (· - 1), t.items.length < n := by
      intro n mem
      obtain ⟨k, asked, rfl⟩ := Option.map_eq_some_iff.1 mem
      have enough : t.items.length + 1 < k := h k asked
      omega
    have still : count.map (· - 1) ≠ Option.some 0 := by
      intro none
      exact absurd (fewer 0 none) (Nat.not_lt_zero _)
    obtain ⟨ns, ending, eq, error⟩ := ih fewer still
    refine ⟨ns, ending, ?_, error⟩
    simp only [take, if_neg some, eq]
    rfl
  | done s => exact ⟨[], .done, by rw [take, if_neg some]; rfl, rfl⟩
  | failed e s => exact ⟨[], .failed e, by rw [take, if_neg some]; rfl, rfl⟩

end Trace

/-! ## Pulls -/

/-- What pulls of pieces come to: the pieces that they deliver, the number of
spans that have been looked at, and the error that one of them has met. -/
structure Haul where
  pieces : List Piece
  looked : Nat
  error? : Option SpanError
  deriving DecidableEq

namespace Haul

def empty : Haul := ⟨[], 0, none⟩

def add (h : Haul) : Session.Pulled → Haul
  | .tokens _ _ => h
  | .pieces looked k => ⟨h.pieces ++ k.items, looked, h.error?.or k.ending.error?⟩

def of (ps : List Session.Pulled) : Haul := ps.foldl add empty

/-- What comes of asking for `k` pieces in all of a run along `n` spans. -/
def ofTotal (run : SliceTrace) (n k : Nat) : Haul :=
  if run.items.length < k then ⟨run.items, n - run.final.spans.length, run.error?⟩
  else
    ⟨run.items.take k, ((run.states.take k).getLast?.map fun p => n - p.2.spans.length).getD 0,
      none⟩

end Haul

/-- How much is asked for in all, where a pull without a count asks for `all`. -/
def asked (all : Nat) : List (Option Nat) → Nat
  | [] => 0
  | count :: counts => count.getD all + asked all counts

section

variable {run rest : SliceTrace} {start : Slicer} {k m : Nat} {r : SliceReading}
  {count : Option Nat}

/-- The reading of a run that has stopped behind `k` pieces, with `rest` left. -/
def pausedAt (run : SliceTrace) (start : Slicer) (k : Nat) (rest : SliceTrace) : SliceReading :=
  ⟨((run.states.take k).getLast?.map Prod.snd).getD start, some rest⟩

/-- The reading of a run of which `k` pieces have been asked for. -/
inductive Stands (run : SliceTrace) (start : Slicer) (k : Nat) : SliceReading → Prop where
  | paused {rest : SliceTrace} (inside : k ≤ run.items.length) (behind : run.Behind k rest) :
      Stands run start k (pausedAt run start k rest)
  | ended (beyond : run.items.length < k) : Stands run start k ⟨run.final, none⟩

theorem stands_start (x : Slicer) : Stands x.trace x 0 x.reading :=
  .paused (Nat.zero_le _) ⟨rfl, rfl, rfl⟩

/-- Before any item is taken nothing has been looked at. -/
theorem looked_getD (start : Slicer) (last : Option (Piece × Slicer)) :
    start.spans.length - ((last.map Prod.snd).getD start).spans.length =
      (last.map fun p => start.spans.length - p.2.spans.length).getD 0 := by
  cases last with
  | none => exact Nat.sub_self _
  | some p => rfl

/-- A pull without an end, or past it, is a pull of more than there is. -/
theorem lt_of_beyond {all rest : Nat} {count : Option Nat} (fewer : all = k + rest)
    (more : ∀ m ∈ count, rest < m) : all < k + count.getD (all + 1) := by
  cases count with
  | none =>
    rw [Option.getD_none]
    omega
  | some m =>
    have beyond := more m rfl
    rw [Option.getD_some]
    omega

/-- A pull leads from where `k` pieces have been asked for to where `total` have. -/
structure Leads (run : SliceTrace) (start : Slicer) (r : SliceReading) (count : Option Nat)
    (k total : Nat) : Prop where
  stands : Stands run start total (r.pull count).2
  haul : (Haul.ofTotal run start.spans.length k).add
      (.pieces (start.spans.length - (r.pull count).2.left.spans.length) (r.pull count).1) =
    Haul.ofTotal run start.spans.length total

theorem leads_ended (beyond : run.items.length < k) (count : Option Nat) (m : Nat) :
    Leads run start ⟨run.final, none⟩ count k (k + m) := by
  have still : run.items.length < k + m := Nat.lt_add_right m beyond
  have error : Trace.Ending.error? (ε := SpanError)
      (if count = some 0 then .paused else .done) = none := by
    split <;> rfl
  refine ⟨.ended still, ?_⟩
  rw [Haul.ofTotal, if_pos beyond, Haul.ofTotal, if_pos still]
  simp only [Reading.pull, Haul.add, List.append_nil, error, Option.or_none]

theorem leads_within (inside : k ≤ run.items.length) (behind : run.Behind k rest)
    (enough : m ≤ rest.items.length) :
    Leads run start (pausedAt run start k rest) (some m) k (k + m) := by
  obtain ⟨ns, more, eq, next⟩ := rest.take_within enough
  rw [behind.items, List.length_drop] at enough
  have reached : k + m ≤ run.items.length := by omega
  have last : (run.states.take (k + m)).getLast? =
      (rest.states.take m).getLast?.or (run.states.take k).getLast? := by
    rw [List.take_add, behind.states, List.getLast?_append]
  have pulled : (pausedAt run start k rest).pull (some m) =
      (⟨rest.items.take m, ns, .paused, (rest.states.take m).getLast?.map Prod.snd, some more⟩,
        pausedAt run start (k + m) more) := by
    rw [pausedAt, pausedAt, last]
    simp only [Reading.pull, eq]
    cases (rest.states.take m).getLast? <;> rfl
  have pieces : run.items.take k ++ rest.items.take m = run.items.take (k + m) := by
    rw [behind.items, List.take_add]
  constructor
  · rw [pulled]
    exact .paused reached (behind.trans next)
  · rw [pulled, Haul.ofTotal, if_neg (Nat.not_lt_of_le inside), Haul.ofTotal,
      if_neg (Nat.not_lt_of_le reached)]
    simp only [Haul.add, pieces, pausedAt, looked_getD, Trace.Ending.error?, Option.or_none]

theorem leads_beyond (inside : k ≤ run.items.length) (behind : run.Behind k rest)
    (more : ∀ m ∈ count, rest.items.length < m) :
    Leads run start (pausedAt run start k rest) count k
      (k + count.getD (run.items.length + 1)) := by
  obtain ⟨ns, ending, eq, error⟩ := rest.take_beyond more
  have fewer : run.items.length = k + rest.items.length := by
    rw [behind.items, List.length_drop]
    omega
  have beyond := lt_of_beyond fewer more
  have pulled : (pausedAt run start k rest).pull count =
      (⟨rest.items, ns, ending, some run.final, none⟩, ⟨run.final, none⟩) := by
    simp only [Reading.pull, pausedAt, eq, behind.final, Option.getD_some]
  constructor
  · rw [pulled]
    exact .ended beyond
  · rw [pulled, Haul.ofTotal, if_neg (Nat.not_lt_of_le inside), Haul.ofTotal, if_pos beyond]
    simp only [Haul.add, behind.items, List.take_append_drop, error, behind.error,
      Option.none_or]

/-- Each pull goes on where the one before it has stopped. -/
theorem leads_pull (stands : Stands run start k r) (count : Option Nat) :
    Leads run start r count k (k + count.getD (run.items.length + 1)) := by
  cases stands with
  | ended beyond => exact leads_ended beyond count _
  | @paused rest inside behind =>
    by_cases within : ∃ m ∈ count, m ≤ rest.items.length
    · obtain ⟨m, rfl, enough⟩ := within
      exact leads_within inside behind enough
    · apply leads_beyond inside behind
      intro m asked
      exact Nat.lt_of_not_le fun enough => within ⟨m, asked, enough⟩

open Session in
/-- Pulls under a key come to what their total comes to. -/
theorem haul_of_pulls {s : Session} {key : List Char} (counts : List (Option Nat))
    (stands : Stands run start k r)
    (kept : s.readings.lookup key = some (.slicer start.spans.length r)) :
    (pulls key s (counts.map (.pull key))).foldl Haul.add
        (Haul.ofTotal run start.spans.length k) =
      Haul.ofTotal run start.spans.length (k + asked (run.items.length + 1) counts) := by
  induction counts generalizing s k r with
  | nil => rfl
  | cons count counts ih =>
    obtain ⟨next, haul⟩ := leads_pull stands count
    have pulled : s.pull? key count =
        some (s.keep key (.slicer start.spans.length (r.pull count).2),
          .pieces (start.spans.length - (r.pull count).2.left.spans.length) (r.pull count).1) := by
      simp only [pull?, kept]
    have act : s.act (.pull key count) =
        s.keep key (.slicer start.spans.length (r.pull count).2) := by
      simp only [Session.act, pulled]
      rfl
    have delivered : s.delivers? key (.pull key count) =
        some (.pieces (start.spans.length - (r.pull count).2.left.spans.length)
          (r.pull count).1) := by
      simp only [delivers?, if_true, pulled]
      rfl
    rw [List.map_cons, pulls, delivered, act]
    have rest := ih next (s.lookup_keep key _)
    rw [← haul, Nat.add_assoc] at rest
    exact rest

end

/-! ## How a slicer is read -/

/-- What is pulled, with these counts, from a slicer that has just been opened. -/
def Session.hauled (s : Session) (key text : List Char) (spans : List (Category × Span))
    (counts : List (Option Nat)) : Haul :=
  .of (pulls key (s.openSlicer key text spans) (counts.map (.pull key)))

theorem Session.hauled_eq (s : Session) (key text : List Char) (spans : List (Category × Span))
    (counts : List (Option Nat)) :
    s.hauled key text spans counts = .ofTotal (slice text spans) spans.length
      (asked ((slice text spans).items.length + 1) counts) := by
  have hauled := haul_of_pulls counts (stands_start (.start text spans))
    (s.lookup_keep key (.slicer spans.length (Slicer.start text spans).reading))
  rw [Nat.zero_add] at hauled
  exact hauled

theorem asked_append (all : Nat) (counts more : List (Option Nat)) :
    asked all (counts ++ more) = asked all counts + asked all more := by
  induction counts with
  | nil => exact (Nat.zero_add _).symm
  | cons count counts ih => rw [List.cons_append, asked, asked, ih, Nat.add_assoc]

namespace Haul

variable {run : SliceTrace} {n k : Nat}

theorem pieces_ofTotal (run : SliceTrace) (n k : Nat) :
    (ofTotal run n k).pieces = run.items.take k := by
  rw [ofTotal]
  split
  case isTrue beyond => exact (List.take_of_length_le (Nat.le_of_lt beyond)).symm
  case isFalse => rfl

theorem error?_ofTotal (run : SliceTrace) (n k : Nat) :
    (ofTotal run n k).error? = if run.items.length < k then run.error? else none := by
  rw [ofTotal]
  split <;> rfl

/-- Past the end it does not matter how much is asked for. -/
theorem ofTotal_add (beyond : run.items.length < k) (m : Nat) :
    ofTotal run n (k + m) = ofTotal run n k := by
  rw [ofTotal, if_pos (Nat.lt_add_right m beyond), ofTotal, if_pos beyond]

end Haul

/-- The pieces of a run, each with the number of spans that have been looked at
when it is delivered. At an end without an error there are no others. -/
structure Owns (run : SliceTrace) (n : Nat) (owned : List (Nat × Piece)) : Prop where
  states : (run.states.map fun p => (n - p.2.spans.length, p.1)) = owned
  last : run.error? = none → n - run.final.spans.length = (owned.getLast?.map Prod.fst).getD 0

namespace Owns

variable {run : SliceTrace} {n k : Nat} {owned : List (Nat × Piece)}

theorem items (owns : Owns run n owned) : owned.map Prod.snd = run.items := by
  rw [← owns.states, List.map_map]
  exact run.map_states

/-- The last piece delivered tells how many spans have been looked at. -/
theorem looked (owns : Owns run n owned) (ok : (Haul.ofTotal run n k).error? = none) :
    (Haul.ofTotal run n k).looked =
      ((owned.take (Haul.ofTotal run n k).pieces.length).getLast?.map Prod.fst).getD 0 := by
  rw [Haul.error?_ofTotal] at ok
  rw [Haul.pieces_ofTotal, List.length_take, Haul.ofTotal]
  have length : owned.length = run.items.length := by
    rw [← owns.items, List.length_map]
  split
  case isTrue beyond =>
    rw [if_pos beyond] at ok
    rw [Nat.min_eq_right (Nat.le_of_lt beyond), ← length, List.take_length]
    exact owns.last ok
  case isFalse inside =>
    rw [Nat.min_eq_left (Nat.le_of_not_lt inside), ← owns.states, ← List.map_take,
      List.getLast?_map, Option.map_map]
    rfl

end Owns

/-- A run owns the pieces of the spans that pass, and fails at the first other one. -/
theorem owns_slice {text : List Char} {good refused : List (Category × Span)}
    (pass : AllPass text .origin good)
    (bad : ∀ cs ∈ refused.head?, ¬AllPass text .origin (good ++ [cs])) :
    Owns (slice text (good ++ refused)) (good ++ refused).length
        (Share.numbered 1 ((Cursor.start text).shares good)) ∧
      (slice text (good ++ refused)).error?.map SpanError.span =
        refused.head?.map Prod.snd := by
  obtain ⟨states, y, trace, edges, behind, number⟩ :=
    Slicer.traceOver_append (x := .start text (good ++ refused)) rfl pass refused
  have owned (t : SliceTrace) (silent : t.states = []) :
      ((Trace.itemAll states t).states.map fun p =>
        ((good ++ refused).length - p.2.spans.length, p.1)) =
          Share.numbered 1 ((Cursor.start text).shares good) := by
    rw [Trace.states_itemAll, silent, List.append_nil]
    exact number _ 0 (Nat.zero_add _).symm
  rw [show slice text (good ++ refused) = _ from trace]
  obtain ⟨rfl, ends⟩ | ⟨category, s, more, f, rfl, ends⟩ :=
    Slicer.traceOver_refused edges (fun cs first all => bad cs first ((behind [cs]).2 all))
  · rw [ends]
    refine ⟨⟨owned _ rfl, fun _ => ?_⟩, by rw [Trace.error?_itemAll]; rfl⟩
    rw [Trace.final_itemAll, Share.last_numbered 0, Cursor.length_shares, List.append_nil,
      Nat.zero_add]
    rfl
  · rw [ends]
    refine ⟨⟨owned _ rfl, fun ok => ?_⟩, by rw [Trace.error?_itemAll]; rfl⟩
    rw [Trace.error?_itemAll] at ok
    cases ok

/-- **Pieces on demand.** Let `good` be the longest beginning of the spans that
all pass, so that the first of the others, if there is one, does not. However the
pulls are cut, they deliver the first of the pieces of `good`, as many as were
asked for in all. As long as none of them has failed, as many spans have been
looked at as the number of the one that the last piece belongs to. The first bad
span is met by the pull that asks for more than there is; by then all pieces of
`good` have been delivered, and nothing comes after it. -/
theorem pieces_on_demand (s : Session) (key text : List Char)
    (spans : List (Category × Span)) :
    ∃ good refused items, spans = good ++ refused ∧ AllPass text .origin good ∧
      (∀ cs ∈ refused.head?, ¬AllPass text .origin (good ++ [cs])) ∧
      (slice text good).result = .ok items ∧ (slice text spans).items = items ∧
      let owned := Share.numbered 1 ((Cursor.start text).shares good)
      owned.map Prod.snd = items ∧
      ∀ counts,
        let haul := s.hauled key text spans counts
        let total := asked (items.length + 1) counts
        haul.pieces = items.take total ∧
        (haul.error? = none →
          haul.looked = ((owned.take haul.pieces.length).getLast?.map Prod.fst).getD 0) ∧
        haul.error?.map SpanError.span =
          (if items.length < total then refused.head?.map Prod.snd else none) ∧
        (haul.error? ≠ none → haul.pieces = items ∧
          ∀ more, s.hauled key text spans (counts ++ more) = haul) := by
  obtain ⟨good, refused, rfl, pass, bad⟩ := exists_passing text .origin spans
  obtain ⟨owns, error⟩ := owns_slice pass bad
  have sliced : (slice text good).error? = none := (Slicer.error?_traceOver rfl _).2 pass
  have cut : (slice text good).items = (Cursor.start text).cutAll good :=
    Slicer.items_traceOver sliced
  rw [Cursor.cutAll_shares, ← Share.snd_numbered 1] at cut
  have items : (slice text (good ++ refused)).items = (slice text good).items := by
    rw [cut, owns.items]
  have whole (counts : List (Option Nat)) := s.hauled_eq key text (good ++ refused) counts
  rw [items] at whole
  refine ⟨good, refused, _, rfl, pass, bad, by rw [Trace.result, sliced], items, cut.symm, ?_⟩
  intro counts haul total
  rw [show haul = _ from whole counts]
  refine ⟨?_, owns.looked, ?_, ?_⟩
  · rw [Haul.pieces_ofTotal, items]
  · rw [Haul.error?_ofTotal, items, apply_ite (Option.map SpanError.span), error, Option.map_none]
  · intro failed
    rw [Haul.error?_ofTotal] at failed
    have beyond : (slice text (good ++ refused)).items.length < total := by
      by_contra inside
      exact failed (if_neg inside)
    constructor
    · rw [Haul.pieces_ofTotal, List.take_of_length_le (Nat.le_of_lt beyond), items]
    · intro more
      rw [whole, asked_append]
      exact Haul.ofTotal_add beyond _

/-- The second span ends before it starts, which the first pull does not notice. -/
example :
    let spans := [(.variableName, ⟨⟨1, 1⟩, ⟨1, 2⟩⟩), (.variableName, ⟨⟨1, 3⟩, ⟨1, 2⟩⟩)]
    let hauled := Session.fresh.hauled ['f'] ['f', ' ', 'x'] spans
    hauled [some 1] = ⟨[⟨.variableName, ['f']⟩], 1, none⟩ ∧
      hauled [some 1, some 1, none] =
        ⟨[⟨.variableName, ['f']⟩], 2, some ⟨⟨⟨1, 3⟩, ⟨1, 2⟩⟩, .backwards⟩⟩ := by
  decide +kernel

end HaskellLexis
