import Mathlib.Data.List.Chain
import HaskellLexis.Reading
import HaskellLexis.Proofs.Shift
import HaskellLexis.Proofs.Tiling

/-!
# Restarted readings

A lexer moves when a lexeme is scanned, but what it delivers for the lexeme
comes item by item, and only the layout changes in between. Whoever stops
between two items and reads the lexer anew gets the same lexemes, since none of
them depends on the layout.

* `Sitting`, `Sitting.sittings`: readings of one lexer, one after the other;
* `Loses`: what a new reading may lack of what the old one had still to deliver;
* `Trace.Along`: what holds at every item of a trace, and at its end;
* `restarted_readings`: all that the readings deliver, taken together.
-/

namespace HaskellLexis

/-- What a reader of a lexer may do: ask for one item, or begin a new reading. -/
inductive Act where
  | next
  | again
  deriving DecidableEq

/-- A reading with the tokens that it has delivered so far. -/
structure Sitting where
  taken : List Token
  reading : LexReading

namespace Sitting

/-- A sitting at which nothing has been taken yet. -/
def opened (x : Lexer) : Sitting := ⟨[], x.reading⟩

/-- What the reading has still to deliver. -/
def ahead (s : Sitting) : List Token := (s.reading.rest.map Trace.items).getD []

/-- All that is delivered if the reading goes on to its end. -/
def stream (s : Sitting) : List Token := s.taken ++ s.ahead

def error? (s : Sitting) : Option LexFailure := s.reading.rest.bind Trace.error?

def isOver (s : Sitting) : Bool := s.reading.rest.isNone

def next (s : Sitting) : Sitting :=
  let (k, r) := s.reading.pull (some 1)
  ⟨s.taken ++ k.items, r⟩

def again (s : Sitting) : Sitting := ⟨[], s.reading.again⟩

/-- The sittings that a row of actions makes, the oldest first. -/
def sittings (s : Sitting) : List Act → List Sitting
  | [] => [s]
  | .next :: acts => s.next.sittings acts
  | .again :: acts => s :: s.again.sittings acts

end Sitting

/-- The lexemes of `anew` are those of `ahead`, but for one that may be missing
in front: the lexeme that waits behind braces of which `last` was delivered. -/
def Loses (last : Option Token) (ahead anew : List Token) : Prop :=
  ∃ lost, located ahead = lost ++ located anew ∧
    (lost = [] ∨ ∃ (b : Brace) (bs : List Brace) (l : Lexeme) (rest : List Token), lost = [l] ∧
      last = some (.virtual b) ∧ ahead = bs.map Token.virtual ++ .lexeme l :: rest)

/-- What a sitting makes of the one that it takes the place of. -/
def Sitting.Follows (p q : Sitting) : Prop := Loses p.taken.getLast? p.ahead q.stream

theorem located_append (as bs : List Token) : located (as ++ bs) = located as ++ located bs := by
  rw [located, List.filterMap_append, List.filter_append, located, located]

theorem located_virtual (bs : List Brace) : located (bs.map Token.virtual) = [] := by
  simp [located, Token.lexeme?]

theorem located_lexeme {l : Lexeme} (h : l.kind ≠ .endOfText) (rest : List Token) :
    located (.lexeme l :: rest) = l :: located rest := by
  simp [located, Token.lexeme?, h]

namespace Loses

variable {last : Option Token} {ahead anew : List Token}

theorem of_located (h : located ahead = located anew) : Loses last ahead anew :=
  ⟨[], h, .inl rfl⟩

theorem sublist (h : Loses last ahead anew) : (located anew).Sublist (located ahead) := by
  obtain ⟨lost, eq, -⟩ := h
  rw [eq]
  exact List.sublist_append_right lost _

end Loses

namespace Trace

variable {σ ν α ε : Type} {P : α → σ → List α → Prop} {Q : σ → Prop} {t : Trace σ ν α ε}

/-- The trace comes to an end, in a state with `Q`, and `P` holds at each item,
of the state that it leaves and of the items behind it. -/
def Along (P : α → σ → List α → Prop) (Q : σ → Prop) : Trace σ ν α ε → Prop
  | remark _ t => Along P Q t
  | item a left t => P a left t.items ∧ Along P Q t
  | done left => Q left
  | failed _ _ => False

theorem along_remarkAll {ns : List ν} (h : Along P Q t) : Along P Q (remarkAll ns t) := by
  induction ns with
  | nil => exact h
  | cons n ns ih => exact ih

theorem error?_of_along (h : Along P Q t) : t.error? = none := by
  induction t with
  | remark _ _ ih => exact ih h
  | item _ _ _ ih => exact ih h.2
  | done => rfl
  | failed => exact h.elim

/-- Asking for one item either gives it, or finds the end. -/
theorem take_of_along (h : Along P Q t) :
    (∃ a left r, (t.take (some 1)).items = [a] ∧ (t.take (some 1)).left = some left ∧
      (t.take (some 1)).rest = some r ∧ t.items = a :: r.items ∧ P a left r.items ∧ Along P Q r) ∨
    ∃ left, (t.take (some 1)).items = [] ∧ (t.take (some 1)).left = some left ∧
      (t.take (some 1)).rest = none ∧ t.items = [] ∧ Q left := by
  induction t with
  | remark n r ih => exact ih h
  | item a s r =>
    have none : take (some 0) r = ⟨[], [], .paused, none, some r⟩ := by cases r <;> rfl
    left
    refine ⟨a, s, r, ?_, ?_, ?_, rfl, h.1, h.2⟩
    all_goals simp [take, none]
  | done s => exact .inr ⟨s, rfl, rfl, rfl, rfl, h⟩
  | failed => exact h.elim

end Trace

namespace Layout

/-- Once all blocks are closed there is nothing to close. -/
theorem finish_finish (l : Layout) : l.finish.layout.finish = ⟨[], l.finish.layout⟩ := by
  unfold finish
  cases l.pending <;> rfl

end Layout

namespace Lexer

variable {text : List Char} {x y : Lexer} {l : Lexeme} {out : List (Token × Lexer)}

/-- The lexer stands in a text where the end of `text` is the end of its own. -/
def EndsAt (text : List Char) (x : Lexer) : Prop :=
  x.here.after x.rest = Position.upTo text text.length

/-- The lexer stands at the end of the text, with nothing left to close. -/
structure Spent (text : List Char) (x : Lexer) : Prop where
  rest : x.rest = []
  pragma : x.pragma = none
  here : x.here = Position.upTo text text.length
  layout : x.layout.finish = ⟨[], x.layout⟩

/-- A lexer that was left at the item `last` with these tokens ahead: read
anew, it comes to the same end without an error. -/
structure Resumes (text : List Char) (last : Option Token) (left : Lexer) (ahead : List Token) :
    Prop where
  ok : left.trace.error? = none
  ends : EndsAt text left
  loses : Loses last ahead left.trace.items

/-- Whatever item a reader stops at, it can begin anew. -/
def Sound (text : List Char) : LexTrace → Prop :=
  Trace.Along (fun a left ahead => Resumes text (some a) left ahead) (Spent text)

/-- No lexeme depends on the layout. -/
theorem lexemes_withLayout (x : Lexer) (lay : Layout) :
    (x.withLayout lay).trace.items.filterMap Token.lexeme? =
        x.trace.items.filterMap Token.lexeme? ∧
      (x.withLayout lay).trace.error? = x.trace.error? := by
  have down (p : Position) : p.down 0 = p := by simp only [Position.down, Int.add_zero]
  have same : Shifted 0 x (x.withLayout lay) := by
    constructor
    all_goals first | rfl | skip
    · exact (down x.here).symm
    · cases opened : x.pragma with
      | none => exact opened
      | some p => exact opened.trans (congrArg some (down p).symm)
  have lexeme : Lexeme.down 0 = id :=
    funext fun l => by simp only [Lexeme.down, Span.down, down, id]
  have failure : LexFailure.down 0 = id := funext fun f => by simp only [LexFailure.down, down, id]
  obtain ⟨items, error⟩ := trace_shifted same
  rw [lexeme, List.map_id] at items
  rw [failure, Option.map_id, id] at error
  exact ⟨items, error⟩

theorem trace_withLayout (x : Lexer) (lay : Layout) :
    located (x.withLayout lay).trace.items = located x.trace.items ∧
      (x.withLayout lay).trace.error? = x.trace.error? := by
  obtain ⟨items, error⟩ := x.lexemes_withLayout lay
  rw [located, items, located]
  exact ⟨rfl, error⟩

/-- The items of a step: braces, and then the lexeme. All of them leave a lexer
that differs in its layout only. -/
theorem emit_shape (x : Lexer) (l : Lexeme) :
    ∃ bs lay lay', (x.emit l).1 = x.braceItems bs ++ [(.lexeme l, x.withLayout lay)] ∧
      (x.emit l).2 = x.withLayout lay' := by
  unfold emit
  split
  · exact ⟨_, _, _, rfl, rfl⟩
  · exact ⟨[], x.layout, x.layout, rfl, rfl⟩

theorem ends_of_step (h : Step x l out y) (ends : EndsAt text x) : EndsAt text y := by
  obtain ⟨t, -, -, rest, here⟩ := tile_of_step h
  rw [EndsAt, rest, Position.after_append, ← here] at ends
  exact ends

/-- Braces in front of a trace leave a lexer that differs in its layout only. -/
theorem sound_braces {t : LexTrace} (sound : Sound text t) (ok : x.trace.error? = none)
    (ends : EndsAt text x)
    (loses : ∀ (b : Brace) (bs : List Brace),
      Loses (some (.virtual b)) (bs.map Token.virtual ++ t.items) x.trace.items)
    (bs : List (Brace × Layout)) : Sound text (.itemAll (x.braceItems bs) t) := by
  induction bs with
  | nil => exact sound
  | cons b bs ih =>
    obtain ⟨lexemes, error⟩ := trace_withLayout x b.2
    obtain ⟨lost, eq, few⟩ := loses b.1 (bs.map Prod.fst)
    have items : (Trace.itemAll (x.braceItems bs) t).items =
        (bs.map Prod.fst).map Token.virtual ++ t.items := by
      rw [Trace.items_itemAll, map_braceItems, List.map_map]
      rfl
    refine ⟨⟨error.trans ok, ends, ?_⟩, ih⟩
    change Loses _ (Trace.itemAll (x.braceItems bs) t).items _
    rw [items]
    exact ⟨lost, lexemes ▸ eq, few⟩

theorem sound_of_step (h : Step x l out y) (ok : y.trace.error? = none) (ends : EndsAt text y)
    (sound : Sound text y.trace) : Sound text x.trace := by
  obtain ⟨t, rfl, fits, -, -⟩ := tile_of_step h
  obtain ⟨front, scanned, cut⟩ := h
  rename_i z
  rw [trace_of_cons front, scanned]
  apply Trace.along_remarkAll
  simp only [cut]
  obtain ⟨bs, lay, lay', items, go⟩ := emit_shape z t.lexeme
  obtain ⟨lexemes, error⟩ := trace_withLayout z lay
  obtain ⟨lexemes', error'⟩ := trace_withLayout z lay'
  rw [go] at ok ends sound ⊢
  rw [error'] at ok
  have last : Sound text (.item (.lexeme t.lexeme) (z.withLayout lay) (z.withLayout lay').trace) :=
    ⟨⟨error.trans ok, ends, .of_located (lexemes'.trans lexemes.symm)⟩, sound⟩
  rw [items, Trace.itemAll, List.foldr_append]
  refine sound_braces last ok ends (fun b bs => ?_) bs
  refine ⟨[t.lexeme], ?_, .inr ⟨b, bs, t.lexeme, _, rfl, rfl, rfl⟩⟩
  rw [Trace.items, located_append, located_virtual, located_lexeme fits.inner, lexemes']
  rfl

/-- What a lexer delivers that stands at the end of its text. -/
theorem trace_of_spent (h : Spent text x) :
    x.trace = .remarkAll x.tabNotices (.item (.lexeme (Lexeme.atEnd text)) x (.done x)) := by
  have still : x.skipBlanks = x := by
    obtain ⟨config, rest, before, here, pragma, layout, tabs⟩ := x
    obtain rfl : rest = [] := h.rest
    rfl
  rw [trace_of_nil (still.symm ▸ h.rest), still, atEnd, h.pragma]
  simp only [h.layout, h.here]
  rfl

theorem items_of_spent (h : Spent text x) : x.trace.items = [.lexeme (Lexeme.atEnd text)] := by
  rw [trace_of_spent h, Trace.items_remarkAll]
  rfl

theorem resumes_of_spent (h : Spent text x) (last : Option Token) : Resumes text last x [] where
  ok := by
    rw [trace_of_spent h, Trace.error?_remarkAll]
    rfl
  ends := by
    rw [EndsAt, h.rest, h.here]
    rfl
  loses := .of_located (by rw [items_of_spent h]; rfl)

theorem sound_of_spent (h : Spent text x) : Sound text x.trace := by
  rw [trace_of_spent h]
  apply Trace.along_remarkAll
  exact ⟨resumes_of_spent h _, h⟩

/-- Once the open blocks are closed, the lexer is spent. -/
theorem sound_of_halts (halts : x.Halts) (ok : x.trace.error? = none) (ends : EndsAt text x) :
    Sound text x.trace := by
  obtain ⟨used, closed, -⟩ := trace_of_halts halts ok
  have stop : x.skipBlanks.here = Position.upTo text text.length := by
    have whole := List.takeWhile_append_dropWhile (p := isBlank) (l := x.rest)
    rw [← rest_skipBlanks, used, List.append_nil] at whole
    rw [here_skipBlanks, whole]
    exact ends
  let y := x.skipBlanks.withLayout x.skipBlanks.layout.finish.layout
  have spent : Spent text y := ⟨used, closed, stop, Layout.finish_finish x.skipBlanks.layout⟩
  obtain ⟨lexemes, error⟩ := trace_withLayout x.skipBlanks x.skipBlanks.layout.finish.layout
  have shape : x.trace =
      .itemAll (x.skipBlanks.braceItems x.skipBlanks.layout.finish.braces) y.trace := by
    rw [trace_of_nil used, atEnd, closed, trace_of_spent spent, Lexeme.atEnd, ← stop]
  rw [shape]
  apply sound_braces (sound_of_spent spent)
  · exact error.symm.trans (resumes_of_spent spent none).ok
  · rw [EndsAt, used, stop]
    rfl
  · intro b bs
    apply Loses.of_located
    rw [located_append, located_virtual, lexemes]
    rfl

/-- A lexer that meets no error can be read anew wherever a reader stops. -/
theorem sound_trace (x : Lexer) (ok : x.trace.error? = none) (ends : EndsAt text x) :
    Sound text x.trace := by
  generalize hn : x.rest.length = n
  induction n using Nat.strongRecOn generalizing x with
  | ind n ih =>
    obtain ⟨l, out, y, step⟩ | halts := x.step_or_halts
    · have shorter := step_shorter step
      have ok' : y.trace.error? = none := (trace_of_step step).2 ▸ ok
      have ends' := ends_of_step step ends
      exact sound_of_step step ok' ends' (ih _ (by omega) y ok' ends' rfl)
    · exact sound_of_halts halts ok ends

end Lexer

open Lexer (Spent EndsAt Resumes Sound)

variable {text : List Char}

namespace Sitting

variable {s : Sitting}

/-- The sitting can go on to its end, and be replaced at once. -/
structure Keeps (text : List Char) (s : Sitting) : Prop where
  sound : ∀ t, s.reading.rest = some t → Sound text t
  spent : s.isOver = true → Spent text s.reading.left
  resumes : Resumes text s.taken.getLast? s.reading.left s.ahead

/-- The sitting delivers the end of the text and nothing else, and so does any
later one. -/
structure Late (text : List Char) (s : Sitting) : Prop where
  spent : Spent text s.reading.left
  along : ∀ t, s.reading.rest = some t →
    Trace.Along (fun _ left _ => Spent text left) (Spent text) t
  stream : s.stream = [.lexeme (Lexeme.atEnd text)]

theorem keeps_opened {x : Lexer} (ok : x.trace.error? = none) (ends : EndsAt text x) :
    Keeps text (opened x) where
  sound := by
    rintro t ⟨⟩
    exact Lexer.sound_trace x ok ends
  spent := nofun
  resumes := ⟨ok, ends, .of_located rfl⟩

theorem late_opened {x : Lexer} (h : Spent text x) : Late text (opened x) where
  spent := h
  along := by
    rintro t ⟨⟩
    rw [Lexer.trace_of_spent h]
    apply Trace.along_remarkAll
    exact ⟨h, h⟩
  stream := Lexer.items_of_spent h

theorem error?_of_keeps (h : Keeps text s) : s.error? = none := by
  cases rest : s.reading.rest with
  | none => rw [error?, rest]; rfl
  | some t =>
    rw [error?, rest]
    exact Trace.error?_of_along (h.sound t rest)

/-- An item that is taken is no longer ahead; at the end nothing is taken. -/
theorem next_of_along {P : Token → Lexer → List Token → Prop} {Q : Lexer → Prop} {t : LexTrace}
    (rest : s.reading.rest = some t) (h : t.Along P Q) :
    (∃ a left r, s.next = ⟨s.taken ++ [a], ⟨left, some r⟩⟩ ∧ s.ahead = a :: r.items ∧
      P a left r.items ∧ r.Along P Q) ∨
    ∃ left, s.next = ⟨s.taken, ⟨left, none⟩⟩ ∧ s.ahead = [] ∧ Q left := by
  have pulled : s.next = ⟨s.taken ++ (t.take (some 1)).items,
      ⟨(t.take (some 1)).left.getD s.reading.left, (t.take (some 1)).rest⟩⟩ := by
    simp only [next, Reading.pull, rest]
  have ahead : s.ahead = t.items := by rw [Sitting.ahead, rest]; rfl
  rw [pulled, ahead]
  obtain ⟨a, left, r, items, leaves, more, split, here, along⟩ |
    ⟨left, items, leaves, more, split, q⟩ := Trace.take_of_along h
  · left
    refine ⟨a, left, r, ?_, split, here, along⟩
    rw [items, leaves, more]
    rfl
  · right
    refine ⟨left, ?_, split, q⟩
    rw [items, leaves, more, List.append_nil]
    rfl

theorem next_of_over (rest : s.reading.rest = none) : s.next = s := by
  obtain ⟨taken, left, more⟩ := s
  obtain rfl : more = none := rest
  simp only [next, Reading.pull, List.append_nil]

theorem keeps_next (h : Keeps text s) : Keeps text s.next ∧ s.next.stream = s.stream := by
  cases rest : s.reading.rest with
  | none =>
    rw [next_of_over rest]
    exact ⟨h, rfl⟩
  | some t =>
    obtain ⟨a, left, r, eq, ahead, resumes, sound⟩ | ⟨left, eq, ahead, spent⟩ :=
      next_of_along rest (h.sound t rest)
    · rw [eq]
      refine ⟨⟨?_, nofun, ?_⟩, ?_⟩
      · rintro t ⟨⟩
        exact sound
      · rw [List.getLast?_concat]
        exact resumes
      · rw [stream, stream, ahead, List.append_assoc]
        rfl
    · rw [eq]
      refine ⟨⟨nofun, fun _ => spent, Lexer.resumes_of_spent spent _⟩, ?_⟩
      rw [stream, stream, ahead]
      rfl

theorem late_next (h : Late text s) : Late text s.next := by
  cases rest : s.reading.rest with
  | none =>
    rw [next_of_over rest]
    exact h
  | some t =>
    obtain ⟨a, left, r, eq, ahead, spent, along⟩ | ⟨left, eq, ahead, spent⟩ :=
      next_of_along rest (h.along t rest)
    · have stream := h.stream
      rw [Sitting.stream, ahead] at stream
      rw [eq]
      refine ⟨spent, ?_, ?_⟩
      · rintro t ⟨⟩
        exact along
      · rw [Sitting.stream, List.append_assoc]
        exact stream
    · have stream := h.stream
      rw [Sitting.stream, ahead] at stream
      rw [eq]
      exact ⟨spent, nofun, stream⟩

theorem keeps_again (h : Keeps text s) : Keeps text s.again :=
  keeps_opened h.resumes.ok h.resumes.ends

theorem late_again (h : Late text s) : Late text s.again := late_opened h.spent

theorem follows_again (h : Keeps text s) : s.Follows s.again := h.resumes.loses

theorem late_sittings (h : Late text s) (acts : List Act) :
    ∀ q ∈ s.sittings acts, q.stream = [.lexeme (Lexeme.atEnd text)] := by
  induction acts generalizing s with
  | nil =>
    intro q hq
    obtain rfl := List.mem_singleton.1 hq
    exact h.stream
  | cons act acts ih =>
    cases act with
    | next => exact ih (late_next h)
    | again =>
      intro q hq
      obtain rfl | later := List.mem_cons.1 hq
      · exact h.stream
      · exact ih (late_again h) q later

/-- Each sitting keeps what the one before it had still to deliver, but for one
lexeme at most. -/
theorem sittings_follow (h : Keeps text s) (acts : List Act) :
    ∃ p ps, s.sittings acts = p :: ps ∧ p.stream = s.stream ∧ (p :: ps).IsChain Follows ∧
      ∀ q ∈ p :: ps, q.error? = none := by
  induction acts generalizing s with
  | nil =>
    refine ⟨s, [], rfl, rfl, .singleton s, ?_⟩
    intro q hq
    obtain rfl := List.mem_singleton.1 hq
    exact error?_of_keeps h
  | cons act acts ih =>
    cases act with
    | next =>
      obtain ⟨keeps, stream⟩ := keeps_next h
      rw [← stream]
      exact ih keeps
    | again =>
      obtain ⟨p, ps, eq, stream, chain, ok⟩ := ih (keeps_again h)
      have follows : s.Follows p := by
        rw [Follows, stream]
        exact follows_again h
      refine ⟨s, p :: ps, congrArg (s :: ·) eq, rfl, .cons_cons follows chain, ?_⟩
      intro q hq
      obtain rfl | later := List.mem_cons.1 hq
      · exact error?_of_keeps h
      · exact ok q later

theorem sittings_over (h : Keeps text s) (acts : List Act) :
    (s.sittings acts).Pairwise fun p q =>
      p.isOver = true → q.stream = [.lexeme (Lexeme.atEnd text)] := by
  induction acts generalizing s with
  | nil => exact List.pairwise_singleton _ s
  | cons act acts ih =>
    cases act with
    | next => exact ih (keeps_next h).1
    | again =>
      apply List.Pairwise.cons
      · intro q hq ended
        exact late_sittings (late_opened (h.spent ended)) acts q hq
      · exact ih (keeps_again h)

/-- What sittings deliver that follow each other is part of what the first one
could deliver. -/
theorem located_taken {p : Sitting} {ps : List Sitting} (chain : (p :: ps).IsChain Follows) :
    (located ((p :: ps).flatMap taken)).Sublist (located p.stream) := by
  induction ps generalizing p with
  | nil =>
    rw [List.flatMap_singleton, stream, located_append]
    exact List.sublist_append_left _ _
  | cons q ps ih =>
    obtain ⟨follows, more⟩ := List.isChain_cons_cons.1 chain
    rw [List.flatMap_cons, located_append, stream, located_append]
    exact ((ih more).trans follows.sublist).append_left _

end Sitting

/-- Tiles lie one behind the other. -/
theorem starts_of_tiled {p : Position} {tiles : List Tile} (h : Tiled p tiles) :
    (∀ t ∈ tiles, p ≤ t.lexeme.span.start) ∧
      tiles.Pairwise fun t u => t.lexeme.span.start < u.lexeme.span.start := by
  induction tiles generalizing p with
  | nil => exact ⟨List.forall_mem_nil _, .nil⟩
  | cons t ts ih =>
    obtain ⟨fits, more⟩ := h
    obtain ⟨apart, pairs⟩ := ih more
    obtain ⟨c, r, text, -⟩ := fits.solid
    have start : p ≤ t.lexeme.span.start := by
      rw [fits.located]
      exact p.le_after t.gap
    have stop : t.lexeme.span.start < p.after t.text := by
      rw [fits.located, Tile.text, Position.after_append, text]
      exact Position.lt_after (List.cons_ne_nil c r) _
    refine ⟨?_, List.pairwise_cons.2 ⟨?_, pairs⟩⟩
    · intro u hu
      obtain rfl | later := List.mem_cons.1 hu
      · exact start
      · exact le_trans (le_of_lt (lt_of_le_of_lt start stop)) (apart u later)
    · intro u hu
      exact lt_of_lt_of_le stop (apart u hu)

/-- **Restarted readings keep the text.** Whatever a reader of a text that lexes
asks for, and however often it begins anew, it meets no error, and gets part of
the lexemes of the text, each at most once and in order. A new reading lacks at
most one lexeme of what the old one had still to deliver, and only if the last
item delivered was a brace ahead of it. Once a reading has come to its end, any
later one delivers the end of the text and nothing else. -/
theorem restarted_readings {config : Config} {tokens : List Token}
    (h : lex config text = .ok tokens) (acts : List Act) :
    let sittings := (Sitting.opened (Lexer.start config text)).sittings acts
    let delivered := located (sittings.flatMap Sitting.taken)
    delivered.Sublist (located tokens) ∧
      (delivered.Pairwise fun l m => l.span.start < m.span.start) ∧
      sittings.IsChain Sitting.Follows ∧
      (∀ s ∈ sittings, s.error? = none) ∧
      sittings.Pairwise fun p q =>
        p.isOver = true → q.stream = [.lexeme (Lexeme.atEnd text)] := by
  intro sittings delivered
  obtain ⟨body, tiles, tail, eq, lexemes, tiled, -⟩ := tiled_of_lex h
  have apart : (located tokens).Pairwise fun l m => l.span.start < m.span.start := by
    rw [eq, located_of_tiled tiled lexemes, List.pairwise_map]
    exact (starts_of_tiled tiled).2
  obtain ⟨items, ok⟩ := lex_iff.1 h
  have ends : EndsAt text (Lexer.start config text) := by
    rw [EndsAt, Position.upTo, List.take_length]
    rfl
  have keeps := Sitting.keeps_opened ok ends
  obtain ⟨p, ps, split, stream, chain, errors⟩ := Sitting.sittings_follow keeps acts
  have part : delivered.Sublist (located tokens) := by
    have taken := Sitting.located_taken chain
    rw [← split, stream] at taken
    rw [← items]
    exact taken
  refine ⟨part, apart.sublist part, ?_, ?_, Sitting.sittings_over keeps acts⟩
  · rw [← split] at chain
    exact chain
  · rw [← split] at errors
    exact errors

/-- The second reading begins when the brace before `x` has been delivered, and
so `x` is lost. The third one begins when the second is over. -/
theorem restarted_readings_brace :
    let text := ['d', 'o', ' ', 'x', ' ', 'y']
    let sittings := (Sitting.opened (Lexer.start .permissive text)).sittings
      [.next, .next, .again, .next, .next, .next, .again, .next]
    let delivered := located (sittings.flatMap Sitting.taken)
    let opener : Lexeme := ⟨.keyword .doKw, ⟨⟨1, 1⟩, ⟨1, 3⟩⟩, ['d', 'o']⟩
    let name (start stop : Int) (c : Char) : Lexeme :=
      ⟨.name .varid, ⟨⟨1, start⟩, ⟨1, stop⟩⟩, [c]⟩
    let tokens := [.lexeme opener, .virtual .opening, .lexeme (name 4 5 'x'),
      .lexeme (name 6 7 'y'), .virtual .closing, .lexeme (Lexeme.atEnd text)]
    lex .permissive text = .ok tokens ∧ delivered = [opener, name 6 7 'y'] ∧
      delivered.Sublist (located tokens) ∧
      (delivered.Pairwise fun l m => l.span.start < m.span.start) ∧
      sittings.IsChain Sitting.Follows ∧
      (∀ s ∈ sittings, s.error? = none) ∧
      sittings.Pairwise fun p q =>
        p.isOver = true → q.stream = [.lexeme (Lexeme.atEnd text)] := by
  intro text sittings delivered opener name tokens
  have h : lex .permissive text = .ok tokens := by decide +kernel
  have given : delivered = [opener, name 6 7 'y'] := by decide +kernel
  exact ⟨h, given, restarted_readings h _⟩

end HaskellLexis
