import HaskellLexis.Proofs.Single

/-!
# Comments nest

The marks of a comment are read from left to right, and no character belongs to
two of them. The comment is over behind the mark that first leaves as many
closed as were opened. How deep the search stands when it comes to a text does
not change what the text adds to it, so a comment may be put into another one.

* `Comment.marks`, `Comment.depth`: the marks of a text, and what is left open;
* `Comment.ClosesAt`: where a text that opens a comment closes it;
* `Comment.closeLength?_append_mark`: the search comes to the same mark behind
  the inside of a comment, however deep it is;
* `comments_nest`: comments end where they close, and nest.
-/

namespace HaskellLexis

variable {c : Char} {r s : List Char} {n : Nat}

namespace Comment

inductive Mark where
  | opening
  | closing
  deriving DecidableEq

/-- What a mark adds to the number of open comments. -/
def Mark.delta : Mark → Int
  | opening => 1
  | closing => -1

/-- The marks of a text that begins at this offset, each with the offset at
which it ends. -/
def marks (offset : Nat) : List Char → List (Mark × Nat)
  | [] => []
  | '{' :: '-' :: r => (.opening, offset + 2) :: marks (offset + 2) r
  | '-' :: '}' :: r => (.closing, offset + 2) :: marks (offset + 2) r
  | _ :: r => marks (offset + 1) r

/-- How many comments are open behind these marks. -/
def depth : List (Mark × Nat) → Int
  | [] => 0
  | m :: ms => m.1.delta + depth ms

/-- From the depth `d` on, none of these marks brings it to zero. -/
def StaysOpen (d : Int) (ms : List (Mark × Nat)) : Prop :=
  ∀ first, first ≠ [] → first <+: ms → d + depth first ≠ 0

/-- From the depth `d` on, the mark that first brings it to zero ends at `n`. -/
def ClosesFrom (d : Int) (ms : List (Mark × Nat)) (n : Nat) : Prop :=
  ∃ before m after, ms = before ++ (m, n) :: after ∧ d + depth (before ++ [(m, n)]) = 0 ∧
    StaysOpen d before

/-- The text opens a comment, and the mark that closes it ends at `n`. -/
def ClosesAt (s : List Char) (n : Nat) : Prop := ClosesFrom 0 (marks 0 s) n

theorem depth_nil : depth [] = 0 := rfl

theorem depth_cons (m : Mark × Nat) (ms : List (Mark × Nat)) :
    depth (m :: ms) = m.1.delta + depth ms := rfl

variable {d : Int} {m : Mark × Nat} {ms : List (Mark × Nat)}

theorem staysOpen_nil (d : Int) : StaysOpen d [] := by
  intro first some_mark inside
  exact absurd (List.prefix_nil.1 inside) some_mark

theorem staysOpen_cons :
    StaysOpen d (m :: ms) ↔ d + m.1.delta ≠ 0 ∧ StaysOpen (d + m.1.delta) ms := by
  constructor
  · intro opened
    constructor
    · have one := opened [m] (List.cons_ne_nil _ _) ⟨ms, rfl⟩
      rwa [depth_cons, depth_nil, Int.add_zero] at one
    · intro first some_mark inside
      have more := opened (m :: first) (List.cons_ne_nil _ _) (List.cons_prefix_cons.2 ⟨rfl, inside⟩)
      rwa [depth_cons, ← Int.add_assoc] at more
  · rintro ⟨one, more⟩ first some_mark inside
    cases first with
    | nil => exact absurd rfl some_mark
    | cons m' first =>
      obtain ⟨rfl, later⟩ := List.cons_prefix_cons.1 inside
      rw [depth_cons, ← Int.add_assoc]
      by_cases last : first = []
      · rw [last, depth_nil, Int.add_zero]
        exact one
      · exact more first last later

theorem not_closesFrom_nil : ¬ClosesFrom d [] n := by
  rintro ⟨before, m, after, empty, -⟩
  cases before <;> cases empty

/-- The first mark closes what is open, or leaves it to those behind. -/
theorem closesFrom_cons :
    ClosesFrom d (m :: ms) n ↔
      d + m.1.delta = 0 ∧ m.2 = n ∨ d + m.1.delta ≠ 0 ∧ ClosesFrom (d + m.1.delta) ms n := by
  constructor
  · rintro ⟨before, m', after, whole, closed, opened⟩
    cases before with
    | nil =>
      obtain ⟨rfl, -⟩ := List.cons.inj whole
      rw [List.nil_append, depth_cons, depth_nil, Int.add_zero] at closed
      exact .inl ⟨closed, rfl⟩
    | cons m'' before =>
      obtain ⟨rfl, rest⟩ := List.cons.inj whole
      obtain ⟨one, more⟩ := staysOpen_cons.1 opened
      rw [List.cons_append, depth_cons, ← Int.add_assoc] at closed
      exact .inr ⟨one, before, m', after, rest, closed, more⟩
  · rintro (⟨closed, rfl⟩ | ⟨one, before, m', after, rfl, closed, more⟩)
    · refine ⟨[], m.1, ms, rfl, ?_, staysOpen_nil d⟩
      rw [List.nil_append, depth_cons, depth_nil, Int.add_zero]
      exact closed
    · refine ⟨m :: before, m', after, rfl, ?_, staysOpen_cons.2 ⟨one, more⟩⟩
      rw [List.cons_append, depth_cons, ← Int.add_assoc]
      exact closed

theorem closesFrom_of_ne (opened : d + m.1.delta ≠ 0) :
    ClosesFrom d (m :: ms) n ↔ ClosesFrom (d + m.1.delta) ms n := by
  rw [closesFrom_cons]
  simp only [opened, false_and, false_or, not_false_eq_true, true_and, ne_eq]

theorem closesFrom_of_zero (closed : d + m.1.delta = 0) :
    ClosesFrom d (m :: ms) n ↔ m.2 = n := by
  rw [closesFrom_cons]
  simp only [closed, true_and, ne_eq, not_true_eq_false, false_and, or_false]

/-! ## The search -/

theorem map_add_map (offset k : Nat) (o : Option Nat) :
    (o.map (· + k)).map (offset + ·) = o.map (offset + k + ·) := by
  cases o with
  | none => rfl
  | some j =>
    have sum : offset + (j + k) = offset + k + j := by omega
    exact congrArg some sum

/-- The search stops where the depth first is zero. It counts the comments
around the one that it is in. -/
theorem closesFrom_marks (d offset : Nat) (s : List Char) :
    ClosesFrom (d + 1) (marks offset s) n ↔ (closeLength? d s).map (offset + ·) = some n := by
  fun_induction closeLength? d s generalizing offset with
  | case1 =>
    constructor
    · intro closes
      exact absurd closes not_closesFrom_nil
    · intro none
      cases none
  | case2 d r ih =>
    have opened : (d : Int) + 1 + Mark.opening.delta ≠ 0 := by
      rw [Mark.delta]
      omega
    rw [marks, map_add_map, ← ih]
    exact closesFrom_of_ne opened
  | case3 r =>
    rw [marks, closesFrom_of_zero rfl]
    exact ⟨congrArg some, Option.some.inj⟩
  | case4 d r ih =>
    have opened : ((d + 1 : Nat) : Int) + 1 + Mark.closing.delta ≠ 0 := by
      rw [Mark.delta]
      omega
    have down : ((d + 1 : Nat) : Int) + 1 + Mark.closing.delta = (d : Int) + 1 := by
      rw [Mark.delta]
      omega
    rw [marks, map_add_map, ← ih, closesFrom_of_ne opened, down]
  | case5 d c r noOpen noClose noInner ih =>
    rw [map_add_map, ← ih, marks]
    · exact noOpen
    · intro t dash brace
      cases d with
      | zero => exact noClose t rfl dash brace
      | succ d => exact noInner d t rfl dash brace

/-! ## Comments inside comments -/

/-- A text with a mark at its front. -/
inductive StartsMark : List Char → Prop where
  | opening (t : List Char) : StartsMark ('{' :: '-' :: t)
  | closing (t : List Char) : StartsMark ('-' :: '}' :: t)

theorem eq_some_of_map_add {o : Option Nat} {m k : Nat} (h : o.map (· + k) = some (m + k)) :
    o = some m := by
  obtain ⟨j, rfl, same⟩ := Option.map_eq_some_iff.1 h
  exact congrArg some (Nat.add_right_cancel same)

/-- A character that begins no mark. -/
theorem closeLength?_other (d : Nat) (noOpen : ∀ t, c = '{' → r = '-' :: t → False)
    (noClose : ∀ t, c = '-' → r = '}' :: t → False) :
    closeLength? d (c :: r) = (closeLength? d r).map (· + 1) := by
  rw [closeLength?]
  · exact noOpen
  · exact fun t _ => noClose t
  · exact fun k t _ => noClose t

/-- The inside of a comment that is closed right behind it adds only its length
to the search, whatever mark comes next and however deep the comment is. -/
theorem closeLength?_append_mark {a t : List Char} {e : Nat} (d : Nat) (starts : StartsMark t)
    (h : closeLength? e (a ++ ['-', '}']) = some (a.length + 2)) :
    closeLength? (e + d) (a ++ t) = (closeLength? d t).map (· + a.length) := by
  fun_induction closeLength? e a with
  | case1 e =>
    cases e with
    | zero =>
      rw [Nat.zero_add]
      exact Option.map_id'.symm
    | succ e => cases h
  | case2 e r ih =>
    have inner := ih (eq_some_of_map_add h)
    rw [Nat.add_right_comm] at inner
    change (closeLength? (e + d + 1) (r ++ t)).map (· + 2) = _
    rw [inner, Option.map_map]
    rfl
  | case3 r =>
    have length := Option.some.inj h
    simp at length
  | case4 e r ih =>
    have inner := ih (eq_some_of_map_add h)
    rw [Nat.succ_add]
    change (closeLength? (e + d) (r ++ t)).map (· + 2) = _
    rw [inner, Option.map_map]
    rfl
  | case5 e c r noOpen noClose noInner ih =>
    -- Behind the last character of the inside stands that of a mark.
    have opened {u : List Char} (mark : StartsMark u) (v : List Char) (brace : c = '{')
        (dash : r ++ u = '-' :: v) : False := by
      cases r with
      | nil =>
        rw [brace] at h
        cases h
      | cons c' r =>
        obtain ⟨rfl, -⟩ := List.cons.inj dash
        exact noOpen r brace rfl
    have closed {u : List Char} (mark : StartsMark u) (v : List Char) (dash : c = '-')
        (brace : r ++ u = '}' :: v) : False := by
      cases r with
      | nil =>
        rw [List.nil_append] at brace
        subst brace
        cases mark
      | cons c' r =>
        obtain ⟨rfl, -⟩ := List.cons.inj brace
        cases e with
        | zero => exact noClose r rfl dash rfl
        | succ e => exact noInner e r rfl dash rfl
    have step {u : List Char} (k : Nat) (mark : StartsMark u) :
        closeLength? k (c :: (r ++ u)) = (closeLength? k (r ++ u)).map (· + 1) :=
      closeLength?_other k (opened mark) (closed mark)
    rw [List.cons_append, step e (.closing [])] at h
    have inner := ih (eq_some_of_map_add h)
    rw [List.cons_append, step (e + d) starts, inner, Option.map_map]
    rfl

/-- This text between the marks of a comment. -/
def around (inside : List Char) : List Char := '{' :: '-' :: (inside ++ ['-', '}'])

theorem closeLength?_nested {a b : List Char}
    (ha : closeLength? 0 (a ++ ['-', '}']) = some (a.length + 2))
    (hb : closeLength? 0 (b ++ ['-', '}']) = some (b.length + 2)) :
    closeLength? 0 (a ++ around b ++ ['-', '}']) = some ((a ++ around b).length + 2) := by
  have outer := closeLength?_append_mark 0 (.opening (b ++ ['-', '}'] ++ ['-', '}'])) ha
  have inner := closeLength?_append_mark 1 (.closing ['-', '}']) hb
  have last : closeLength? 1 ['-', '}', '-', '}'] = some 4 := rfl
  rw [last] at inner
  have whole : a ++ around b ++ ['-', '}'] =
      a ++ '{' :: '-' :: (b ++ ['-', '}'] ++ ['-', '}']) := by simp [around]
  rw [whole, outer, closeLength?, List.append_assoc]
  rw [Nat.zero_add] at inner ⊢
  rw [show ['-', '}'] ++ ['-', '}'] = ['-', '}', '-', '}'] from rfl, inner]
  simp [around]
  omega

end Comment

open Comment Lexer

/-! ## Lexemes -/

theorem Lexeme.opensComment_of_ne (noHash : r.head? ≠ some '#') :
    opensComment '{' ('-' :: r) = true := by
  simp [opensComment, noHash]

theorem Lexeme.scan_comment (site : Site) (noHash : r.head? ≠ some '#') {m : Nat}
    (closed : closeLength? 0 r = some m) :
    scan site '{' ('-' :: r) = .ok (.comment ((documentation? site.on r).getD block), m + 1) := by
  rw [scan_of_opensComment (opensComment_of_ne noHash), scanBlock, List.tail_cons, closed]
  rfl

theorem Lexeme.scan_open (site : Site) (noHash : r.head? ≠ some '#')
    (opened : closeLength? 0 r = none) : scan site '{' ('-' :: r) = .error .openComment := by
  rw [scan_of_opensComment (opensComment_of_ne noHash), scanBlock, List.tail_cons, opened]
  rfl

/-- A lexeme of a comment closes where the search for its end stops. -/
theorem closesAt_opening (r : List Char) :
    ClosesAt ('{' :: '-' :: r) n ↔ (closeLength? 0 r).map (2 + ·) = some n := by
  rw [← closesFrom_marks]
  exact closesFrom_of_ne (by decide)

section

variable {config : Config} {a : List Char}

/-- The text has one lexeme, and that is a comment. -/
def IsOneComment (config : Config) (text : List Char) : Prop :=
  ∃ tokens l, lex config text = .ok tokens ∧ located tokens = [l] ∧ l.kind.isComment = true

theorem getLast?_around (a : List Char) : (around a).getLast? = some '}' :=
  getLast?_behind (s := ['-', '}']) rfl ('{' :: '-' :: a)

theorem head?_around_ne (noHash : a.head? ≠ some '#') : (a ++ ['-', '}']).head? ≠ some '#' := by
  cases a with
  | nil => decide
  | cons c a => exact noHash

theorem closeLength?_of_isOneComment (noHash : a.head? ≠ some '#')
    (h : IsOneComment config (around a)) :
    closeLength? 0 (a ++ ['-', '}']) = some (a.length + 2) := by
  obtain ⟨tokens, l, ok, single, -⟩ := h
  have scanned := scan_of_single ok single (by decide) (getLast?_around a) (by decide)
  cases closed : closeLength? 0 (a ++ ['-', '}']) with
  | none =>
    rw [Lexeme.scan_open _ (head?_around_ne noHash) closed] at scanned
    cases scanned
  | some m =>
    rw [Lexeme.scan_comment _ (head?_around_ne noHash) closed] at scanned
    have size := congrArg Prod.snd (Except.ok.inj scanned)
    simp only [List.length_cons, List.length_append, List.length_nil] at size
    congr 1
    omega

theorem lexesAs_around (config : Config) (noHash : a.head? ≠ some '#')
    (closed : closeLength? 0 (a ++ ['-', '}']) = some (a.length + 2)) :
    ∃ kind, LexesAs config (around a) (.comment kind) := by
  let kind := (documentation? config.enabled (a ++ ['-', '}'])).getD block
  have noPragma : ∀ p, Kind.comment kind ≠ .openPragma p := nofun
  refine ⟨kind, (lexesAs_iff (by decide) (getLast?_around a) (by decide) noPragma).2 ?_⟩
  rw [Lexeme.scan_comment _ (head?_around_ne noHash) closed]
  simp only [List.length_cons, List.length_append, List.length_nil]
  rfl

end

namespace Lexer

variable {x : Lexer}

/-- Where the lexer comes to this text it takes a comment, up to the mark that
closes it. If there is none, it fails at the opening of the comment. -/
structure TakesComment (x : Lexer) (s : List Char) : Prop where
  taken : ∀ n, ClosesAt s n → ∃ l out y, Step x l out y ∧ l.kind.isComment = true ∧
    l.text = s.take n ∧ l.span = ⟨x.skipBlanks.here, x.skipBlanks.here.after (s.take n)⟩ ∧
    y.rest = s.drop n ∧ located x.trace.items = l :: located y.trace.items
  failed : (∀ n, ¬ClosesAt s n) →
    x.trace.items = [] ∧ x.trace.error? = some ⟨.openComment, x.skipBlanks.here⟩ ∧
    ∀ config text ls out, Run (start config text) ls out x →
      lex config text = .error (.lexical (.ofCause config .openComment x.skipBlanks.here))

theorem located_of_step {y : Lexer} {l : Lexeme} {out : List (Token × Lexer)}
    (h : Step x l out y) : located x.trace.items = l :: located y.trace.items := by
  have inner := inner_of_run (run_of_step h) l List.mem_cons_self
  rw [located, (trace_of_step h).1, List.filterMap_append, step_lexemes h]
  exact List.filter_cons_of_pos (decide_eq_true inner)

theorem takesComment (front : x.skipBlanks.rest = '{' :: '-' :: r) (noHash : r.head? ≠ some '#') :
    x.TakesComment ('{' :: '-' :: r) := by
  constructor
  · intro n closes
    obtain ⟨m, closed, rfl⟩ := Option.map_eq_some_iff.1 ((closesAt_opening r).1 closes)
    have scanned := Lexeme.scan_comment x.skipBlanks.site noHash closed
    obtain ⟨out, y, step, rest, -⟩ := step_of_scan front scanned
    rw [Nat.add_comm 2 m, List.take_succ_cons, List.drop_succ_cons]
    exact ⟨_, out, y, step, rfl, rfl, rfl, rest, located_of_step step⟩
  · intro never
    have opened : closeLength? 0 r = none := by
      cases closed : closeLength? 0 r with
      | none => rfl
      | some m =>
        apply absurd ((closesAt_opening r).2 _) (never (2 + m))
        rw [closed]
        rfl
    obtain ⟨nothing, error⟩ := trace_of_failed front (Lexeme.scan_open _ noHash opened)
    refine ⟨nothing, error, ?_⟩
    intro config text ls out run
    exact lex_of_failed_run run error

end Lexer

/-- **Comments nest.** Wherever a lexer comes to a comment, it takes it up to
the mark at which as many are closed as were opened, or fails where the comment
opens. So what is a comment between its marks may stand inside another one. -/
theorem comments_nest :
    (∀ (x : Lexer) (r : List Char), x.skipBlanks.rest = '{' :: '-' :: r → r.head? ≠ some '#' →
      x.TakesComment ('{' :: '-' :: r)) ∧
    ∀ (config : Config) (a b : List Char), a.head? ≠ some '#' → b.head? ≠ some '#' →
      IsOneComment config (around a) → IsOneComment config (around b) →
      ∃ kind, LexesAs config (around (a ++ around b)) (.comment kind) := by
  constructor
  · intro x r front noHash
    exact takesComment front noHash
  · intro config a b noHashA noHashB ha hb
    have closedA := closeLength?_of_isOneComment noHashA ha
    have closedB := closeLength?_of_isOneComment noHashB hb
    have noHash : (a ++ around b).head? ≠ some '#' := by
      cases a with
      | nil => exact nofun
      | cons c a => exact noHashA
    exact lexesAs_around config noHash (closeLength?_nested closedA closedB)

/-- A comment with one inside, one whose inner comment is never closed, and two
that go into one another. -/
theorem comments_nest_inner :
    let inner := ['{', '-', '{', '-', '-', '}', 'x', '-', '}', 'y']
    let open_ := ['{', '-', '{', '-', '}']
    (ClosesAt inner 9 ∧ ∃ l out y, Step (start .permissive (' ' :: inner)) l out y ∧
      l.text = inner.take 9 ∧ y.rest = ['y']) ∧
    ((∀ n, ¬ClosesAt open_ n) ∧
      lex .permissive open_ = .error (.lexical (.ofCause .permissive .openComment .origin))) ∧
    IsOneComment .permissive (around ['x']) ∧ IsOneComment .permissive (around ['-']) ∧
      ∃ kind, LexesAs .permissive (around (['x'] ++ around ['-'])) (.comment kind) := by
  intro inner open_
  have closes : ClosesAt inner 9 := (closesAt_opening _).2 rfl
  have never : ∀ n, ¬ClosesAt open_ n := by
    intro n closes
    cases (closesAt_opening _).1 closes
  have letter : IsOneComment .permissive (around ['x']) :=
    ⟨[.lexeme ⟨.comment .block, ⟨⟨1, 1⟩, ⟨1, 6⟩⟩, around ['x']⟩,
      .lexeme ⟨.endOfText, ⟨⟨1, 6⟩, ⟨1, 6⟩⟩, []⟩], _, by decide +kernel, rfl, rfl⟩
  have dash : IsOneComment .permissive (around ['-']) :=
    ⟨[.lexeme ⟨.comment .block, ⟨⟨1, 1⟩, ⟨1, 6⟩⟩, around ['-']⟩,
      .lexeme ⟨.endOfText, ⟨⟨1, 6⟩, ⟨1, 6⟩⟩, []⟩], _, by decide +kernel, rfl, rfl⟩
  refine ⟨⟨closes, ?_⟩, ⟨never, ?_⟩, letter, dash, ?_⟩
  · have takes := comments_nest.1 (start .permissive (' ' :: inner)) _ rfl (by decide)
    obtain ⟨l, out, y, step, -, text, -, rest, -⟩ := takes.taken 9 closes
    exact ⟨l, out, y, step, text, rest⟩
  · have takes := comments_nest.1 (start .permissive open_) _ rfl (by decide)
    exact (takes.failed never).2.2 _ _ _ _ (.stay _)
  · exact comments_nest.2 .permissive ['x'] ['-'] (by decide) (by decide) letter dash

end HaskellLexis
