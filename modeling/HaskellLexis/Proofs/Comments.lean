import HaskellLexis.Proofs.Fading
import HaskellLexis.Proofs.Joining
import HaskellLexis.Proofs.Reprinting

/-!
# Comments are blanks, but for what shows

A comment of a text that lexes may be written over with blanks. The lexer then
finds the same lexemes at the same places, up to one that stands beside the
comment and looks at the characters next to it.

* `Comment.Covers`: where a comment begins and ends;
* `Tile.faded`, `Unnoticed`: the new text, and that none of its lexemes notices;
* `Pale`: a lexer in the new text beside one in the old;
* `comments_fade`: whole texts.
-/

namespace HaskellLexis

variable {on : Extensions} {site : Site} {c : Char} {r s s' w : List Char} {k : Kind} {m n : Nat}

/-! ## Blanks over a text -/

/-- What is written over a character of a comment. Tabs and line feeds stay, so
that everything behind keeps its place. -/
def blankOut (c : Char) : Char := if c = '\n' ∨ c = '\t' then c else ' '

theorem isBlank_blankOut (c : Char) : isBlank (blankOut c) = true := by
  unfold blankOut
  split
  · rename_i kept
    obtain rfl | rfl := kept <;> rfl
  · rfl

theorem Position.after_blankOut (p : Position) (s : List Char) :
    p.after (s.map blankOut) = p.after s := by
  induction s generalizing p with
  | nil => rfl
  | cons c s ih =>
    have same : p.next (blankOut c) = p.next c := by
      unfold blankOut
      split
      · rfl
      · rename_i other
        obtain ⟨feed, tab⟩ := not_or.1 other
        simp only [next, if_neg feed, if_neg tab]
        rfl
    rw [List.map_cons, after_cons, after_cons, same, ih]

/-! ## The ends of a comment -/

theorem take_of_offsetOf? {pat : List Char} (h : offsetOf? pat s = some m) :
    s.take (m + pat.length) = s.take m ++ pat := by
  induction s generalizing m with
  | nil => cases h
  | cons c r ih =>
    simp only [offsetOf?] at h
    split at h
    · rename_i here
      cases h
      rw [Nat.zero_add, List.take_zero, List.nil_append]
      exact (List.prefix_iff_eq_take.1 (List.isPrefixOf_iff_prefix.1 here)).symm
    · obtain ⟨j, later, rfl⟩ := Option.map_eq_some_iff.1 h
      rw [Nat.add_right_comm, List.take_succ_cons, List.take_succ_cons, ih later, List.cons_append]

namespace Comment

theorem closeLength?_last {depth : Nat} (h : closeLength? depth s = some n) :
    (s.take n).getLast? = some '}' := by
  fun_induction closeLength? depth s generalizing n with
  | case1 => cases h
  | case2 depth r ih | case4 depth r ih =>
    obtain ⟨m, hm, rfl⟩ := Option.map_eq_some_iff.1 h
    simp only [List.take_succ_cons, List.getLast?_cons, ih hm, Option.getD_some]
  | case3 r =>
    cases h
    rfl
  | case5 depth c r noOpen noClose noInner ih =>
    obtain ⟨m, hm, rfl⟩ := Option.map_eq_some_iff.1 h
    simp only [List.take_succ_cons, List.getLast?_cons, ih hm, Option.getD_some]

theorem drop_lineLength (s : List Char) :
    (s.drop (lineLength s)).head?.any (· ≠ '\n') = false := by
  rw [lineLength, drop_runLength]
  have head := List.head?_dropWhile_not (· ≠ '\n') s
  cases front : (s.dropWhile (· ≠ '\n')).head? with
  | none => rfl
  | some d =>
    rw [front] at head
    exact head

/-- Documentation goes on up to the end of a line. -/
theorem drop_continuationLength (on : Extensions)
    (line : s.head?.any (· ≠ '\n') = false) :
    (s.drop (continuationLength on s)).head?.any (· ≠ '\n') = false := by
  fun_induction continuationLength on s with
  | case1 r blanks body plain n ih =>
    rw [drop_lines]
    exact ih (drop_lineLength body)
  | case2 r blanks body other => exact line
  | case3 s other => exact line

theorem drop_scanLine (on : Extensions) (r : List Char) :
    (r.drop (scanLine on r).2).head?.any (· ≠ '\n') = false := by
  rw [scanLine_length]
  split
  · rw [← List.drop_drop]
    exact drop_continuationLength on (drop_lineLength r)
  · exact drop_lineLength r

/-- The comment `c :: r.take n` of the text `c :: r` begins with two characters
that are no breaks of a line, and ends in a brace or where a line ends. -/
structure Covers (c : Char) (r : List Char) (n : Nat) : Prop where
  first : c = '{' ∨ c = '-'
  second : r.head? = some '-'
  long : 0 < n
  last : (r.take n).getLast? = some '}' ∨ (r.drop n).head?.any (· ≠ '\n') = false

/-- A comment is a break, and two blanks at least once it has faded. -/
theorem Covers.opens {w : List Char} (h : Covers c (w ++ s) w.length) :
    ∃ a, Breaks (c :: (w ++ s)) ∧ (c :: w).map blankOut = ' ' :: ' ' :: a := by
  cases w with
  | nil => exact absurd h.long (Nat.lt_irrefl 0)
  | cons d w =>
    obtain rfl : d = '-' := Option.some.inj h.second
    obtain rfl | rfl := h.first
    · exact ⟨_, .brace _, rfl⟩
    · exact ⟨_, .dashes _, rfl⟩

theorem covers_of_line (starts : startsLineComment (c :: r) = true) :
    Covers c r (scanLine on r).2 := by
  have first := dash_of_startsLineComment starts
  subst first
  simp only [startsLineComment, Bool.and_eq_true, decide_eq_true_eq] at starts
  have dashes := starts.1
  cases r with
  | nil => simp [runLength] at dashes
  | cons d r =>
    have second : d = '-' := by
      by_contra other
      simp [runLength, other] at dashes
    subst second
    refine ⟨.inr rfl, rfl, ?_, .inr (drop_scanLine on _)⟩
    have line : 0 < lineLength ('-' :: r) := by simp [lineLength, runLength]
    exact Nat.lt_of_lt_of_le line (lineLength_le_scanLine on _)

theorem covers_of_block {kind : Comment} (dash : r.head? = some '-')
    (h : scanBlock on r = .ok (kind, n)) : Covers '{' r n := by
  simp only [scanBlock] at h
  split at h
  · rename_i m closes
    obtain ⟨-, rfl⟩ := Prod.mk.inj (Except.ok.inj h)
    obtain ⟨t, rfl⟩ := List.head?_eq_some_iff.1 dash
    refine ⟨.inl rfl, rfl, Nat.succ_pos _, .inl ?_⟩
    rw [List.tail_cons] at closes
    rw [List.take_succ_cons, List.getLast?_cons, closeLength?_last closes, Option.getD_some]
  · cases h

theorem covers_of_pragma {kind : Comment} (h : Pragma.scan on s = .ok (.comment kind, n)) :
    Covers '{' ('-' :: '#' :: s) n := by
  have whole {k : Kind} (found : Pragma.scanWhole k s = .ok (.comment kind, n)) :
      Covers '{' ('-' :: '#' :: s) n := by
    unfold Pragma.scanWhole at found
    split at found
    · rename_i m closes
      obtain ⟨-, rfl⟩ := Prod.mk.inj (Except.ok.inj found)
      refine ⟨.inl rfl, rfl, by omega, .inl ?_⟩
      have taken : s.take (m + 3) = s.take m ++ closePragmaMark := take_of_offsetOf? closes
      rw [show 2 + m + 3 = m + 3 + 2 by omega, List.take_succ_cons, List.take_succ_cons, taken,
        ← List.cons_append, ← List.cons_append, List.getLast?_append]
      rfl
    · cases found
  unfold Pragma.scan at h
  split at h
  · exact whole h
  · obtain ⟨opens, -⟩ := Prod.mk.inj (Except.ok.inj h)
    cases opens
  · exact whole h

end Comment

namespace Lexeme

theorem covers_of_scan {kind : Comment} (h : scan site c r = .ok (.comment kind, n)) :
    Comment.Covers c r n := by
  obtain ⟨rfl, dash⟩ | starts := (isBraced_iff (scanned_of_scan h)).1 rfl
  · rw [scan, if_pos (by simpa using dash)] at h
    unfold scanBraceDash at h
    split at h
    · exact Comment.covers_of_pragma h
    · obtain ⟨⟨kind', m⟩, found, same⟩ := ok_of_map h
      obtain ⟨-, rfl⟩ := Prod.mk.inj same
      exact Comment.covers_of_block dash found
  · have found := (scan_of_scanned (.lineComment starts)).symm.trans h
    obtain ⟨-, rfl⟩ := Prod.mk.inj (Except.ok.inj found)
    exact Comment.covers_of_line starts

theorem exists_noSymbol_of_run (reach : runLength isSymbol (w ++ s) ≤ w.length)
    (symbol : s.head?.any isSymbol = true) : ∃ d ∈ w, isSymbol d = false := by
  by_contra all
  have symbols : ∀ d ∈ w, isSymbol d = true := by
    intro d hd
    by_contra other
    exact all ⟨d, hd, by simpa using other⟩
  rw [runLength, List.takeWhile_append_of_pos symbols, List.length_append] at reach
  cases s with
  | nil => cases symbol
  | cons d s =>
    rw [List.takeWhile_cons_of_pos (by simpa using symbol), List.length_cons] at reach
    omega

/-- A lexeme right before a symbol holds something that is no symbol, or the
symbol would belong to it. -/
theorem exists_noSymbol (h : Scanned site c (w ++ s) k w.length) (solid : k.isComment = false)
    (symbol : s.head?.any isSymbol = true) : ∃ d ∈ c :: w, isSymbol d = false := by
  have first (apart : isSymbol c = false) : ∃ d ∈ c :: w, isSymbol d = false :=
    ⟨c, List.mem_cons_self, apart⟩
  generalize size : w.length = n at h
  cases h with
  | braceDash opens ok => exact first (opens.1 ▸ by decide)
  | lineComment starts => cases solid
  | closePragma inside mark =>
    rw [List.isPrefixOf_iff_prefix, ← List.cons_append] at mark
    have whole : closePragmaMark <+: c :: w :=
      List.prefix_of_prefix_length_le mark (List.prefix_append _ _)
        (by rw [List.length_cons, size]; decide)
    exact ⟨'}', whole.subset (by decide), by decide⟩
  | bracket special single ok =>
    apply first
    rw [Bool.eq_false_iff]
    intro isSymbol
    rw [Punctuation.ofChar?_of_isSymbol isSymbol] at special
    cases special
  | string double ok => exact first (double ▸ by decide)
  | quote single ok => exact first (single ▸ by decide)
  | number digit => exact first (isSymbol_of_isDigit digit)
  | name starts =>
    apply first
    rw [Bool.eq_false_iff]
    intro isSymbol
    rw [startsName_of_isSymbol isSymbol] at starts
    cases starts
  | negative sign =>
    simp only [isNegative, Bool.and_eq_true] at sign
    have digit := sign.1.1.2
    cases w with
    | nil =>
      cases s with
      | nil => cases symbol
      | cons d s => cases size
    | cons d w =>
      exact ⟨d, List.mem_cons_of_mem c List.mem_cons_self, isSymbol_of_isDigit digit⟩
  | operator _ noComment noClose noSign =>
    have reach := Operator.run_le_scan site c (w ++ s)
    rw [← size] at reach
    obtain ⟨d, inside, apart⟩ := exists_noSymbol_of_run reach symbol
    exact ⟨d, List.mem_cons_of_mem c inside, apart⟩
  | unknown _ noSymbol => exact first noSymbol

end Lexeme

/-! ## The new text -/

/-- The text of a tile, blank where it is a comment. -/
def Tile.faded (t : Tile) : List Char :=
  t.gap ++ if t.lexeme.kind.isComment then t.lexeme.text.map blankOut else t.lexeme.text

namespace Tile

variable {t : Tile}

theorem Fits.last {p : Position} (h : t.Fits p) : ∃ d, t.lexeme.text.getLast? = some d := by
  obtain ⟨c, w, text, -⟩ := h.solid
  exact ⟨_, text ▸ List.getLast?_cons⟩

theorem faded_of_comment (h : t.lexeme.kind.isComment = true) :
    t.faded = t.gap ++ t.lexeme.text.map blankOut := by
  rw [faded, if_pos h]

theorem faded_of_solid (h : t.lexeme.kind.isComment = false) : t.faded = t.text := by
  rw [faded, if_neg (by simp [h])]
  rfl

theorem blank_faded {p : Position} (h : t.Fits p) (comment : t.lexeme.kind.isComment = true) :
    ∀ c ∈ t.faded, isBlank c = true := by
  intro c hc
  rw [faded_of_comment comment] at hc
  obtain inGap | inText := List.mem_append.1 hc
  · exact h.blank c inGap
  · obtain ⟨d, -, rfl⟩ := List.mem_map.1 inText
    exact isBlank_blankOut d

theorem after_faded (t : Tile) (p : Position) : p.after t.faded = p.after t.text := by
  cases comment : t.lexeme.kind.isComment with
  | true =>
    rw [faded_of_comment comment, text, Position.after_append, Position.after_append,
      Position.after_blankOut]
  | false => rw [faded_of_solid comment]

end Tile

/-- No lexeme shows that the comments have faded. `beside` says whether one
ended right before the tiles. -/
def Unnoticed (on : Extensions) (tail : List Char) : Bool → List Tile → Prop
  | _, [] => True
  | beside, t :: ts =>
    ¬Shows on (beside && t.gap.isEmpty) t.lexeme.kind t.lexeme.text
        (ts.flatMap Tile.faded ++ tail) ∧
      Unnoticed on tail t.lexeme.kind.isComment ts

namespace Lexer

variable {x x' y y' z : Lexer} {l : Lexeme} {ls : List Lexeme} {out out' : List (Token × Lexer)}
  {t : Tile} {tiles : List Tile} {beside : Bool} {gap tail : List Char}

/-- The lexer before a tile stands before its lexeme once the blanks are taken. -/
theorem skipBlanks_of_fits {p : Position} (fits : t.Fits p) (rest : x.rest = t.text ++ s) :
    x.skipBlanks = x.consume t.gap.length ∧ x.skipBlanks.rest = t.lexeme.text ++ s ∧
      x.skipBlanks.here = x.here.after t.gap := by
  obtain ⟨c, w, text, solid⟩ := fits.solid
  rw [Tile.text, List.append_assoc] at rest
  have blanks : x.rest.takeWhile isBlank = t.gap := by
    have stops : (t.lexeme.text ++ s).head?.any isBlank = false := by
      rw [text]
      exact solid
    rw [rest, takeWhile_append_of_stops stops, List.takeWhile_eq_self_iff]
    exact fits.blank
  refine ⟨?_, ?_, ?_⟩
  · rw [skipBlanks, runLength, blanks]
  · rw [rest_skipBlanks, ← drop_runLength, runLength, blanks, rest, List.drop_left]
  · rw [here_skipBlanks, blanks]

/-- The lexer takes the lexeme of a tile it stands before if the scanner finds
it there. -/
theorem step_iff (fits : t.Fits x.here) (text : t.lexeme.text = c :: w)
    (rest : x.rest = t.text ++ s) :
    (∃ out y, Step x t.lexeme out y) ↔
      Lexeme.scan x.skipBlanks.site c (w ++ s) = .ok (t.lexeme.kind, w.length) := by
  obtain ⟨-, front, here⟩ := skipBlanks_of_fits fits rest
  rw [text, List.cons_append] at front
  constructor
  · rintro ⟨out, y, front', scanned, cut⟩
    rename_i d r k n y
    rw [front] at front'
    obtain ⟨rfl, rfl⟩ := List.cons.inj front'
    have lexeme := congrArg Prod.fst cut
    have kind : k = t.lexeme.kind := congrArg Lexeme.kind lexeme
    have taken : x.skipBlanks.rest.take (n + 1) = t.lexeme.text := congrArg Lexeme.text lexeme
    rw [front, text, List.take_succ_cons] at taken
    have size := congrArg List.length (List.cons.inj taken).2
    rw [List.length_take, Nat.min_eq_left (Lexeme.scan_le scanned)] at size
    rw [← size, ← kind]
    exact scanned
  · intro scanned
    have lexeme : (x.skipBlanks.cut t.lexeme.kind (w.length + 1)).1 = t.lexeme := by
      have taken : x.skipBlanks.rest.take (w.length + 1) = t.lexeme.text := by
        rw [front, text, List.take_succ_cons, List.take_left]
      have stop : (x.skipBlanks.consume (w.length + 1)).here = x.here.after t.text := by
        rw [Tile.text, Position.after_append, ← here, ← taken]
        rfl
      change Lexeme.mk t.lexeme.kind ⟨x.skipBlanks.here, _⟩ _ = t.lexeme
      rw [taken, stop, here, ← fits.located]
    exact ⟨_, _, .take front scanned (Prod.ext lexeme rfl)⟩

theorem Takes.scanned (h : Takes x t out y) (text : t.lexeme.text = c :: w) :
    Lexeme.scan x.skipBlanks.site c (w ++ y.rest) = .ok (t.lexeme.kind, w.length) :=
  (step_iff h.fits text h.rest).1 ⟨out, y, h.step⟩

/-- The text of a lexeme tells how far the step leads. -/
theorem step_eq (h : Step x l out y) :
    out = ((x.skipBlanks.cut l.kind l.text.length).2.emit l).1 ∧
      y = ((x.skipBlanks.cut l.kind l.text.length).2.emit l).2 := by
  obtain ⟨front, scanned, cut⟩ := h
  rename_i c r k n y
  have lexeme := congrArg Prod.fst cut
  have kind : k = l.kind := congrArg Lexeme.kind lexeme
  have size : l.text.length = n + 1 := by
    have inside := Lexeme.scan_le scanned
    rw [← congrArg Lexeme.text lexeme, show (x.skipBlanks.cut k (n + 1)).1.text =
      x.skipBlanks.rest.take (n + 1) from rfl, front, List.length_take, List.length_cons]
    omega
  rw [size, ← kind, cut]
  exact ⟨rfl, rfl⟩

theorem emit_congr (pragma : y.pragma = x.pragma) (layout : y.layout = x.layout) (l : Lexeme) :
    (y.emit l).1.map Prod.fst = (x.emit l).1.map Prod.fst ∧
      (y.emit l).2.layout = (x.emit l).2.layout := by
  have sees : y.seesLayout l.kind = x.seesLayout l.kind := by rw [seesLayout, seesLayout, pragma]
  unfold emit
  rw [sees, layout]
  split
  · constructor
    · simp only [List.map_append, map_braceItems]
      rfl
    · rfl
  · exact ⟨rfl, layout⟩

/-- The second lexer stands in the new text where the first one does. `beside`
says that a comment ended there: with a brace, or at the end of a line. -/
structure Pale (beside : Bool) (x x' : Lexer) : Prop where
  config : x'.config = x.config
  here : x'.here = x.here
  pragma : x'.pragma = x.pragma
  layout : x'.layout = x.layout
  loose : x'.site.isLoose = (beside || x.site.isLoose)
  attached : beside = true → x.site.isLoose = false ∨ x.rest.head?.any (!isBlank ·) = false

theorem before_consume {d : Char} (last : (x.rest.take n).getLast? = some d) :
    (x.consume n).before = some d := by
  simp only [consume, last]
  rfl

/-- Blanks leave nothing attached to a lexeme. -/
theorem isLoose_gap (blank : ∀ c ∈ gap, isBlank c = true) (rest : x.rest = gap ++ s) :
    (x.consume gap.length).site.isLoose = (!gap.isEmpty || x.site.isLoose) := by
  cases last : gap.getLast? with
  | none =>
    rw [List.getLast?_eq_none_iff.1 last, List.length_nil, consume_zero]
    rfl
  | some d =>
    have before : (x.consume gap.length).before = some d :=
      before_consume (by rw [rest, List.take_left, last])
    have some : gap ≠ [] := by
      rintro rfl
      cases last
    rw [isLoose_of_blank before (blank d (List.mem_of_getLast? last))]
    simp [some]

theorem Pale.loosens (h : Pale beside x x') (fits : t.Fits x.here)
    (rest : x.rest = t.text ++ s) (rest' : x'.rest = t.text ++ s') :
    x.skipBlanks.site.Loosens (beside && t.gap.isEmpty) x'.skipBlanks.site := by
  obtain ⟨skip, -, -⟩ := skipBlanks_of_fits fits rest
  obtain ⟨skip', -, -⟩ := skipBlanks_of_fits fits rest'
  obtain ⟨c, w, text, solid⟩ := fits.solid
  have loose := isLoose_gap fits.blank (rest.trans (List.append_assoc ..))
  have loose' := isLoose_gap fits.blank (rest'.trans (List.append_assoc ..))
  refine ⟨⟨?_, ?_⟩, ?_, ?_⟩
  · exact congrArg Config.enabled h.config
  · exact congrArg Option.isSome h.pragma
  · rw [skip, skip', loose, loose', h.loose]
    cases t.gap.isEmpty <;> cases beside <;> simp
  · intro touched
    obtain ⟨ended, empty⟩ := Bool.and_eq_true_iff.1 touched
    rw [skip, loose, empty]
    apply (h.attached ended).resolve_right
    rw [rest, Tile.text, List.isEmpty_iff.1 empty, text]
    simp [solid]

/-- A lexeme that notices nothing is taken in the new text as well. -/
theorem Pale.exists_step_iff (h : Pale beside x x') (taken : Takes x t out y)
    (rest' : x'.rest = t.text ++ s') (fades : Fades y.rest s')
    (solid : t.lexeme.kind.isComment = false) :
    (∃ out' y', Step x' t.lexeme out' y') ↔
      ¬Shows x.config.enabled (beside && t.gap.isEmpty) t.lexeme.kind t.lexeme.text s' := by
  obtain ⟨c, w, text, -⟩ := taken.fits.solid
  have loosens := h.loosens taken.fits taken.rest rest'
  have scanned := taken.scanned text
  have fits' : t.Fits x'.here := h.here ▸ taken.fits
  rw [step_iff fits' text rest', Lexeme.scan_fades fades loosens solid scanned, text]
  rfl

/-- Where both lexers take a lexeme they deliver the same, and both stand behind
it. -/
theorem Pale.step (h : Pale beside x x') (taken : Takes x t out y)
    (step' : Step x' t.lexeme out' y') (rest' : x'.rest = t.text ++ s') :
    out'.map Prod.fst = out.map Prod.fst ∧ y'.rest = s' ∧ Pale false y y' := by
  obtain ⟨step, fits, rest, -⟩ := taken
  obtain ⟨-, front, here⟩ := skipBlanks_of_fits fits rest
  obtain ⟨-, front', here'⟩ := skipBlanks_of_fits fits rest'
  have config := config_of_step step
  have config' := config_of_step step'
  obtain ⟨rfl, rfl⟩ := step_eq step
  obtain ⟨rfl, rfl⟩ := step_eq step'
  have taken : x.skipBlanks.rest.take t.lexeme.text.length = t.lexeme.text := by
    rw [front, List.take_left]
  have taken' : x'.skipBlanks.rest.take t.lexeme.text.length = t.lexeme.text := by
    rw [front', List.take_left]
  have pragma : x'.skipBlanks.pragmaAfter t.lexeme.kind =
      x.skipBlanks.pragmaAfter t.lexeme.kind := by
    have open' : x'.skipBlanks.pragma = x.skipBlanks.pragma := h.pragma
    unfold pragmaAfter
    rw [here, here', h.here, open']
  obtain ⟨delivered, layout⟩ := emit_congr
    (x := (x.skipBlanks.cut t.lexeme.kind t.lexeme.text.length).2)
    (y := (x'.skipBlanks.cut t.lexeme.kind t.lexeme.text.length).2) pragma h.layout t.lexeme
  refine ⟨delivered, ?_, ⟨?_, ?_, ?_, layout, ?_, nofun⟩⟩
  · rw [rest_emit, rest_cut, front', List.drop_left]
  · rw [config, config', h.config]
  · rw [here_emit, here_emit]
    change x'.skipBlanks.here.after _ = x.skipBlanks.here.after _
    rw [taken, taken', here, here', h.here]
  · rw [pragma_emit, pragma_emit]
    exact pragma
  · obtain ⟨d, last⟩ := fits.last
    rw [site_emit, site_emit, Bool.false_or]
    apply isLoose_congr
    have before' := before_consume ((congrArg List.getLast? taken').trans last)
    have before := before_consume ((congrArg List.getLast? taken).trans last)
    exact before'.trans before.symm

theorem step_of_isComment (h : Step x l out y) (comment : l.kind.isComment = true) :
    out.map Prod.fst = [.lexeme l] ∧ y = x.skipBlanks.consume l.text.length := by
  obtain ⟨rfl, rfl⟩ := step_eq h
  obtain ⟨k, kind⟩ := Kind.exists_of_isComment comment
  have same : (x.skipBlanks.cut l.kind l.text.length).2 = x.skipBlanks.consume l.text.length := by
    rw [kind]
    rfl
  have hidden : ¬(x.skipBlanks.consume l.text.length).seesLayout l.kind = true := by
    simp [seesLayout, kind, Kind.isTransparent]
  rw [same]
  unfold emit
  rw [if_neg hidden]
  exact ⟨rfl, rfl⟩

theorem Takes.covers (h : Takes x t out y) (text : t.lexeme.text = c :: w)
    (comment : t.lexeme.kind.isComment = true) : Comment.Covers c (w ++ y.rest) w.length := by
  have scanned := h.scanned text
  obtain ⟨k, kind⟩ := Kind.exists_of_isComment comment
  rw [kind] at scanned
  exact Lexeme.covers_of_scan scanned

/-- A comment is longer than a sign, and has no other way to notice anything. -/
theorem Takes.not_shows (h : Takes x t out y) (comment : t.lexeme.kind.isComment = true)
    {touched : Bool} {behind : List Char} :
    ¬Shows on touched t.lexeme.kind t.lexeme.text behind := by
  obtain ⟨c, w, text, -⟩ := h.fits.solid
  rintro (⟨-, -, minus, -⟩ | ⟨-, -, atSign, -⟩ | ⟨applied, -⟩ | ⟨opens, -⟩)
  · obtain ⟨-, rfl⟩ := List.cons.inj (text.symm.trans minus)
    exact Nat.lt_irrefl 0 (h.covers text comment).long
  · rw [atSign] at comment
    cases comment
  · rw [applied] at comment
    cases comment
  · rw [opens] at comment
    cases comment

/-- Behind a comment, and behind the blanks in its place. -/
theorem Pale.comment (h : Pale beside x x') (taken : Takes x t out y)
    (rest' : x'.rest = t.faded ++ s') (comment : t.lexeme.kind.isComment = true) :
    Pale true y (x'.consume t.faded.length) := by
  obtain ⟨c, w, text, -⟩ := taken.fits.solid
  have covers := taken.covers text comment
  obtain ⟨step, fits, rest, here⟩ := taken
  obtain ⟨-, front, -⟩ := skipBlanks_of_fits fits rest
  have config := config_of_step step
  obtain ⟨-, same⟩ := step_of_isComment step comment
  have taken : x'.rest.take t.faded.length = t.faded := by rw [rest', List.take_left]
  refine ⟨?_, ?_, ?_, ?_, ?_, fun _ => ?_⟩
  · rw [config]
    exact h.config
  · rw [here, ← t.after_faded, ← h.here, ← taken]
    simp only [consume, taken]
  · rw [same]
    exact h.pragma
  · rw [same]
    exact h.layout
  · rw [Bool.true_or]
    obtain ⟨d, last⟩ := fits.last
    have last' : (x'.rest.take t.faded.length).getLast? = some (blankOut d) := by
      rw [taken, Tile.faded_of_comment comment, List.getLast?_append, List.getLast?_map, last]
      rfl
    exact isLoose_of_blank (before_consume last') (isBlank_blankOut d)
  · obtain closed | line := covers.last
    · left
      rw [List.take_left] at closed
      have before : y.before = some '}' := by
        rw [same]
        apply before_consume
        rw [front, List.take_left, text, List.getLast?_cons, closed, Option.getD_some]
      simp only [site, Site.isLoose, before]
      rfl
    · right
      rw [List.drop_left] at line
      cases behind : y.rest with
      | nil => rfl
      | cons d r =>
        rw [behind] at line
        obtain rfl : d = '\n' := by simpa using line
        rfl

/-- The new text, as whoever stands before it sees it. -/
theorem fades_of_row (row : Row x tiles z) :
    Fades x.rest (tiles.flatMap Tile.faded ++ z.rest) := by
  induction row with
  | stay x => exact .same _
  | step taken row ih =>
    rename_i x y z t ts out
    obtain ⟨c, w, text, -⟩ := taken.fits.solid
    have scanned := taken.scanned text
    rw [taken.rest, List.flatMap_cons, List.append_assoc]
    cases comment : t.lexeme.kind.isComment with
    | true =>
      obtain ⟨a, opens, faded⟩ := (taken.covers text comment).opens
      rw [Tile.faded_of_comment comment, Tile.text, List.append_assoc, List.append_assoc, text,
        List.cons_append, faded]
      refine .comment _ opens fun _ => ?_
      cases gap : t.gap with
      | nil => exact .inl rfl
      | cons d gap =>
        have blank := taken.fits.blank d (gap ▸ List.mem_cons_self)
        exact .inr ⟨d, List.mem_cons_self, isSymbol_of_isBlank blank⟩
    | false =>
      rw [Tile.faded_of_solid comment]
      generalize y.rest = s, ts.flatMap Tile.faded ++ z.rest = s' at *
      cases ih with
      | same => exact .same _
      | @comment u v a opens settled =>
        rw [← List.append_assoc, ← List.append_assoc]
        refine .comment a opens fun symbol => .inr ?_
        obtain rfl | ⟨d, inside, apart⟩ := settled symbol
        · obtain ⟨d, inside, apart⟩ :=
            Lexeme.exists_noSymbol (Lexeme.scanned_of_scan scanned) comment symbol
          refine ⟨d, ?_, apart⟩
          rw [List.append_nil, Tile.text, text]
          exact List.mem_append_right _ inside
        · exact ⟨d, List.mem_append_right _ inside, apart⟩

/-- A text that goes on with the lexeme `l` has it in front. -/
theorem exists_step_of_trace (ok : x.trace.error? = none) (inner : l.kind ≠ .endOfText)
    (h : (x.trace.items.filterMap Token.lexeme?).head? = some l) : ∃ out y, Step x l out y := by
  obtain ⟨l', out, y, step⟩ | halts := x.step_or_halts
  · rw [(trace_of_step step).1, List.filterMap_append, step_lexemes step] at h
    cases h
    exact ⟨out, y, step⟩
  · obtain ⟨-, -, items⟩ := trace_of_halts halts ok
    rw [items, List.filterMap_append, lexemes_braces] at h
    cases h
    exact absurd rfl inner

/-- Braces are no comments. -/
theorem solid_of_step (h : Step x l out y) (solid : l.kind.isComment = false) :
    (out.map Prod.fst).filter (!·.kind.isComment) = out.map Prod.fst := by
  rw [List.filter_eq_self]
  intro token mem
  cases token with
  | virtual b => cases b <;> rfl
  | lexeme l' =>
    have found : l' ∈ (out.map Prod.fst).filterMap Token.lexeme? :=
      List.mem_filterMap.2 ⟨_, mem, rfl⟩
    rw [step_lexemes h, List.mem_singleton] at found
    rw [found]
    exact congrArg not solid

/-- At the end both lexers deliver the same. -/
theorem Pale.ends (h : Pale beside z x') (rest : x'.rest = z.rest) (used : z.skipBlanks.rest = [])
    (ok : z.trace.error? = none) :
    x'.trace.error? = none ∧ x'.trace.items = z.trace.items ∧
      z.trace.items.filter (!·.kind.isComment) = z.trace.items := by
  have used' : x'.skipBlanks.rest = [] := by
    rw [rest_skipBlanks] at used ⊢
    rw [rest, used]
  obtain ⟨-, closed, items⟩ := trace_of_halts (.inl used) ok
  have closed' : x'.skipBlanks.pragma = none := h.pragma.trans closed
  have ok' : x'.trace.error? = none := by
    rw [trace_of_nil used']
    exact (atEnd_of_none closed').2
  obtain ⟨-, -, items'⟩ := trace_of_halts (.inl used') ok'
  have here : x'.skipBlanks.here = z.skipBlanks.here := by
    rw [here_skipBlanks, here_skipBlanks, rest, h.here]
  refine ⟨ok', ?_, ?_⟩
  · rw [items, items', h.layout, here]
  · rw [items, List.filter_append]
    congr 1
    rw [List.filter_eq_self]
    intro token mem
    obtain ⟨⟨b, -⟩, -, rfl⟩ := List.mem_map.1 mem
    cases b <;> rfl

/-- **The trace of the new text.** It is the old one without comments unless
some lexeme notices that they have faded. -/
theorem trace_fades (row : Row x tiles z) (used : z.skipBlanks.rest = [])
    (ok : z.trace.error? = none) (pale : Pale beside x x')
    (rest' : x'.rest = tiles.flatMap Tile.faded ++ z.rest) :
    x'.trace.error? = none ∧ x'.trace.items = x.trace.items.filter (!·.kind.isComment) ↔
      Unnoticed x.config.enabled z.rest beside tiles := by
  induction row generalizing x' beside with
  | stay z =>
    obtain ⟨ok', items, solid⟩ := pale.ends rest' used ok
    rw [items, solid]
    exact iff_of_true ⟨ok', rfl⟩ trivial
  | step taken row ih =>
    rename_i x y z t ts out
    rw [List.flatMap_cons, List.append_assoc] at rest'
    have config := config_of_step taken.step
    obtain ⟨items, -⟩ := trace_of_step taken.step
    rw [items, List.filter_append, Unnoticed]
    cases comment : t.lexeme.kind.isComment with
    | true =>
      -- The blanks in the place of a comment are taken without a step.
      obtain ⟨delivered, -⟩ := step_of_isComment taken.step comment
      have behind := trace_consume_blanks (Tile.blank_faded taken.fits comment) rest'
      rw [delivered, List.filter_cons_of_neg (by simpa [Token.kind] using comment), List.filter_nil,
        List.nil_append, ← behind, and_iff_right (taken.not_shows comment), ← config]
      apply ih used ok (pale.comment taken rest' comment)
      rw [rest_consume, rest', List.drop_left]
    | false =>
      rw [Tile.faded_of_solid comment] at rest'
      have noticed := pale.exists_step_iff taken rest' (fades_of_row row) comment
      by_cases shows : Shows x.config.enabled (beside && t.gap.isEmpty) t.lexeme.kind t.lexeme.text
          (ts.flatMap Tile.faded ++ z.rest)
      · apply iff_of_false
        · rintro ⟨ok', items'⟩
          refine noticed.1 (exists_step_of_trace ok' taken.fits.inner ?_) shows
          rw [items', solid_of_step taken.step comment, List.filterMap_append,
            step_lexemes taken.step]
          rfl
        · exact fun unnoticed => unnoticed.1 shows
      · obtain ⟨out', y', step'⟩ := noticed.2 shows
        obtain ⟨delivered, rest'', pale'⟩ := pale.step taken step' rest'
        obtain ⟨items', error'⟩ := trace_of_step step'
        rw [items', error', delivered, solid_of_step taken.step comment, List.append_cancel_left_eq,
          and_iff_right shows, ← config]
        exact ih used ok pale' rest''

end Lexer

open Lexer in
/-- **Comments are blanks, but for what shows.** Blanks written over all comments
of a text that lexes leave its tokens as they are, only without the comments, if
and only if no lexeme notices. One can do so in four ways: a dash right behind a
comment becomes a sign, an at sign there a type application, an at sign right
before a comment is none any longer, and a pragma finds its second word. -/
theorem comments_fade {config : Config} {text : List Char} {tokens : List Token}
    (h : lex config text = .ok tokens) :
    ∃ tiles tail, located tokens = tiles.map Tile.lexeme ∧ Tiling text tiles tail ∧
      (lex config (tiles.flatMap Tile.faded ++ tail) = .ok (tokens.filter (!·.kind.isComment)) ↔
        Unnoticed config.enabled tail false tiles) := by
  obtain ⟨items, -⟩ := lex_iff.1 h
  obtain ⟨ls, out, z, run, used, closed, rfl⟩ := run_of_lex h
  obtain ⟨tiles, rfl, row⟩ := row_of_run run
  obtain ⟨tiled, covers, -⟩ := tiled_of_row row
  have blank : ∀ c ∈ z.rest, isBlank c = true := by
    rw [rest_skipBlanks, List.dropWhile_eq_nil_iff] at used
    exact used
  have ok : z.trace.error? = none := by
    rw [trace_of_nil used]
    exact (atEnd_of_none closed).2
  have pale : Pale false (start config text)
      (start config (tiles.flatMap Tile.faded ++ z.rest)) := ⟨rfl, rfl, rfl, rfl, rfl, nofun⟩
  have faded := trace_fades row used ok pale rfl
  rw [items] at faded
  refine ⟨tiles, z.rest, located_of_run run _, tiling_of_tiled covers tiled blank, ?_⟩
  rw [lex_iff, and_comm]
  exact faded

/-- A comment between names, and one at the end of a line. -/
theorem comments_fade_lines :
    let text := ['f', '{', '-', '-', '}', 'x', ' ', '-', '-', '\n', '-', '1']
    let lexeme (k : Kind) (line start stop : Int) (text : List Char) : Token :=
      .lexeme ⟨k, ⟨⟨line, start⟩, ⟨line, stop⟩⟩, text⟩
    let tokens := [lexeme (.name .varid) 1 1 2 ['f'],
      lexeme (.comment .block) 1 2 6 ['{', '-', '-', '}'], lexeme (.name .varid) 1 6 7 ['x'],
      lexeme (.comment .line) 1 8 10 ['-', '-'], lexeme (.literal .integer) 2 1 3 ['-', '1'],
      lexeme .endOfText 2 3 3 []]
    lex .permissive text = .ok tokens ∧
      ∃ tiles tail, located tokens = tiles.map Tile.lexeme ∧ Tiling text tiles tail ∧
        (lex .permissive (tiles.flatMap Tile.faded ++ tail) =
            .ok (tokens.filter (!·.kind.isComment)) ↔
          Unnoticed Config.permissive.enabled tail false tiles) := by
  intro text lexeme tokens
  have h : lex .permissive text = .ok tokens := by decide +kernel
  exact ⟨h, comments_fade h⟩

/-- A dash right behind a comment is the sign of a number once the comment has
faded. -/
theorem comments_fade_sign :
    let text := ['{', '-', '-', '}', '-', '1']
    let lexeme (k : Kind) (start stop : Int) (text : List Char) : Lexeme :=
      ⟨k, ⟨⟨1, start⟩, ⟨1, stop⟩⟩, text⟩
    let lexemes := [lexeme (.comment .block) 1 5 ['{', '-', '-', '}'],
      lexeme (.operator .minus) 5 6 ['-'], lexeme (.literal .integer) 6 7 ['1']]
    let tokens := lexemes.map Token.lexeme ++ [.lexeme (Lexeme.atEnd text)]
    let tiles := lexemes.map (Tile.mk [])
    lex .permissive text = .ok tokens ∧ located tokens = tiles.map Tile.lexeme ∧
      Tiling text tiles [] ∧
      tiles.flatMap Tile.faded ++ [] = [' ', ' ', ' ', ' ', '-', '1'] ∧
      lex .permissive (tiles.flatMap Tile.faded ++ []) =
        .ok [.lexeme (lexeme (.literal .integer) 5 7 ['-', '1']), .lexeme (Lexeme.atEnd text)] ∧
      lex .permissive (tiles.flatMap Tile.faded ++ []) ≠
        .ok (tokens.filter (!·.kind.isComment)) := by
  intro text lexeme lexemes tokens tiles
  have faded : lex .permissive (tiles.flatMap Tile.faded ++ []) =
      .ok [.lexeme (lexeme (.literal .integer) 5 7 ['-', '1']),
        .lexeme (Lexeme.atEnd text)] := by
    decide +kernel
  refine ⟨by decide +kernel, by decide, ⟨rfl, ?_, nofun, ?_, ?_⟩, by decide, faded, ?_⟩
  · intro t ht c hc
    obtain ⟨l, -, rfl⟩ := List.mem_map.1 ht
    cases hc
  · decide
  · decide
  · rw [faded]
    decide

/-- The other ways: an at sign right behind a comment, one right before a comment,
and a pragma with a comment between its words. -/
example :
    let kinds (text : List Char) := (lex .permissive text).toOption.map (List.map Token.kind)
    kinds ['{', '-', '-', '}', '@', 'x'] =
        some [.comment .block, .operator .atSign, .name .varid, .endOfText] ∧
      kinds [' ', ' ', ' ', ' ', '@', 'x'] = some [.typeApplication, .name .varid, .endOfText] ∧
      kinds ['@', '{', '-', '-', '}', 'x'] =
        some [.typeApplication, .comment .block, .name .varid, .endOfText] ∧
      kinds ['@', ' ', ' ', ' ', ' ', 'x'] =
        some [.operator .atSign, .name .varid, .endOfText] ∧
      kinds ['{', '-', '#', 'S', 'P', 'E', 'C', 'I', 'A', 'L', 'I', 'S', 'E', '{', '-', '-', '}',
          'I', 'N', 'L', 'I', 'N', 'E', '#', '-', '}'] =
        some [.openPragma .specialise, .comment .block, .name .conid, .closePragma, .endOfText] ∧
      kinds ['{', '-', '#', 'S', 'P', 'E', 'C', 'I', 'A', 'L', 'I', 'S', 'E', ' ', ' ', ' ', ' ',
          'I', 'N', 'L', 'I', 'N', 'E', '#', '-', '}'] =
        some [.openPragma .specialiseInline, .closePragma, .endOfText] := by
  decide +kernel

end HaskellLexis
