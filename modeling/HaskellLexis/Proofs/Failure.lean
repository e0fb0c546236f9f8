import Mathlib.Data.List.Induction
import Mathlib.Data.List.TakeWhile
import HaskellLexis.Proofs.Tiling

/-!
# Failures are located

A text that does not lex has still been cut into tiles up to where it fails,
and the report says exactly where that is.

* `message_ofCause`: how a report is worded;
* `pragma_of_run`: a lexer inside a pragma knows where the last opening lexeme
  of a pragma stands;
* `StopsAt`, `LeavesPragma`: the two ways to fail, before a character that
  begins no lexeme, or behind all lexemes with a pragma open;
* `lex_error_located`: there are no others.
-/

namespace HaskellLexis

open Position (upTo)

namespace LexError

/-- A number ends in a digit, never in a colon. -/
theorem toString_ends (n : Int) : ∃ ds d, (toString n).toList = ds ++ [d] ∧ d ≠ ':' := by
  have digits (n : Nat) : ∃ ds d, n.repr.toList = ds ++ [d] ∧ d ≠ ':' := by
    rw [Nat.toList_repr]
    refine ⟨_, _, (List.dropLast_concat_getLast Nat.toDigits_ne_nil).symm, ?_⟩
    have digit := Nat.isDigit_of_mem_toDigits (b := 10) (n := n) (by decide) (by decide)
      (List.getLast_mem Nat.toDigits_ne_nil)
    intro colon
    rw [colon] at digit
    cases digit
  rw [Int.toString_eq_repr]
  cases n with
  | ofNat n => exact digits n
  | negSucc n =>
    obtain ⟨ds, d, shown, noColon⟩ := digits n.succ
    refine ⟨'-' :: ds, d, ?_, noColon⟩
    change ("-" ++ n.succ.repr).toList = _
    rw [String.toList_append, shown]
    rfl

/-- Of a location only the last colon gives way to a space. -/
theorem message_of_location {e : LexError} {place : String} {ds : List Char} {d : Char}
    (h : e.location = place ++ ":") (ends : place.toList = ds ++ [d]) (noColon : d ≠ ':') :
    e.message = place ++ " " ++ e.text := by
  have shown : e.location.toList = ds ++ [d, ':'] := by
    rw [h, String.toList_append, ends, List.append_assoc]
    rfl
  have cut : (e.location.toList.reverse.dropWhile (· = ':')).reverse = place.toList := by
    rw [shown, ends]
    simp [noColon]
  simp only [message]
  rw [if_neg (by simp [shown]), cut, String.ofList_toList]

/-- The name of the source in front of a place, if it has one. -/
def sourceMark (config : Config) : String :=
  if config.sourceName = "" then "" else config.sourceName ++ ":"

theorem message_ofCause (config : Config) (cause : LexCause) (p : Position) :
    (ofCause config cause p).message = sourceMark config ++ p.text ++ " " ++ cause.text := by
  obtain ⟨ds, d, shown, noColon⟩ := toString_ends p.col
  have location : (ofCause config cause p).location = sourceMark config ++ p.text ++ ":" := by
    unfold sourceMark ofCause
    by_cases unnamed : config.sourceName = ""
    · simp only [location, Config.source?, unnamed, if_true, Position.text, String.append_assoc]
    · simp only [location, Config.source?, unnamed, if_false, Position.text, String.append_assoc]
  have ends : (sourceMark config ++ p.text).toList =
      (sourceMark config ++ toString p.line ++ ":").toList ++ ds ++ [d] := by
    simp only [Position.text, String.toList_append, shown, List.append_assoc]
  exact message_of_location location ends noColon

end LexError

/-- All errors of the text are reported as they stand. -/
theorem LexFailure.eq_of_report {config : Config} {f : LexFailure} {e : LexError}
    (h : f.report config = .lexical e) : e = .ofCause config f.cause f.position := by
  unfold report LexStop.ofCause at h
  split at h
  · cases h
  · exact (LexStop.lexical.inj h).symm

/-! ## The open pragma -/

/-- Kinds at which a pragma begins or ends. -/
def Kind.boundsPragma : Kind → Bool
  | openPragma _ | closePragma => true
  | _ => false

/-- Where the open pragma starts after a lexeme, by what the lexeme is. -/
def Lexeme.pragmaAfter (opened : Option Position) (l : Lexeme) : Option Position :=
  match l.kind with
  | .openPragma _ => some l.span.start
  | .closePragma => none
  | _ => opened

theorem Lexeme.pragmaAfter_inner {l : Lexeme} (h : l.kind.boundsPragma = false)
    (opened : Option Position) : l.pragmaAfter opened = opened := by
  unfold pragmaAfter
  split
  · rename_i k opens
    rw [opens] at h
    cases h
  · rename_i closes
    rw [closes] at h
    cases h
  · rfl

/-- A pragma that is open behind some lexemes was opened by the last of them
that bounds one. -/
theorem opener_of_pragmaAfter {ls : List Lexeme} {p : Position}
    (h : ls.foldl Lexeme.pragmaAfter none = some p) :
    ∃ before l after k, ls = before ++ l :: after ∧ l.kind = .openPragma k ∧
      p = l.span.start ∧ ∀ m ∈ after, m.kind.boundsPragma = false := by
  induction ls using List.reverseRecOn with
  | nil => cases h
  | append_singleton ls l ih =>
    rw [List.foldl_append, List.foldl_cons, List.foldl_nil] at h
    cases bounds : l.kind.boundsPragma with
    | false =>
      rw [Lexeme.pragmaAfter_inner bounds] at h
      obtain ⟨before, m, after, k, rfl, opens, start, inside⟩ := ih h
      refine ⟨before, m, after ++ [l], k, by simp, opens, start, ?_⟩
      intro n hn
      obtain old | new := List.mem_append.1 hn
      · exact inside n old
      · rwa [List.mem_singleton.1 new]
    | true =>
      unfold Kind.boundsPragma at bounds
      split at bounds
      · rename_i k opens
        simp only [Lexeme.pragmaAfter, opens] at h
        cases h
        refine ⟨ls, l, [], k, rfl, opens, rfl, ?_⟩
        intro n hn
        cases hn
      · rename_i closes
        simp only [Lexeme.pragmaAfter, closes] at h
        cases h
      · cases bounds

namespace Lexer

variable {x y : Lexer} {l : Lexeme} {ls : List Lexeme} {out : List (Token × Lexer)}

theorem pragma_of_step (h : Step x l out y) : y.pragma = l.pragmaAfter x.pragma := by
  obtain ⟨front, scanned, cut⟩ := h
  obtain ⟨rfl, rfl⟩ := Prod.mk.inj cut
  rw [pragma_emit]
  rfl

theorem pragma_of_run (h : Run x ls out y) : y.pragma = ls.foldl Lexeme.pragmaAfter x.pragma := by
  induction h with
  | stay => rfl
  | step s _ ih => rw [ih, pragma_of_step s, List.foldl_cons]

/-- A lexer that halts with an error delivers nothing more. -/
theorem failure_of_halts (halts : x.Halts) {f : LexFailure} (failed : x.trace.error? = some f) :
    x.trace.items = [] ∧
      ((∃ c r, x.skipBlanks.rest = c :: r ∧
          Lexeme.scan x.skipBlanks.site c r = .error f.cause ∧ f.position = x.skipBlanks.here) ∨
        x.skipBlanks.rest = [] ∧ x.pragma = some f.position ∧ f.cause = .openPragma) := by
  obtain front | ⟨c, r, cause, front, scanned⟩ := halts
  · rw [trace_of_nil front] at failed ⊢
    cases opened : x.pragma with
    | none =>
      rw [(atEnd_of_none (x := x.skipBlanks) opened).2] at failed
      cases failed
    | some p =>
      rw [atEnd_of_some (x := x.skipBlanks) opened] at failed ⊢
      cases failed
      exact ⟨rfl, .inr ⟨front, rfl, rfl⟩⟩
  · obtain ⟨nothing, error⟩ := trace_of_failed front scanned
    rw [error] at failed
    cases failed
    exact ⟨nothing, .inl ⟨c, r, front, scanned, rfl⟩⟩

end Lexer

/-! ## Where a text fails -/

/-- The tiles end before the character at offset `k`, which is no blank and
stands at `p`. -/
structure StopsAt (text : List Char) (tiles : List Tile) (k : Nat) (p : Position) : Prop where
  inside : k < text.length
  tiling : ∃ tail, Tiling (text.take k) tiles tail
  solid : ∀ c, text[k]? = some c → isBlank c = false
  here : p = upTo text k

/-- The tiles cover the whole text, and the last of them that bounds a pragma
is one that opens it, at `p`. -/
structure LeavesPragma (text : List Char) (tiles : List Tile) (p : Position) : Prop where
  tiling : ∃ tail, Tiling text tiles tail
  opener : ∃ before t after k, tiles = before ++ t :: after ∧ t.lexeme.kind = .openPragma k ∧
    p = t.lexeme.span.start ∧ ∀ u ∈ after, u.lexeme.kind.boundsPragma = false

section

variable {text rest : List Char} {tiles : List Tile}

theorem stopsAt_of_tiled (tiled : Tiled .origin tiles)
    (covers : text = tiles.flatMap Tile.text ++ rest) {c : Char} {r : List Char}
    (front : rest.dropWhile isBlank = c :: r) :
    ∃ k, StopsAt text tiles k
      (Position.origin.after (tiles.flatMap Tile.text ++ rest.takeWhile isBlank)) := by
  have blank : ∀ d ∈ rest.takeWhile isBlank, isBlank d = true := fun _ => List.mem_takeWhile_imp
  have solid : isBlank c = false := by
    have head := List.head?_dropWhile_not isBlank rest
    rw [front] at head
    simpa using head
  have parts := List.takeWhile_append_dropWhile (p := isBlank) (l := rest)
  have cut : text = tiles.flatMap Tile.text ++ rest.takeWhile isBlank ++ c :: r := by
    rw [List.append_assoc, ← front, parts, covers]
  refine ⟨(tiles.flatMap Tile.text ++ rest.takeWhile isBlank).length, ?_, ?_, ?_, ?_⟩
  · rw [cut]
    simp
  · refine ⟨rest.takeWhile isBlank, tiling_of_tiled ?_ tiled blank⟩
    rw [cut, List.take_left]
  · intro d hd
    rw [cut, List.getElem?_append_right (Nat.le_refl _), Nat.sub_self] at hd
    cases hd
    exact solid
  · rw [Position.upTo_of_append cut rfl]

theorem leavesPragma_of_tiled (tiled : Tiled .origin tiles)
    (covers : text = tiles.flatMap Tile.text ++ rest) (used : rest.dropWhile isBlank = [])
    {p : Position} (opened : (tiles.map Tile.lexeme).foldl Lexeme.pragmaAfter none = some p) :
    LeavesPragma text tiles p := by
  refine ⟨⟨rest, tiling_of_tiled covers tiled (List.dropWhile_eq_nil_iff.1 used)⟩, ?_⟩
  obtain ⟨before, l, after, k, row, opens, start, inside⟩ := opener_of_pragmaAfter opened
  obtain ⟨firsts, more, rfl, rfl, others⟩ := List.map_eq_append_iff.1 row
  obtain ⟨t, lasts, rfl, rfl, rfl⟩ := List.map_eq_cons_iff.1 others
  exact ⟨firsts, t, lasts, k, rfl, opens, start,
    fun u hu => inside u.lexeme (List.mem_map_of_mem hu)⟩

end

open Lexer in
/-- **Failures are located.** A text with an error has been cut into tiles up
to the character at which it fails, or altogether, with a pragma left open.
The report stands at that character, or at the start of that pragma, and its
message is the place and then the bare text. -/
theorem lex_error_located {config : Config} {text : List Char} {e : LexError}
    (h : lex config text = .error (.lexical e)) :
    ∃ tiles p, (start config text).trace.items.filterMap Token.lexeme? = tiles.map Tile.lexeme ∧
      ((∃ k, StopsAt text tiles k p) ∨ e.text = "unterminated pragma" ∧ LeavesPragma text tiles p) ∧
      e.line = some p.line ∧ e.col = some p.col ∧
      e.message = LexError.sourceMark config ++ toString p.line ++ ":" ++ toString p.col ++ " " ++
        e.text := by
  obtain ⟨ls, out, y, run, halts, items, error⟩ := exists_run (start config text)
  rw [lex, Trace.result, error] at h
  cases failed : y.trace.error? with
  | none =>
    rw [failed] at h
    cases h
  | some f =>
    rw [failed] at h
    obtain rfl := LexFailure.eq_of_report (Except.error.inj h)
    obtain ⟨nothing, place⟩ := failure_of_halts halts failed
    rw [nothing, List.append_nil] at items
    obtain ⟨tiles, rfl, tiled, covers, here⟩ := tiled_of_run run
    refine ⟨tiles, f.position, by rw [items, run_lexemes run], ?_, rfl, rfl, ?_⟩
    · obtain ⟨c, r, front, -, position⟩ | ⟨used, opened, cause⟩ := place
      · rw [rest_skipBlanks] at front
        rw [here_skipBlanks, here, ← Position.after_append] at position
        rw [position]
        exact .inl (stopsAt_of_tiled tiled covers front)
      · rw [rest_skipBlanks] at used
        rw [pragma_of_run run] at opened
        refine .inr ⟨?_, leavesPragma_of_tiled tiled covers used opened⟩
        change f.cause.text = _
        rw [cause]
        rfl
    · rw [LexError.message_ofCause, Position.text, ← String.append_assoc, ← String.append_assoc]
      rfl

/-- A pragma inside a pragma, in a source with a name. -/
theorem lex_error_located_pragma :
    let config : Config := { Config.permissive with sourceName := "M" }
    let text := ['{', '-', '#', 'S', 'C', 'C', '\n', '{', '-', '#', 'A', 'N', 'N', ' ', 'x']
    let e : LexError := ⟨"unterminated pragma", some 2, some 1, some "M"⟩
    lex config text = .error (.lexical e) ∧ e.message = "M:2:1 unterminated pragma" ∧
      ∃ tiles p, ((Lexer.start config text).trace.items.filterMap Token.lexeme? =
          tiles.map Tile.lexeme) ∧
        ((∃ k, StopsAt text tiles k p) ∨
          e.text = "unterminated pragma" ∧ LeavesPragma text tiles p) ∧
        e.line = some p.line ∧ e.col = some p.col ∧
        e.message = LexError.sourceMark config ++ toString p.line ++ ":" ++ toString p.col ++
          " " ++ e.text := by
  intro config text e
  have h : lex config text = .error (.lexical e) := by decide +kernel
  exact ⟨h, by decide +kernel, lex_error_located h⟩

end HaskellLexis
