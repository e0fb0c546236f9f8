import Mathlib.Logic.Function.Basic
import HaskellLexis.Saved
import HaskellLexis.Proofs.Json

/-!
# Saved pieces read back

Whatever the texts of the pieces hold, saving and reading gives the same pieces,
so that no two lists are saved alike.

* `ofJson_ofPieces`: the object of some pieces is read as these;
* `saved_round_trip`: the text of some pieces is ASCII and is read as these.
-/

namespace HaskellLexis

namespace Saved

theorem ofPieces_plain (ps : List Piece) : (ofPieces ps).Plain := by
  have items : Json.PlainItems (ps.map ofPiece) := by
    induction ps with
    | nil => trivial
    | cons p ps ih => exact ⟨⟨by simp, trivial, trivial, trivial⟩, ih⟩
  exact ⟨by simp, trivial, items, trivial⟩

theorem readPiece_ofPiece (p : Piece) :
    readPiece (ofPiece p) = .ok (p.category, .string p.text) := by
  have category : (ofPiece p).get? "category" = some (.string p.category.tag.toList) := rfl
  have text : (ofPiece p).get? "text" = some (.string p.text) := rfl
  have known : Category.ofTag? (String.ofList p.category.tag.toList) = some p.category := by
    rw [String.ofList_toList, Category.ofTag?_tag]
  rw [ofPiece] at category text ⊢
  simp only [readPiece, category, text, known]

theorem mapM_readPiece (ps : List Piece) :
    (ps.map ofPiece).mapM readPiece = .ok (ps.map fun p => (p.category, .string p.text)) := by
  induction ps with
  | nil => rfl
  | cons p ps ih =>
    rw [List.map_cons, List.mapM_cons, readPiece_ofPiece, ih]
    rfl

theorem ofJson_ofPieces (ps : List Piece) :
    ofJson (ofPieces ps) = .ok (ps.map fun p => (p.category, .string p.text)) := by
  have typed : checkType (ofPieces ps) = .ok () := rfl
  have tokens : elements ((ofPieces ps).get? "tokens") = .ok (ps.map ofPiece) := rfl
  rw [ofPieces] at typed tokens ⊢
  rw [ofJson, typed, tokens]
  exact mapM_readPiece ps

theorem pieces?_map (ps : List Piece) :
    pieces? (ps.map fun p => (p.category, .string p.text)) = some ps := by
  induction ps with
  | nil => rfl
  | cons p ps ih =>
    rw [pieces?] at ih ⊢
    rw [List.map_cons, List.mapM_cons, ih]
    rfl

theorem pieces?_read_write (indent : Option Nat) (ps : List Piece) :
    (read (write indent ps)).map pieces? = .ok (some ps) := by
  rw [read, write, Json.read?_write indent (ofPieces_plain ps)]
  dsimp only
  rw [ofJson_ofPieces, Except.map, pieces?_map]

end Saved

/-- **Saved pieces read back.** With any indentation pieces are saved as ASCII
text, which is read as the same pieces: the same categories and texts in the
same order. So no two lists of pieces are saved as the same text. -/
theorem saved_round_trip (indent : Option Nat) :
    (∀ ps, Json.Ascii (Saved.write indent ps) ∧
      (Saved.read (Saved.write indent ps)).map Saved.pieces? = .ok (some ps)) ∧
    Function.Injective (Saved.write indent) := by
  refine ⟨fun ps => ⟨?_, Saved.pieces?_read_write indent ps⟩, fun ps qs same => ?_⟩
  · exact Json.writeAt_ascii indent _ 0 (Saved.ofPieces_plain ps)
  · have read := Saved.pieces?_read_write indent ps
    rw [same, Saved.pieces?_read_write indent qs] at read
    exact (Option.some.inj (Except.ok.inj read)).symm

end HaskellLexis
