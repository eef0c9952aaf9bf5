import Mathlib.Data.List.Basic

/-!
# Separated lists

Pieces written one after the other with a separator between them: what stands
in front, what the elements are, how long the whole is, and that a translation
of the elements goes into the pieces.
-/

set_option autoImplicit false

namespace RaptorMark.Lib.Separated

universe u v

variable {α : Type u} {β : Type v}

/-- The first piece and its separator, in front of whatever follows the whole. -/
theorem intercalate_cons_append (separator : α) (piece second : List α) (rest : List (List α))
    (after : List α) :
    [separator].intercalate (piece :: second :: rest) ++ after =
      piece ++ separator :: ([separator].intercalate (second :: rest) ++ after) := by
  rw [List.intercalate_cons_cons, List.append_assoc, List.append_assoc, List.singleton_append]

variable (separator : List α)

theorem intercalate_starts (piece : List α) (rest : List (List α)) :
    ∃ tail, separator.intercalate (piece :: rest) = piece ++ tail := by
  cases rest with
  | nil => exact ⟨[], by rw [List.intercalate_singleton, List.append_nil]⟩
  | cons second others =>
      exact ⟨_, by rw [List.intercalate_cons_cons, List.append_assoc]⟩

theorem mem_intercalate (pieces : List (List α)) (element : α)
    (member : element ∈ separator.intercalate pieces) :
    element ∈ separator ∨ ∃ piece ∈ pieces, element ∈ piece := by
  induction pieces with
  | nil => cases member
  | cons piece others ih =>
      cases others with
      | nil => exact Or.inr ⟨piece, List.mem_cons_self .., by simpa using member⟩
      | cons second rest =>
          rw [List.intercalate_cons_cons, List.mem_append, List.mem_append] at member
          rcases member with (inPiece | between) | later
          · exact Or.inr ⟨piece, List.mem_cons_self .., inPiece⟩
          · exact Or.inl between
          · rcases ih later with between | ⟨other, isOther, inOther⟩
            · exact Or.inl between
            · exact Or.inr ⟨other, List.mem_cons_of_mem _ isOther, inOther⟩

theorem length_le_intercalate (pieces : List (List α)) (solid : ∀ piece ∈ pieces, piece ≠ []) :
    pieces.length ≤ (separator.intercalate pieces).length := by
  induction pieces with
  | nil => exact Nat.le_refl _
  | cons piece others ih =>
      rw [List.forall_mem_cons] at solid
      have some := List.length_pos_of_ne_nil solid.1
      cases others with
      | nil =>
          rw [List.intercalate_singleton]
          exact some
      | cons second rest =>
          have later := ih solid.2
          rw [List.intercalate_cons_cons, List.length_append, List.length_append]
          simp only [List.length_cons] at later ⊢
          omega

theorem flatMap_intercalate (f : α → List β) (pieces : List (List α)) :
    (separator.intercalate pieces).flatMap f =
      (separator.flatMap f).intercalate (pieces.map (List.flatMap f)) := by
  induction pieces with
  | nil => rfl
  | cons piece others ih =>
      cases others with
      | nil => simp
      | cons second rest =>
          rw [List.intercalate_cons_cons, List.flatMap_append, List.flatMap_append, ih]
          simp only [List.map_cons, List.intercalate_cons_cons]

theorem map_intercalate (f : α → β) (pieces : List (List α)) :
    (separator.intercalate pieces).map f =
      (separator.map f).intercalate (pieces.map (List.map f)) := by
  have single : List.map f = List.flatMap fun element => [f element] :=
    funext fun _ => List.map_eq_flatMap
  rw [single]
  exact flatMap_intercalate separator (fun element => [f element]) pieces

end RaptorMark.Lib.Separated
