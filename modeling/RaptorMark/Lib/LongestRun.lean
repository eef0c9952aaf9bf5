import Mathlib.Data.List.TakeWhile

/-!
# Longest runs

A scanner that takes the longest run of a class of characters takes exactly
the run it was given, when what follows is at its end or outside the class.
-/

set_option autoImplicit false

namespace RaptorMark.Lib.LongestRun

universe u

variable {α : Type u} (p : α → Bool)

/-- The text is at its end or goes on with something outside the class. -/
def Stops (text : List α) : Prop := ∀ head ∈ text.head?, p head = false

theorem stops_cons (head : α) (rest : List α) (outside : p head = false) :
    Stops p (head :: rest) := by
  intro first member
  cases member
  exact outside

theorem stops_dropWhile (text : List α) : Stops p (text.dropWhile p) := by
  intro head member
  obtain ⟨rest, cut⟩ : ∃ rest, text.dropWhile p = head :: rest := by
    cases cut : text.dropWhile p with
    | nil => simp [cut] at member
    | cons first rest =>
        rw [cut] at member
        cases member
        exact ⟨rest, rfl⟩
  have nonempty : text.dropWhile p ≠ [] := by simp [cut]
  have outside := List.head_dropWhile_not p nonempty
  simpa [cut] using outside

theorem dropWhile_stops (text : List α) (stops : Stops p text) : text.dropWhile p = text := by
  cases text with
  | nil => rfl
  | cons head rest =>
      exact List.dropWhile_cons_of_neg (by rw [stops head rfl]; exact Bool.false_ne_true)

theorem takeWhile_stops (text : List α) (stops : Stops p text) : text.takeWhile p = [] := by
  cases text with
  | nil => rfl
  | cons head rest =>
      exact List.takeWhile_cons_of_neg (by rw [stops head rfl]; exact Bool.false_ne_true)

variable {p} {run rest : List α}

theorem dropWhile_run (inside : ∀ b ∈ run, p b = true) (stops : Stops p rest) :
    (run ++ rest).dropWhile p = rest := by
  rw [List.dropWhile_append_of_pos inside, dropWhile_stops p rest stops]

theorem takeWhile_run (inside : ∀ b ∈ run, p b = true) (stops : Stops p rest) :
    (run ++ rest).takeWhile p = run := by
  rw [List.takeWhile_append_of_pos inside, takeWhile_stops p rest stops, List.append_nil]

end RaptorMark.Lib.LongestRun
