import Mathlib.Data.List.Nodup

/-!
# Hash sets with an unspecified iteration order

A set is a list without repetition.  Its order means nothing: every iteration
goes through some rearrangement of it, and two iterations may differ.
-/

set_option autoImplicit false

namespace RaptorMark.Lib

universe u

structure HashSet (α : Type u) where
  elements : List α
  nodup : elements.Nodup

/-- The order one iteration happens to use. -/
structure IterationOrder (α : Type u) where
  arrange : List α → List α
  perm : ∀ elements, (arrange elements).Perm elements

/-- The iteration that happens to follow the stored list. -/
def IterationOrder.stored {α : Type u} : IterationOrder α := ⟨id, fun _ => .refl _⟩

namespace HashSet

variable {α : Type u}

instance : Membership α (HashSet α) := ⟨fun set element => element ∈ set.elements⟩

theorem mem_def (set : HashSet α) (element : α) : element ∈ set ↔ element ∈ set.elements :=
  Iff.rfl

def empty : HashSet α := ⟨[], List.nodup_nil⟩

def iterate (set : HashSet α) (order : IterationOrder α) : List α := order.arrange set.elements

theorem mem_iterate (set : HashSet α) (order : IterationOrder α) (element : α) :
    element ∈ set.iterate order ↔ element ∈ set :=
  (order.perm set.elements).mem_iff

theorem iterate_nodup (set : HashSet α) (order : IterationOrder α) :
    (set.iterate order).Nodup :=
  (order.perm set.elements).nodup_iff.mpr set.nodup

variable [DecidableEq α]

def add (set : HashSet α) (element : α) : HashSet α :=
  if present : element ∈ set.elements then set
  else ⟨set.elements ++ [element], by
    rw [List.nodup_append]
    refine ⟨set.nodup, List.nodup_singleton element, ?_⟩
    rintro other member last lastMember rfl
    exact present (List.mem_singleton.mp lastMember ▸ member)⟩

def remove (set : HashSet α) (element : α) : HashSet α :=
  ⟨set.elements.erase element, set.nodup.erase element⟩

theorem mem_add (set : HashSet α) (element other : α) :
    other ∈ set.add element ↔ other = element ∨ other ∈ set := by
  simp only [mem_def, add]
  split
  · rename_i present
    constructor
    · exact Or.inr
    · rintro (rfl | member)
      · exact present
      · exact member
  · simp only [List.mem_append, List.mem_singleton]
    exact or_comm

theorem mem_remove (set : HashSet α) (element other : α) :
    other ∈ set.remove element ↔ other ≠ element ∧ other ∈ set :=
  set.nodup.mem_erase_iff

theorem remove_add (set : HashSet α) (element : α) (absent : element ∉ set) :
    (set.add element).remove element = set := by
  obtain ⟨elements, nodup⟩ := set
  rw [mem_def] at absent
  simp [add, remove, absent, List.erase_append_right]

theorem add_empty (set : HashSet α) (element : α) (none : set.elements = []) :
    (set.add element).elements = [element] := by
  simp [add, none]

theorem remove_singleton (set : HashSet α) (element : α) (single : set.elements = [element]) :
    (set.remove element).elements = [] := by
  simp [remove, single]

end HashSet

end RaptorMark.Lib
