import Mathlib.Data.List.Basic

/-!
# Ranks in a sorted list

How many members of a list stay below a limit tells which rank of the sorted
list does, and a table of counters that is bumped once for every member holds
how often each key occurs.
-/

set_option autoImplicit false

namespace RaptorMark.Lib.OrderStatistic

universe u

variable {α : Type u} (key : α → Nat)

/-- More than `rank` members have a key up to `limit` exactly when the member
of that rank has. -/
theorem lt_countP_iff :
    ∀ {sorted : List α}, sorted.Pairwise (fun earlier later => key earlier ≤ key later) →
      ∀ {rank : Nat} {member : α}, sorted[rank]? = some member → ∀ limit,
        rank < sorted.countP (fun other => decide (key other ≤ limit)) ↔ key member ≤ limit := by
  intro sorted
  induction sorted with
  | nil => intro _ rank member found; cases found
  | cons first rest ih =>
      intro ordered rank member found limit
      obtain ⟨least, restOrdered⟩ := List.pairwise_cons.mp ordered
      by_cases small : key first ≤ limit
      · rw [List.countP_cons, if_pos (decide_eq_true small)]
        cases rank with
        | zero =>
            cases found
            exact ⟨fun _ => small, fun _ => Nat.succ_pos _⟩
        | succ rank =>
            rw [List.getElem?_cons_succ] at found
            rw [Nat.succ_lt_succ_iff]
            exact ih restOrdered found limit
      · have none : (first :: rest).countP (fun other => decide (key other ≤ limit)) = 0 := by
          rw [List.countP_eq_zero]
          intro other isMember
          rw [decide_eq_true_eq]
          rcases List.mem_cons.mp isMember with rfl | later
          · exact small
          · intro below
            exact small (Nat.le_trans (least other later) below)
        rw [none]
        constructor
        · intro absurdity
          exact absurd absurdity (Nat.not_lt_zero rank)
        · intro below
          rcases List.mem_cons.mp (List.mem_of_getElem? found) with rfl | later
          · exact absurd below small
          · exact absurd (Nat.le_trans (least member later) below) small

/-- Bumping the counter of every member's key adds the number of occurrences. -/
theorem getElem?_tally (members : List α) :
    ∀ (counts : List Nat) (index : Nat),
      (members.foldl (fun table member => table.modify (key member) (· + 1)) counts)[index]? =
        counts[index]?.map
          (· + members.countP fun member => decide (key member = index)) := by
  induction members with
  | nil =>
      intro counts index
      rw [List.foldl_nil, List.countP_nil]
      exact Option.map_id'.symm
  | cons member rest ih =>
      intro counts index
      rw [List.foldl_cons, ih, List.getElem?_modify, List.countP_cons]
      cases counts[index]? with
      | none => rfl
      | some count =>
          simp only [Option.map_eq_map, Option.map_some, Option.some.injEq, decide_eq_true_eq]
          by_cases same : key member = index
          · rw [if_pos same, if_pos same]
            omega
          · rw [if_neg same, if_neg same]
            omega

/-- The members with a key up to `limit` are those below it and those at it. -/
theorem countP_lt_succ (members : List α) (limit : Nat) :
    members.countP (fun member => decide (key member < limit + 1)) =
      members.countP (fun member => decide (key member < limit)) +
        members.countP (fun member => decide (key member = limit)) := by
  induction members with
  | nil => rfl
  | cons member rest ih =>
      rw [List.countP_cons, List.countP_cons, List.countP_cons, ih]
      simp only [decide_eq_true_eq]
      by_cases below : key member < limit
      · rw [if_pos below, if_pos (by omega), if_neg (by omega)]
        omega
      · rw [if_neg below]
        by_cases same : key member = limit
        · rw [if_pos same, if_pos (by omega)]
          omega
        · rw [if_neg same, if_neg (by omega)]
          omega

end RaptorMark.Lib.OrderStatistic
