import Mathlib.Data.List.Infix

/-!
# Finite runs of a partial labelled machine

A machine is a step function `σ → ε → Option σ`; `none` means that the state
does not enable the event.  `runEvents` executes a whole list of events.
`Along` restricts a run to the events that meet a condition on the state they
are taken in, `Throughout` says that every state a run passes through is good.
The rules below carry a one-step fact to every run.
-/

set_option autoImplicit false

namespace RaptorMark.Lib.Transition

universe u v

section Runs

variable {σ : Type u} {ε : Type v} (step : σ → ε → Option σ)

def runEvents : σ → List ε → Option σ
  | state, [] => some state
  | state, event :: rest => do
      let next ← step state event
      runEvents next rest

/-- Every event that is taken meets the condition in the state before it. -/
def Along (condition : σ → ε → Prop) : σ → List ε → Prop
  | _, [] => True
  | state, event :: rest =>
      ∀ next, step state event = some next →
        condition state event ∧ Along condition next rest

/-- On a concrete run a decidable condition can be evaluated. -/
instance decidableAlong (condition : σ → ε → Prop)
    [∀ state event, Decidable (condition state event)] :
    ∀ (state : σ) (events : List ε), Decidable (Along step condition state events)
  | _, [] => isTrue trivial
  | state, event :: rest =>
      match taken : step state event with
      | none => isTrue fun next other => by cases taken.symm.trans other
      | some next =>
          have := decidableAlong condition next rest
          decidable_of_iff (condition state event ∧ Along step condition next rest)
            ⟨fun holds other otherTaken => by
              obtain rfl : next = other := Option.some.inj (taken.symm.trans otherTaken)
              exact holds,
            fun along => along next taken⟩

/-- Every state the run passes through is good, its first one included. -/
def Throughout (good : σ → Prop) : σ → List ε → Prop
  | state, [] => good state
  | state, event :: rest =>
      good state ∧ ∀ next, step state event = some next → Throughout good next rest

theorem runEvents_append (state : σ) (earlier later : List ε) :
    runEvents step state (earlier ++ later) =
      (runEvents step state earlier).bind fun middle => runEvents step middle later := by
  induction earlier generalizing state with
  | nil => rfl
  | cons event rest ih =>
      simp only [List.cons_append, runEvents]
      cases taken : step state event with
      | none => rfl
      | some next => exact ih next

/-- The invariant rule: what one conditioned step keeps, a conditioned run keeps. -/
theorem runEvents_invariant (invariant : σ → Prop) (condition : σ → ε → Prop)
    (preserved : ∀ state event next, invariant state → condition state event →
      step state event = some next → invariant next)
    (events : List ε) (state final : σ) (start : invariant state)
    (along : Along step condition state events)
    (run : runEvents step state events = some final) : invariant final := by
  induction events generalizing state with
  | nil =>
      have same : state = final := Option.some.inj run
      exact same ▸ start
  | cons event rest ih =>
      simp only [runEvents] at run
      obtain ⟨next, taken, restRun⟩ := Option.bind_eq_some_iff.mp run
      obtain ⟨allowed, restAlong⟩ := along next taken
      exact ih next (preserved state event next start allowed taken) restAlong restRun

theorem good_of_throughout (good : σ → Prop) (events : List ε) (state final : σ)
    (throughout : Throughout step good state events)
    (run : runEvents step state events = some final) : good final := by
  induction events generalizing state with
  | nil =>
      have same : state = final := Option.some.inj run
      exact same ▸ throughout
  | cons event rest ih =>
      obtain ⟨next, taken, restRun⟩ := Option.bind_eq_some_iff.mp run
      exact ih next (throughout.2 next taken) restRun

theorem along_of_forall {condition : σ → ε → Prop} (always : ∀ state event, condition state event)
    (events : List ε) (state : σ) : Along step condition state events := by
  induction events generalizing state with
  | nil => trivial
  | cons event rest ih => exact fun next _ => ⟨always state event, ih next⟩

theorem along_of_forall_mem {allowed : ε → Prop} (events : List ε) (state : σ)
    (every : ∀ event ∈ events, allowed event) :
    Along step (fun _ => allowed) state events := by
  induction events generalizing state with
  | nil => trivial
  | cons event rest ih =>
      rw [List.forall_mem_cons] at every
      exact fun next _ => ⟨every.1, ih next every.2⟩

/-- Where every event is enabled, a condition on events alone holds along a run
exactly if it holds of every event. -/
theorem along_iff_forall_mem {allowed : ε → Prop} (total : ∀ state event, (step state event).isSome)
    (events : List ε) (state : σ) :
    Along step (fun _ => allowed) state events ↔ ∀ event ∈ events, allowed event := by
  induction events generalizing state with
  | nil => simp [Along]
  | cons event rest ih =>
      obtain ⟨next, taken⟩ := Option.isSome_iff_exists.mp (total state event)
      rw [List.forall_mem_cons, ← ih next]
      constructor
      · exact fun along => along next taken
      · intro holds other otherTaken
        obtain rfl : next = other := Option.some.inj (taken.symm.trans otherTaken)
        exact holds

/-- The rule for a condition that is exact: when a step from a good state ends
in a good state exactly if the condition holds, a run stays good exactly if
every event it takes meets the condition.  `always` is an invariant that every
step keeps. -/
theorem throughout_iff_along (always : σ → Prop) {good : σ → Prop} {condition : σ → ε → Prop}
    (kept : ∀ state event next, always state → step state event = some next → always next)
    (decides : ∀ state event next, always state → good state →
      step state event = some next → (condition state event ↔ good next))
    (events : List ε) (state : σ) (holds : always state) (start : good state) :
    Throughout step good state events ↔ Along step condition state events := by
  induction events generalizing state with
  | nil => exact ⟨fun _ => trivial, fun _ => start⟩
  | cons event rest ih =>
      constructor
      · rintro ⟨_, later⟩ next taken
        have stays : good next := by
          have tail := later next taken
          cases rest with
          | nil => exact tail
          | cons _ _ => exact tail.1
        exact ⟨(decides state event next holds start taken).mpr stays,
          (ih next (kept state event next holds taken) stays).mp (later next taken)⟩
      · intro along
        refine ⟨start, fun next taken => ?_⟩
        obtain ⟨allowed, restAlong⟩ := along next taken
        have stays := (decides state event next holds start taken).mp allowed
        exact (ih next (kept state event next holds taken) stays).mpr restAlong

end Runs

end RaptorMark.Lib.Transition
