import Mathlib.Data.Finset.Insert
import RaptorMark.ViewModels.RecordedResults

/-!
# What becomes of a finished run

A block hands its record to a coroutine of the view model's scope, but runs on
the thread of the process.  When the view model is cleared its scope is
cancelled: a coroutine that has not begun never begins, and neither does one
that is launched later.
-/

set_option autoImplicit false

namespace RaptorMark

open Lib Lib.Kotlin Lib.Transition

/-- The benchmark together with the scopes of its view models. -/
structure Process where
  app : App
  /-- The view models whose scope is cancelled. -/
  cleared : Finset Nat
  /-- The coroutines that were launched and have not begun. -/
  pending : List Launch
  /-- History: the arguments of the calls of `insertTestRecord`. -/
  inserted : List TestRecord
  /-- History: the blocks that reached their end. -/
  ended : List Run

inductive ProcessEvent where
  | benchmark (event : Event)
  | onCleared (owner : Nat)
  /-- The dispatcher begins one of the coroutines, in any order. -/
  | insertTestRecord (index : Nat)

namespace App

/-- The block that has launched its insertion and is not at its end yet. -/
def closing (app : App) : List Run :=
  match app.current with
  | some (run, .launched _) => [run]
  | some (run, .stopReset _) => [run]
  | _ => []

/-- The block that an event brings to its end. -/
def endedBy (app : App) : Event → List Run
  | .native .resetRunning => app.closing
  | _ => []

end App

namespace Process

def start (filePath : TestRef → String) (files : Finset String) : Process where
  app := App.start filePath files
  cleared := ∅
  pending := []
  inserted := []
  ended := []

/-- The screen of a cleared view model is gone. -/
def calledFromGone (process : Process) : Event → Bool
  | .onTestStart owner => owner ∈ process.cleared
  | .onTestStop owner => owner ∈ process.cleared
  | .native _ => false

variable (json : OrgJson)

def step (process : Process) : ProcessEvent → Option Process
  | .benchmark event =>
      if process.calledFromGone event then
        none
      else do
        let app ← process.app.step json event
        -- `viewModelScope.launch`: in a cancelled scope nothing is scheduled
        let launched := app.launches.drop process.app.launches.length
        let scheduled := launched.filter fun launch => launch.run.owner ∉ process.cleared
        return { process with
          app
          pending := process.pending ++ scheduled
          ended := process.ended ++ process.app.endedBy event }
  | .onCleared owner =>
      some { process with
        cleared := insert owner process.cleared
        pending := process.pending.filter fun launch => launch.run.owner ≠ owner }
  | .insertTestRecord index => do
      let launch ← process.pending[index]?
      return { process with
        pending := process.pending.eraseIdx index
        inserted := process.inserted ++ [launch.record] }

/-- What the blocks and the scopes always keep: the blocks that launched an
insertion are those that ended and the one about to end, each with its own
record, and what waits is in a scope that is not cancelled. -/
structure Accounted (process : Process) : Prop where
  launched : process.app.launches.map Launch.run = process.ended ++ process.app.closing
  own : ∀ launch ∈ process.app.launches, launch.record.results = launch.run.results
  live : ∀ launch ∈ process.pending, launch.run.owner ∉ process.cleared

/-- Once the coroutines that wait have begun, one after another, nothing waits
and `insertTestRecord` was called once for each record that was launched. -/
def InsertsAll (process : Process) : Prop :=
  ∃ final,
    runEvents (step json) process (process.pending.map fun _ => .insertTestRecord 0) =
      some final ∧
    final.app = process.app ∧ final.ended = process.ended ∧ final.pending = [] ∧
    final.inserted.Perm (process.app.launches.map Launch.record)

/-- No finished run is lost: each record that was launched is inserted once or
still waits to be, and the ones that wait come to be inserted. -/
structure NoRunLost (process : Process) : Prop extends Accounted process where
  kept : (process.pending.map Launch.record ++ process.inserted).Perm
    (process.app.launches.map Launch.record)
  insertsAll : InsertsAll json process

/-- A view model is not cleared while one of its insertions waits, and no block
of a cleared view model comes to its launch. -/
def ScopeOutlivesRuns (process : Process) : ProcessEvent → Prop
  | .onCleared owner => ∀ launch ∈ process.pending, launch.run.owner ≠ owner
  | .benchmark (.native (.score _)) =>
      ∀ run phase, process.app.current = some (run, phase) → run.owner ∉ process.cleared
  | _ => True

end Process

namespace App

variable (json : OrgJson)

/-- What a step launches: only the score step hands over a record, that of the
current block. -/
theorem step_launches (app next : App) (event : Event) (taken : app.step json event = some next) :
    ((∀ now, event ≠ .native (.score now)) ∧ next.launches = app.launches ∧
        app.closing = app.endedBy event ++ next.closing) ∨
      ∃ run launch now, event = .native (.score now) ∧ app.current = some (run, .testing []) ∧
        launch.run = run ∧ launch.record.results = run.results ∧
        next.launches = app.launches ++ [launch] ∧ app.closing = [] ∧ next.closing = [run] := by
  cases event with
  | onTestStart owner =>
      cases taken
      exact Or.inl ⟨nofun, rfl, rfl⟩
  | onTestStop owner =>
      cases taken
      refine Or.inl ⟨nofun, rfl, ?_⟩
      unfold closing
      rcases position : app.current with _ | ⟨run, _ | _ | _⟩
      · simp [onTestStop, endedBy, position]
      · rename_i remaining
        cases remaining with
        | nil => simp [onTestStop, endedBy, position, noteStopCurrent]
        | cons testCase rest => simp [onTestStop, endedBy, position, noteStopCurrent]
      · simp [onTestStop, endedBy, position, noteStopCurrent]
      · simp [onTestStop, endedBy, position, noteStopCurrent]
  | native action =>
      cases nativeStep_taken json app next action taken with
      | dequeue run rest idle queued => exact Or.inl ⟨nofun, rfl, by simp [closing, endedBy, idle]⟩
      | skip run testCase remaining outcome position =>
          exact Or.inl ⟨nofun, rfl, by simp [closing, endedBy, position]⟩
      | test run testCase remaining outcome position =>
          exact Or.inl ⟨nofun, rfl, by simp [closing, endedBy, position]⟩
      | score run now position =>
          exact Or.inr ⟨run, _, now, rfl, position, rfl, rfl, rfl, by simp [closing, position],
            rfl⟩
      | resetForceStop run score position =>
          exact Or.inl ⟨nofun, rfl, by simp [closing, endedBy, position]⟩
      | resetRunning run score position =>
          exact Or.inl ⟨nofun, rfl, by simp [closing, endedBy, position]⟩

end App

namespace Process

variable (json : OrgJson)

/-- What a step of the process can do. -/
inductive Taken (process : Process) : ProcessEvent → Process → Prop where
  | quiet (event : Event) (app : App) (silent : ∀ now, event ≠ .native (.score now))
      (launches : app.launches = process.app.launches)
      (closing : process.app.closing = process.app.endedBy event ++ app.closing) :
      Taken process (.benchmark event)
        { process with app, ended := process.ended ++ process.app.endedBy event }
  | launch (run : Run) (launch : Launch) (now : Int64) (app : App)
      (position : process.app.current = some (run, .testing [])) (isRun : launch.run = run)
      (own : launch.record.results = run.results)
      (launches : app.launches = process.app.launches ++ [launch])
      (before : process.app.closing = []) (after : app.closing = [run]) :
      Taken process (.benchmark (.native (.score now)))
        { process with
          app
          pending := process.pending ++ if run.owner ∈ process.cleared then [] else [launch] }
  | onCleared (owner : Nat) :
      Taken process (.onCleared owner)
        { process with
          cleared := insert owner process.cleared
          pending := process.pending.filter fun launch => launch.run.owner ≠ owner }
  | insertTestRecord (index : Nat) (launch : Launch) (waits : process.pending[index]? = some launch) :
      Taken process (.insertTestRecord index)
        { process with
          pending := process.pending.eraseIdx index
          inserted := process.inserted ++ [launch.record] }

theorem step_taken (process next : Process) (event : ProcessEvent)
    (taken : process.step json event = some next) : Taken process event next := by
  cases event with
  | benchmark event =>
      simp only [step] at taken
      split at taken
      · cases taken
      · obtain ⟨app, moved, rest⟩ := Option.bind_eq_some_iff.mp taken
        cases rest
        rcases App.step_launches json process.app app event moved with
          ⟨silent, launches, closing⟩ |
          ⟨run, launch, now, rfl, position, isRun, own, launches, before, after⟩
        · have nothing := Taken.quiet event app silent launches closing
          simpa [launches] using nothing
        · have handed := Taken.launch run launch now app position isRun own launches before after
          simp only [launches, List.drop_left, App.endedBy, List.append_nil]
          by_cases gone : run.owner ∈ process.cleared
          · simpa [gone, isRun] using handed
          · simpa [gone, isRun] using handed
  | onCleared owner =>
      cases taken
      exact .onCleared owner
  | insertTestRecord index =>
      obtain ⟨launch, waits, rest⟩ := Option.bind_eq_some_iff.mp taken
      cases rest
      exact .insertTestRecord index launch waits

theorem accounted_step (process next : Process) (event : ProcessEvent)
    (accounted : Accounted process) (taken : process.step json event = some next) :
    Accounted next := by
  obtain ⟨launched, own, live⟩ := accounted
  cases step_taken json process next event taken with
  | quiet event app silent launches closing =>
      refine ⟨?_, ?_, live⟩
      · dsimp only
        rw [launches, launched, closing, List.append_assoc]
      · dsimp only
        rw [launches]
        exact own
  | launch run launch now app position isRun ownRecord launches before after =>
      refine ⟨?_, ?_, ?_⟩
      · dsimp only
        rw [launches, after, List.map_append, launched, before, List.append_nil, List.map_singleton,
          isRun]
      · dsimp only
        rw [launches, List.forall_mem_append, List.forall_mem_singleton]
        exact ⟨own, by rw [ownRecord, isRun]⟩
      · dsimp only
        rw [List.forall_mem_append]
        refine ⟨live, ?_⟩
        split
        · exact fun _ => (nomatch ·)
        · rename_i alive
          rw [List.forall_mem_singleton, isRun]
          exact alive
  | onCleared owner =>
      refine ⟨launched, own, ?_⟩
      intro launch member
      obtain ⟨waits, other⟩ := List.mem_filter.mp member
      rw [Finset.mem_insert, not_or]
      exact ⟨of_decide_eq_true other, live launch waits⟩
  | insertTestRecord index launch waits =>
      exact ⟨launched, own, fun other member => live other (List.mem_of_mem_eraseIdx member)⟩

/-- Cancelling a scope drops what waits in it, and nothing else. -/
theorem kept_onCleared_iff (process : Process) (owner : Nat)
    (kept : (process.pending.map Launch.record ++ process.inserted).Perm
      (process.app.launches.map Launch.record)) :
    (((process.pending.filter fun launch => launch.run.owner ≠ owner).map Launch.record) ++
        process.inserted).Perm (process.app.launches.map Launch.record) ↔
      ∀ launch ∈ process.pending, launch.run.owner ≠ owner := by
  constructor
  · intro still
    have lengths := (still.trans kept.symm).length_eq
    simp only [List.length_append, List.length_map, Nat.add_right_cancel_iff] at lengths
    have every := List.length_filter_eq_length_iff.mp lengths
    exact fun launch member => of_decide_eq_true (every launch member)
  · intro others
    rw [List.filter_eq_self.mpr fun launch member => decide_eq_true (others launch member)]
    exact kept

theorem kept_launch_iff (process : Process) (run : Run) (launch : Launch)
    (kept : (process.pending.map Launch.record ++ process.inserted).Perm
      (process.app.launches.map Launch.record)) :
    (((process.pending ++ if run.owner ∈ process.cleared then [] else [launch]).map
        Launch.record) ++ process.inserted).Perm
          ((process.app.launches ++ [launch]).map Launch.record) ↔
      run.owner ∉ process.cleared := by
  by_cases gone : run.owner ∈ process.cleared
  · rw [if_pos gone]
    refine ⟨fun still => ?_, fun alive => absurd gone alive⟩
    have lengths := still.length_eq
    have before := kept.length_eq
    simp only [List.length_append, List.length_map, List.length_cons, List.length_nil] at *
    omega
  · rw [if_neg gone]
    refine ⟨fun _ => gone, fun _ => ?_⟩
    have moved : ((process.pending.map Launch.record ++ [launch.record]) ++
        process.inserted).Perm
          ((process.pending.map Launch.record ++ process.inserted) ++ [launch.record]) := by
      rw [List.append_assoc, List.append_assoc]
      exact List.perm_append_comm.append_left _
    rw [List.map_append, List.map_append, List.map_singleton]
    exact moved.trans (kept.append_right _)

theorem kept_insert (process : Process) (index : Nat) (launch : Launch)
    (waits : process.pending[index]? = some launch)
    (kept : (process.pending.map Launch.record ++ process.inserted).Perm
      (process.app.launches.map Launch.record)) :
    ((process.pending.eraseIdx index).map Launch.record ++
        (process.inserted ++ [launch.record])).Perm (process.app.launches.map Launch.record) := by
  obtain ⟨bound, rfl⟩ := List.getElem?_eq_some_iff.mp waits
  have taken := ((List.getElem_cons_eraseIdx_perm bound).map Launch.record).append_right
    process.inserted
  rw [← List.append_assoc]
  exact (List.perm_append_singleton _ _).trans (taken.trans kept)

/-- The dispatcher can begin every coroutine that waits, the oldest first. -/
theorem runEvents_insertions (process : Process) :
    runEvents (step json) process (process.pending.map fun _ => .insertTestRecord 0) =
      some { process with
        pending := []
        inserted := process.inserted ++ process.pending.map Launch.record } := by
  obtain ⟨app, cleared, pending, inserted, ended⟩ := process
  induction pending generalizing inserted with
  | nil =>
      dsimp only
      rw [List.map_nil, List.map_nil, List.append_nil, runEvents]
  | cons launch rest ih =>
      have begun : step json ⟨app, cleared, launch :: rest, inserted, ended⟩
          (.insertTestRecord 0) =
            some ⟨app, cleared, rest, inserted ++ [launch.record], ended⟩ := rfl
      dsimp only at ih ⊢
      rw [List.map_cons, runEvents, begun, Option.bind_eq_bind, Option.bind_some, ih,
        List.map_cons, List.append_assoc, List.singleton_append]

theorem insertsAll_of_kept (process : Process)
    (kept : (process.pending.map Launch.record ++ process.inserted).Perm
      (process.app.launches.map Launch.record)) : InsertsAll json process :=
  ⟨_, runEvents_insertions json process, rfl, rfl, rfl, List.perm_append_comm.trans kept⟩

/-- Whether a step loses a run is decided by its condition. -/
theorem noRunLost_step (process next : Process) (event : ProcessEvent)
    (good : NoRunLost json process) (taken : process.step json event = some next) :
    ScopeOutlivesRuns process event ↔ NoRunLost json next := by
  have accounted := accounted_step json process next event good.toAccounted taken
  have kept := good.kept
  suffices decides : ScopeOutlivesRuns process event ↔
      (next.pending.map Launch.record ++ next.inserted).Perm
        (next.app.launches.map Launch.record) by
    exact decides.trans
      ⟨fun still => ⟨accounted, still, insertsAll_of_kept json next still⟩, NoRunLost.kept⟩
  cases step_taken json process next event taken with
  | quiet event app silent launches closing =>
      dsimp only
      rw [launches]
      refine ⟨fun _ => kept, fun _ => ?_⟩
      unfold ScopeOutlivesRuns
      split
      · rename_i owner same
        cases same
      · rename_i now same
        exact absurd (ProcessEvent.benchmark.inj same) (silent now)
      · trivial
  | launch run launch now app position isRun own launches before after =>
      dsimp only
      rw [launches, kept_launch_iff process run launch kept]
      refine ⟨fun alive => alive run _ position, fun alive other phase current => ?_⟩
      obtain ⟨rfl, _⟩ := Prod.mk.inj (Option.some.inj (position.symm.trans current))
      exact alive
  | onCleared owner => exact (kept_onCleared_iff process owner kept).symm
  | insertTestRecord index launch waits =>
      exact ⟨fun _ => kept_insert process index launch waits kept, fun _ => trivial⟩

/-- No finished run is lost in any state of a run of the process exactly if no
view model is cleared between a block's launch and its insertion, and no block
of a cleared view model comes to its launch. -/
theorem noRunLost_throughout_iff (filePath : TestRef → String) (files : Finset String)
    (events : List ProcessEvent) :
    Throughout (step json) (NoRunLost json) (start filePath files) events ↔
      Along (step json) ScopeOutlivesRuns (start filePath files) events := by
  apply throughout_iff_along (step json) (fun _ => True)
  · exact fun _ _ _ _ _ => trivial
  · exact fun process event next _ good taken =>
      noRunLost_step json process next event good taken
  · trivial
  · exact ⟨⟨rfl, fun _ => (nomatch ·), fun _ => (nomatch ·)⟩, List.Perm.nil,
      insertsAll_of_kept json _ List.Perm.nil⟩

/-! ## A screen that is left during a run -/

/-- The view model is cleared while its block runs to its end. -/
def leftDuringRun : List ProcessEvent :=
  [.benchmark (.onTestStart 0), .benchmark (.native .dequeue), .onCleared 0] ++
    (TestCase.entries.map fun _ => .benchmark (.native (.test App.silentOutcome))) ++
    [.benchmark (.native (.score 0)), .benchmark (.native .resetForceStop),
      .benchmark (.native .resetRunning)]

/-- The block ends, nothing was inserted and nothing waits. -/
theorem left_run_is_lost :
    (∃ final,
      runEvents (step App.sampleJson) (start (fun ref => "/data/" ++ ref.testCase.name) ∅)
        leftDuringRun = some final ∧
      final.ended.length = 1 ∧ final.pending = [] ∧ final.inserted = []) ∧
    ¬Throughout (step App.sampleJson) (NoRunLost App.sampleJson)
      (start (fun ref => "/data/" ++ ref.testCase.name) ∅) leftDuringRun := by
  have evaluated : (runEvents (step App.sampleJson)
      (start (fun ref => "/data/" ++ ref.testCase.name) ∅) leftDuringRun).map (fun final =>
        (final.ended.length, final.app.launches.length, final.pending.length,
          final.inserted.length)) =
      some (1, 1, 0, 0) := by
    decide +kernel
  obtain ⟨final, run, facts⟩ := Option.map_eq_some_iff.mp evaluated
  simp only [Prod.mk.injEq, List.length_eq_zero_iff] at facts
  obtain ⟨ended, launches, pending, inserted⟩ := facts
  refine ⟨⟨final, run, ended, pending, inserted⟩, fun throughout => ?_⟩
  have kept := (good_of_throughout _ _ leftDuringRun _ final throughout run).kept.length_eq
  rw [pending, inserted] at kept
  simp [launches] at kept

end Process

end RaptorMark
