import RaptorMark.Fio.JobState
import RaptorMark.Lib.Transition

/-!
# Loading and unloading libfio

`LibFIO` opens `libfio.so` in its constructor and closes it in its destructor.
The dynamic linker counts the references and initialises the static data when
the count leaves zero, and this is the only thing that resets fio's job state
between two tests.  The native thread runs its tests one after another; the UI
thread lists the engines, one request after another, at any moment.

A call of `fio` first writes one to three characters for every entry of `l_opts`
into `cmd_optstr[256]`, and only then appends the job options to `l_opts`.  The
entries of a freshly loaded library fit; with the job options among them a
second call writes far beyond the array, and the process is lost.
-/

set_option autoImplicit false

namespace RaptorMark.Fio

open Lib.Transition

/-- `libfio.so` in the process. -/
structure Library where
  references : Nat
  jobs : JobState
  /-- `fio_options_dup_and_init` has appended the job options to `l_opts`. -/
  optionsAdded : Bool

/-- Nothing of an earlier call of `fio` is left in the library. -/
structure Library.Fresh (library : Library) : Prop where
  jobs : library.jobs = .loadTime
  options : library.optionsAdded = false

def Library.dlopen (library : Library) : Library :=
  if library.references = 0 then
    { references := 1, jobs := .loadTime, optionsAdded := false }
  else
    { library with references := library.references + 1 }

def Library.dlclose (library : Library) : Library :=
  { library with references := library.references - 1 }

/-- Where the native thread is inside `native_FIOTest`. -/
inductive TestPhase where
  | idle
  | opened (testCase : TestCase)
  | ran
  deriving DecidableEq, Repr

/-- A call of `native_ListEngines` in progress. -/
structure ListRequest where
  listed : Bool
  /-- History: a test has held the library since the request was made. -/
  metTest : Bool
  deriving DecidableEq, Repr

/-- History of one call of `fio`; `report` is `none` when the process is lost
in the call. -/
structure FioCall where
  number : Nat
  testCase : TestCase
  before : JobState
  report : Option (List (Option Job))

structure Process where
  library : Library
  test : TestPhase
  request : Option ListRequest
  calls : List FioCall
  /-- A call of `fio` has written beyond the end of `cmd_optstr`. -/
  lost : Bool

inductive LibraryEvent where
  | testConstructor (testCase : TestCase)
  | fio
  | testDestructor
  | listConstructor
  | fioListIoengines
  | listDestructor

namespace Process

def start : Process where
  library := { references := 0, jobs := .loadTime, optionsAdded := false }
  test := .idle
  request := none
  calls := []
  lost := false

def liveStep (process : Process) : LibraryEvent → Option Process
  | .testConstructor testCase =>
      match process.test with
      | .idle =>
          some { process with
            library := process.library.dlopen
            test := .opened testCase
            request := process.request.map fun request => { request with metTest := true } }
      | _ => none
  | .fio =>
      match process.test with
      | .opened testCase =>
          let number := process.calls.length
          let before := process.library.jobs
          -- fio_options_fill_optstring runs before the command line is read
          if process.library.optionsAdded then
            some { process with
              calls := process.calls ++ [{ number, testCase, before, report := none }]
              lost := true }
          else do
            let jobs ← before.addJobs (JobState.commandJobs number testCase)
            return { process with
              library := { process.library with jobs, optionsAdded := true }
              test := .ran
              calls := process.calls ++
                [{ number, testCase, before, report := some jobs.reported }] }
      | _ => none
  | .testDestructor =>
      match process.test with
      | .ran => some { process with library := process.library.dlclose, test := .idle }
      | _ => none
  | .listConstructor =>
      match process.request with
      | none =>
          some { process with
            library := process.library.dlopen
            request := some { listed := false, metTest := process.test != .idle } }
      | some _ => none
  | .fioListIoengines =>
      match process.request with
      | some ⟨false, metTest⟩ => some { process with request := some ⟨true, metTest⟩ }
      | _ => none
  | .listDestructor =>
      match process.request with
      | some ⟨true, _⟩ =>
          some { process with library := process.library.dlclose, request := none }
      | _ => none

/-- A lost process takes no further step. -/
def step (process : Process) (event : LibraryEvent) : Option Process :=
  if process.lost then none else process.liveStep event

/-- The call began with the job state of a fresh library, and its report is
about the jobs of its own command. -/
structure FreshCall (call : FioCall) : Prop where
  before : call.before = .loadTime
  report : call.report = some ((JobState.commandJobs call.number call.testCase).map some)

/-- No test is started while a request that has met an earlier test still holds
the library. -/
def NoLingeringRequest (process : Process) : LibraryEvent → Prop
  | .testConstructor _ => ∀ request ∈ process.request, request.metTest = false
  | _ => True

instance decidableNoLingeringRequest (process : Process) :
    ∀ event, Decidable (NoLingeringRequest process event)
  | .testConstructor _ => inferInstanceAs (Decidable (∀ request ∈ process.request, _ = _))
  | .fio => isTrue trivial
  | .testDestructor => isTrue trivial
  | .listConstructor => isTrue trivial
  | .fioListIoengines => isTrue trivial
  | .listDestructor => isTrue trivial

structure LibraryInvariant (process : Process) : Prop where
  references : process.library.references =
    (if process.test = .idle then 0 else 1) + process.request.toList.length
  opened : ∀ testCase, process.test = .opened testCase → process.library.Fresh
  waiting : ∀ request ∈ process.request, request.metTest = false →
    process.test = .idle ∧ process.library.Fresh
  fresh : ∀ call ∈ process.calls, FreshCall call

theorem libraryInvariant_start : LibraryInvariant start where
  references := rfl
  opened := by simp [start]
  waiting := by simp [start]
  fresh := by simp [start]

theorem dlopen_references (library : Library) :
    library.dlopen.references = library.references + 1 := by
  unfold Library.dlopen
  split
  · rename_i unreferenced
    rw [unreferenced]
  · rfl

/-- Opening the library leads to a fresh one when nobody holds it or when it
still is fresh. -/
theorem dlopen_fresh (library : Library) (fresh : library.references ≠ 0 → library.Fresh) :
    library.dlopen.Fresh := by
  unfold Library.dlopen
  split
  · exact ⟨rfl, rfl⟩
  · rename_i referenced
    exact ⟨(fresh referenced).jobs, (fresh referenced).options⟩

theorem commandJobs_length (number : Nat) (testCase : TestCase) :
    (JobState.commandJobs number testCase).length ≤ JobState.maxJobs := by
  rw [JobState.commandJobs, List.length_map]
  cases testCase <;> decide

/-- A fresh library takes the jobs of every command and reports just them. -/
theorem fio_from_loadTime (number : Nat) (testCase : TestCase) :
    ∃ jobs, JobState.loadTime.addJobs (JobState.commandJobs number testCase) = some jobs ∧
      jobs.reported = (JobState.commandJobs number testCase).map some := by
  obtain ⟨jobs, added, holds⟩ := JobState.addJobs_holds .loadTime []
    (JobState.commandJobs number testCase) JobState.holds_loadTime
    (by rw [List.length_nil, Nat.zero_add]; exact commandJobs_length number testCase)
  exact ⟨jobs, added, JobState.reported_holds jobs _ holds⟩

theorem testConstructor_keeps (process next : Process) (testCase : TestCase)
    (invariant : LibraryInvariant process)
    (condition : ∀ request ∈ process.request, request.metTest = false)
    (taken : process.liveStep (.testConstructor testCase) = some next) : LibraryInvariant next := by
  simp only [liveStep] at taken
  split at taken
  · rename_i idle
    cases taken
    have count := invariant.references
    rw [idle, if_pos rfl, Nat.zero_add] at count
    refine ⟨?_, ?_, ?_, invariant.fresh⟩
    · simp [dlopen_references, count, Option.toList_map, Nat.add_comm]
    · intro other same
      cases same
      apply dlopen_fresh
      intro held
      cases waiting : process.request with
      | none =>
          rw [count, waiting] at held
          exact absurd rfl held
      | some request => exact (invariant.waiting request waiting (condition request waiting)).2
    · intro request member unmet
      obtain ⟨before, _, rfl⟩ := Option.map_eq_some_iff.mp member
      cases unmet
  · cases taken

theorem fio_keeps (process next : Process) (invariant : LibraryInvariant process)
    (taken : process.liveStep .fio = some next) : LibraryInvariant next := by
  simp only [liveStep] at taken
  split at taken
  · rename_i testCase opened
    have fresh := invariant.opened testCase opened
    obtain ⟨jobs, added, reported⟩ := fio_from_loadTime process.calls.length testCase
    rw [fresh.options, if_neg Bool.false_ne_true, fresh.jobs, added] at taken
    cases taken
    have count := invariant.references
    rw [opened] at count
    refine ⟨?_, ?_, ?_, ?_⟩
    · simpa using count
    · intro other same
      cases same
    · intro request member unmet
      have idle := (invariant.waiting request member unmet).1
      rw [opened] at idle
      cases idle
    · intro call member
      rcases List.mem_append.mp member with old | new
      · exact invariant.fresh call old
      · rw [List.mem_singleton] at new
        subst new
        exact ⟨rfl, congrArg some reported⟩
  · cases taken

theorem testDestructor_keeps (process next : Process) (invariant : LibraryInvariant process)
    (taken : process.liveStep .testDestructor = some next) : LibraryInvariant next := by
  simp only [liveStep] at taken
  split at taken
  · rename_i ran
    cases taken
    have count := invariant.references
    rw [ran] at count
    refine ⟨?_, ?_, ?_, invariant.fresh⟩
    · simp [Library.dlclose, count]
    · intro other same
      cases same
    · intro request member unmet
      have idle := (invariant.waiting request member unmet).1
      rw [ran] at idle
      cases idle
  · cases taken

theorem listConstructor_keeps (process next : Process) (invariant : LibraryInvariant process)
    (taken : process.liveStep .listConstructor = some next) : LibraryInvariant next := by
  simp only [liveStep] at taken
  split at taken
  · rename_i free
    cases taken
    have count := invariant.references
    rw [free] at count
    simp only [Option.toList_none, List.length_nil, Nat.add_zero] at count
    refine ⟨?_, ?_, ?_, invariant.fresh⟩
    · simp [dlopen_references, count]
    · intro testCase opened
      exact dlopen_fresh _ fun _ => invariant.opened testCase opened
    · intro request same unmet
      cases same
      have idle : process.test = .idle := by simpa using unmet
      refine ⟨idle, dlopen_fresh _ fun held => ?_⟩
      rw [count, if_pos idle] at held
      exact absurd rfl held
  · cases taken

theorem fioListIoengines_keeps (process next : Process) (invariant : LibraryInvariant process)
    (taken : process.liveStep .fioListIoengines = some next) : LibraryInvariant next := by
  simp only [liveStep] at taken
  split at taken
  · rename_i metTest request
    cases taken
    have count := invariant.references
    rw [request] at count
    refine ⟨count, invariant.opened, ?_, invariant.fresh⟩
    intro other same unmet
    cases same
    exact invariant.waiting _ request unmet
  · cases taken

theorem listDestructor_keeps (process next : Process) (invariant : LibraryInvariant process)
    (taken : process.liveStep .listDestructor = some next) : LibraryInvariant next := by
  simp only [liveStep] at taken
  split at taken
  · rename_i metTest request
    cases taken
    have count := invariant.references
    rw [request] at count
    refine ⟨?_, ?_, ?_, invariant.fresh⟩
    · simp [Library.dlclose, count]
    · intro testCase opened
      exact ⟨(invariant.opened testCase opened).jobs, (invariant.opened testCase opened).options⟩
    · intro other same
      cases same
  · cases taken

theorem libraryInvariant_step (process : Process) (event : LibraryEvent) (next : Process)
    (invariant : LibraryInvariant process) (condition : NoLingeringRequest process event)
    (taken : process.step event = some next) : LibraryInvariant next := by
  rw [step] at taken
  split at taken
  · cases taken
  cases event with
  | testConstructor testCase =>
      exact testConstructor_keeps process next testCase invariant condition taken
  | fio => exact fio_keeps process next invariant taken
  | testDestructor => exact testDestructor_keeps process next invariant taken
  | listConstructor => exact listConstructor_keeps process next invariant taken
  | fioListIoengines => exact fioListIoengines_keeps process next invariant taken
  | listDestructor => exact listDestructor_keeps process next invariant taken

/-- In every interleaving in which no test is started under a lingering request,
each call of `fio` starts from a fresh library and reports its own jobs only. -/
theorem fio_calls_fresh (events : List LibraryEvent) (process : Process)
    (noLingering : Along step NoLingeringRequest start events)
    (run : runEvents step start events = some process) :
    ∀ call ∈ process.calls, FreshCall call :=
  (runEvents_invariant step LibraryInvariant NoLingeringRequest libraryInvariant_step events
    start process libraryInvariant_start noLingering run).fresh

/-- Requests before the first test, inside a test and across the end of one. -/
def orderlyRequests : List LibraryEvent :=
  [.listConstructor, .testConstructor .q8t8SeqRd, .fioListIoengines, .listDestructor, .fio,
   .listConstructor, .testDestructor, .fioListIoengines, .listDestructor,
   .testConstructor .q1t1RandRd, .fio]

theorem orderlyRequests_calls_fresh :
    ∃ process, runEvents step start orderlyRequests = some process ∧
      process.calls.map FioCall.testCase = [.q8t8SeqRd, .q1t1RandRd] ∧
      ∀ call ∈ process.calls, FreshCall call := by
  have evaluated : (runEvents step start orderlyRequests).map
      (fun process => process.calls.map FioCall.testCase) = some [.q8t8SeqRd, .q1t1RandRd] := by
    decide +kernel
  obtain ⟨process, run, cases⟩ := Option.map_eq_some_iff.mp evaluated
  exact ⟨process, run, cases, fio_calls_fresh orderlyRequests process (by decide +kernel) run⟩

/-- The request is made during the first test and ends after the second one has
started. -/
def lingeringRequest : List LibraryEvent :=
  [.testConstructor .q8t8SeqRd, .fio, .listConstructor, .testDestructor,
   .testConstructor .q1t1RandRd, .fio]

/-- The second call then begins with the first one's eight jobs. -/
theorem lingeringRequest_begins_stale :
    ∃ process call, runEvents step start lingeringRequest = some process ∧
      call ∈ process.calls ∧ call.testCase = .q1t1RandRd ∧ call.before.threadNumber = 8 ∧
      ¬FreshCall call := by
  have evaluated : (runEvents step start lingeringRequest).map (fun process =>
      process.calls.map fun call => (call.testCase, call.before.threadNumber)) =
      some [(.q8t8SeqRd, 0), (.q1t1RandRd, 8)] := by
    decide +kernel
  obtain ⟨process, run, calls⟩ := Option.map_eq_some_iff.mp evaluated
  have second : (TestCase.q1t1RandRd, 8) ∈
      process.calls.map fun call => (call.testCase, call.before.threadNumber) := by
    rw [calls]
    exact List.mem_cons_of_mem _ (List.mem_singleton_self _)
  obtain ⟨call, member, same⟩ := List.mem_map.mp second
  simp only [Prod.mk.injEq] at same
  obtain ⟨testCase, threads⟩ := same
  refine ⟨process, call, run, member, testCase, threads, fun fresh => ?_⟩
  rw [fresh.before] at threads
  cases threads

end Process

end RaptorMark.Fio
