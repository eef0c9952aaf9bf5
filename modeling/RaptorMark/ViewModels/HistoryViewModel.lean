import RaptorMark.ViewModels.BenchmarkViewModel

/-!
# The list of past runs

The collector of the database flow runs on a thread of `Dispatchers.IO`,
`toggleSortOrder` on the main thread, and both write the list that is shown.
The machine interleaves them with one read or write of the two shared fields
in each step.  An emission is handled before the next one is taken, and so is
a call of `toggleSortOrder`.
-/

set_option autoImplicit false

namespace RaptorMark

open Lib Lib.Kotlin Lib.Transition

structure HistoryViewModel where
  testRecords : List TestRecord := []
  sortByScore : Bool := false

/-- The two sort calls of the handlers. -/
def sortRecords (sortByScore : Bool) (records : List TestRecord) : List TestRecord :=
  if sortByScore then
    sortedByDescending TestRecord.score records
  else
    sortedByDescending TestRecord.timestamp records

/-- In descending order of the key that the mode selects. -/
def Descending (sortByScore : Bool) (records : List TestRecord) : Prop :=
  if sortByScore then
    records.Pairwise fun earlier later => later.score ≤ earlier.score
  else
    records.Pairwise fun earlier later => later.timestamp ≤ earlier.timestamp

theorem sortRecords_perm (sortByScore : Bool) (records : List TestRecord) :
    (sortRecords sortByScore records).Perm records := by
  unfold sortRecords
  split <;> exact sortedByDescending_perm _ _

theorem sortRecords_descending (sortByScore : Bool) (records : List TestRecord) :
    Descending sortByScore (sortRecords sortByScore records) := by
  unfold Descending sortRecords
  split <;> exact sortedByDescending_pairwise _ _

/-- Where the collector is in its handler. -/
inductive CollectorPhase where
  | waiting
  | received (records : List TestRecord)
  | modeRead (records : List TestRecord) (sortByScore : Bool)

/-- Where `toggleSortOrder` is, after each of its accesses. -/
inductive TogglePhase where
  | idle
  | modeRead (sortByScore : Bool)
  | modeWritten
  | modeReadAgain (sortByScore : Bool)
  | listRead (sortByScore : Bool) (records : List TestRecord)

structure History where
  viewModel : HistoryViewModel := {}
  collector : CollectorPhase := .waiting
  toggle : TogglePhase := .idle
  /-- The list that was emitted last, empty before the first emission. -/
  emitted : List TestRecord := []

inductive HistoryEvent where
  | emit (records : List TestRecord)
  | collector
  | toggleSortOrder
  | toggle

namespace History

def emit (history : History) (records : List TestRecord) : Option History :=
  match history.collector with
  | .waiting => some { history with collector := .received records, emitted := records }
  | _ => none

def collectorStep (history : History) : Option History :=
  match history.collector with
  | .waiting => none
  | .received records =>
      some { history with collector := .modeRead records history.viewModel.sortByScore }
  | .modeRead records sortByScore =>
      some { history with
        collector := .waiting
        viewModel.testRecords := sortRecords sortByScore records }

def toggleSortOrder (history : History) : Option History :=
  match history.toggle with
  | .idle => some { history with toggle := .modeRead history.viewModel.sortByScore }
  | _ => none

def toggleStep (history : History) : Option History :=
  match history.toggle with
  | .idle => none
  | .modeRead sortByScore =>
      some { history with toggle := .modeWritten, viewModel.sortByScore := !sortByScore }
  | .modeWritten =>
      some { history with toggle := .modeReadAgain history.viewModel.sortByScore }
  | .modeReadAgain sortByScore =>
      some { history with toggle := .listRead sortByScore history.viewModel.testRecords }
  | .listRead sortByScore records =>
      some { history with
        toggle := .idle
        viewModel.testRecords := sortRecords sortByScore records }

def step (history : History) : HistoryEvent → Option History
  | .emit records => history.emit records
  | .collector => history.collectorStep
  | .toggleSortOrder => history.toggleSortOrder
  | .toggle => history.toggleStep

/-- No handler is in progress. -/
def Quiet (history : History) : Prop := history.collector = .waiting ∧ history.toggle = .idle

/-- The list that is shown is the emitted one, in the selected order. -/
structure ShowsEmitted (history : History) : Prop where
  perm : history.viewModel.testRecords.Perm history.emitted
  descending : Descending history.viewModel.sortByScore history.viewModel.testRecords

/-- A write of the collector that no toggle spoils or sorts again: no toggle
has read the list and is about to write it back, and without a toggle in
progress the mode is still the one that the collector read. -/
def CollectorWritesInTime (history : History) : HistoryEvent → Prop
  | .collector =>
      match history.collector, history.toggle with
      | .modeRead _ sortByScore, .idle => sortByScore = history.viewModel.sortByScore
      | .modeRead _ _, .listRead _ _ => False
      | _, _ => True
  | _ => True

/-- What the handlers have read is still true where it matters. -/
structure Coherent (history : History) : Prop where
  received : ∀ records, history.collector = .received records → history.emitted = records
  collected : ∀ records mode, history.collector = .modeRead records mode →
    history.emitted = records
  waiting : history.collector = .waiting →
    history.viewModel.testRecords.Perm history.emitted
  toggled : ∀ mode, history.toggle = .modeReadAgain mode → mode = history.viewModel.sortByScore
  listed : ∀ mode records, history.toggle = .listRead mode records →
    mode = history.viewModel.sortByScore ∧ records = history.viewModel.testRecords
  quiet : history.Quiet → Descending history.viewModel.sortByScore history.viewModel.testRecords

theorem coherent_emit (history next : History) (records : List TestRecord)
    (coherent : Coherent history) (taken : history.emit records = some next) : Coherent next := by
  obtain ⟨viewModel, collector, toggle, emitted⟩ := history
  cases collector with
  | received => cases taken
  | modeRead => cases taken
  | waiting =>
      cases taken
      refine ⟨?_, nofun, nofun, coherent.toggled, coherent.listed, fun quiet => nomatch quiet.1⟩
      rintro _ ⟨⟩
      rfl

/-- The write of the collector is the only step that needs its condition. -/
theorem coherent_collector (history next : History) (coherent : Coherent history)
    (inTime : history.CollectorWritesInTime .collector)
    (taken : history.collectorStep = some next) : Coherent next := by
  obtain ⟨viewModel, collector, toggle, emitted⟩ := history
  cases collector with
  | waiting => cases taken
  | received records =>
      cases taken
      refine ⟨nofun, ?_, nofun, coherent.toggled, coherent.listed, fun quiet => nomatch quiet.1⟩
      rintro _ _ ⟨⟩
      exact coherent.received records rfl
  | modeRead records mode =>
      cases taken
      obtain rfl : emitted = records := coherent.collected records mode rfl
      refine ⟨nofun, nofun, fun _ => sortRecords_perm mode emitted, coherent.toggled, ?_, ?_⟩
      · rintro other list ⟨⟩
        exact inTime.elim
      · rintro ⟨_, ⟨⟩⟩
        obtain rfl : mode = viewModel.sortByScore := inTime
        exact sortRecords_descending _ emitted

theorem coherent_toggleSortOrder (history next : History) (coherent : Coherent history)
    (taken : history.toggleSortOrder = some next) : Coherent next := by
  obtain ⟨viewModel, collector, toggle, emitted⟩ := history
  cases toggle with
  | idle =>
      cases taken
      exact ⟨coherent.received, coherent.collected, coherent.waiting, nofun, nofun,
        fun quiet => nomatch quiet.2⟩
  | _ => cases taken

theorem coherent_toggle (history next : History) (coherent : Coherent history)
    (taken : history.toggleStep = some next) : Coherent next := by
  obtain ⟨viewModel, collector, toggle, emitted⟩ := history
  cases toggle with
  | idle => cases taken
  | modeRead mode =>
      cases taken
      exact ⟨coherent.received, coherent.collected, coherent.waiting, nofun, nofun,
        fun quiet => nomatch quiet.2⟩
  | modeWritten =>
      cases taken
      refine ⟨coherent.received, coherent.collected, coherent.waiting, ?_, nofun,
        fun quiet => nomatch quiet.2⟩
      rintro _ ⟨⟩
      rfl
  | modeReadAgain mode =>
      cases taken
      refine ⟨coherent.received, coherent.collected, coherent.waiting, nofun, ?_,
        fun quiet => nomatch quiet.2⟩
      rintro _ _ ⟨⟩
      exact ⟨coherent.toggled mode rfl, rfl⟩
  | listRead mode records =>
      cases taken
      obtain ⟨sameMode, sameList⟩ := coherent.listed mode records rfl
      dsimp only at sameMode sameList
      subst sameMode sameList
      refine ⟨coherent.received, coherent.collected, ?_, nofun, nofun, ?_⟩
      · intro idle
        exact (sortRecords_perm _ _).trans (coherent.waiting idle)
      · exact fun _ => sortRecords_descending _ _

theorem coherent_step (history next : History) (event : HistoryEvent)
    (coherent : Coherent history) (inTime : history.CollectorWritesInTime event)
    (taken : history.step event = some next) : Coherent next := by
  cases event with
  | emit records => exact coherent_emit history next records coherent taken
  | collector => exact coherent_collector history next coherent inTime taken
  | toggleSortOrder => exact coherent_toggleSortOrder history next coherent taken
  | toggle => exact coherent_toggle history next coherent taken

theorem coherent_start : Coherent {} := by
  refine ⟨nofun, nofun, fun _ => List.Perm.nil, nofun, nofun, fun _ => ?_⟩
  exact List.Pairwise.nil

/-- In every run in which the collector writes in time, whenever no handler is
in progress the list shown is the emitted one in the selected order. -/
theorem quiet_showsEmitted (events : List HistoryEvent) (history : History)
    (inTime : Along step CollectorWritesInTime {} events)
    (run : runEvents step {} events = some history) (quiet : history.Quiet) :
    ShowsEmitted history := by
  have coherent : Coherent history := by
    apply runEvents_invariant step Coherent CollectorWritesInTime ?_ events {} history
      coherent_start inTime run
    intro state event next holds allowed taken
    exact coherent_step state next event holds allowed taken
  exact ⟨coherent.waiting quiet.1, coherent.quiet quiet⟩

/-! ## An emission between the two list accesses of a toggle -/

def oldRecord : TestRecord := { id := 1, timestamp := 100, score := 900 }
def newRecord : TestRecord := { id := 2, timestamp := 200, score := 300 }

/-- The collector writes with an old mode before a toggle reads the list. -/
def resortedRun : List HistoryEvent :=
  [.emit [newRecord, oldRecord], .collector, .toggleSortOrder, .toggle, .collector, .toggle,
    .toggle, .toggle]

theorem resortedRun_showsEmitted :
    ∃ history, runEvents step {} resortedRun = some history ∧ history.Quiet ∧
      history.viewModel.sortByScore = true ∧ ShowsEmitted history := by
  have inTime : Along step CollectorWritesInTime {} resortedRun := by
    simp [resortedRun, Along, step, emit, collectorStep, toggleSortOrder, toggleStep,
      CollectorWritesInTime]
  exact ⟨_, rfl, ⟨rfl, rfl⟩, rfl, quiet_showsEmitted resortedRun _ inTime rfl ⟨rfl, rfl⟩⟩

/-- A new record is emitted after the toggle has read the list. -/
def spoiltRun : List HistoryEvent :=
  [.emit [oldRecord], .collector, .collector, .toggleSortOrder, .toggle, .toggle, .toggle,
    .emit [newRecord, oldRecord], .collector, .collector, .toggle]

/-- The toggle writes the old list back, and the new record is not shown. -/
theorem spoiltRun_loses_record :
    ∃ history, runEvents step {} spoiltRun = some history ∧ history.Quiet ∧
      history.emitted = [newRecord, oldRecord] ∧
      history.viewModel.testRecords = [oldRecord] ∧ ¬ShowsEmitted history := by
  have shown : sortRecords true (sortRecords false [oldRecord]) = [oldRecord] := by
    simp [sortRecords, sortedByDescending]
  refine ⟨_, rfl, ⟨rfl, rfl⟩, rfl, shown, fun shows => ?_⟩
  have lengths : (sortRecords true (sortRecords false [oldRecord])).length = 2 :=
    shows.perm.length_eq
  rw [shown] at lengths
  cases lengths

end History

end RaptorMark
