import RaptorMark.ViewModels.RecordedResults

/-!
# The recorded score

The score of a record is summed over the long-lived test items while its
results come from the block's own record.  The two agree as long as no item
without an entry still holds a result that counts.
-/

set_option autoImplicit false

namespace RaptorMark.App

open Lib Lib.Kotlin Lib.Transition

variable (json : OrgJson)

/-- The results of a record as `parseResult` reads them back. -/
def parsedResults (results : Results) (testCase : TestCase) : Option TestResult :=
  (results testCase).bind fun raw => (parseResult json raw).toOption.join

/-- The score is the integer part of the weighted sum over the record's own
entries, within the range of its type `Int`. -/
def ScoreExplained (record : TestRecord) : Prop :=
  record.score.toInt = saturate intMin intMax
    (integerPart (weightedScore (parsedResults json record.results)))

instance (record : TestRecord) : Decidable (ScoreExplained json record) :=
  inferInstanceAs (Decidable (_ = _))

/-- The block whose score the native thread computes next. -/
def scoring (app : App) : Option Run :=
  match app.current with
  | some (run, .testing []) => some run
  | _ => none

/-- When the score is computed, every test item without an entry in the block's
record holds no result, or one whose weighted score is zero. -/
def NoStaleResult (app : App) : Event → Prop
  | .native (.score _) =>
      ∀ run ∈ app.scoring, ∀ testCase ∈ TestCase.entries, run.results testCase = none →
        testCase.weight * (app.shown run.owner testCase).elim 0 TestResult.calculateScore = 0
  | _ => True

instance decidableNoStaleResult (app : App) : ∀ event, Decidable (NoStaleResult app event)
  | .native (.score _) =>
      inferInstanceAs (Decidable (∀ run ∈ app.scoring, ∀ testCase ∈ TestCase.entries, _ → _ = _))
  | .native .dequeue => isTrue trivial
  | .native (.test _) => isTrue trivial
  | .native .resetForceStop => isTrue trivial
  | .native .resetRunning => isTrue trivial
  | .onTestStart _ => isTrue trivial
  | .onTestStop _ => isTrue trivial

theorem weightedScore_congr (left right : TestCase → Option TestResult)
    (same : ∀ testCase,
      testCase.weight * (left testCase).elim 0 TestResult.calculateScore =
        testCase.weight * (right testCase).elim 0 TestResult.calculateScore) :
    weightedScore left = weightedScore right := by
  unfold weightedScore
  rw [List.map_congr_left fun testCase _ => same testCase]

/-- Recorded entries count as shown, the others do not count. -/
theorem weightedScore_shown (app : App) (run : Run)
    (recorded : RunRecorded json app.world run [])
    (noStale : ∀ testCase ∈ TestCase.entries, run.results testCase = none →
      testCase.weight * (app.shown run.owner testCase).elim 0 TestResult.calculateScore = 0) :
    weightedScore (app.shown run.owner) = weightedScore (parsedResults json run.results) := by
  apply weightedScore_congr
  intro testCase
  cases entry : run.results testCase with
  | none =>
      rw [noStale testCase (TestCase.mem_entries testCase) entry]
      simp [parsedResults, entry]
  | some raw =>
      have parsed := (recorded testCase raw entry).2.2
      have same : parsedResults json run.results testCase = app.shown run.owner testCase := by
        simp [parsedResults, entry, parsed, Except.toOption, shown]
      rw [same]

theorem scoreExplained_step (app next : App) (event : Event)
    (recorded : RecordedInvariant json app) (condition : NoStaleResult app event)
    (explained : ∀ launch ∈ app.launches, ScoreExplained json launch.record)
    (taken : app.step json event = some next) :
    ∀ launch ∈ next.launches, ScoreExplained json launch.record := by
  cases event with
  | onTestStart owner => cases taken; exact explained
  | onTestStop owner => cases taken; exact explained
  | native action =>
      intro launch member
      rcases mem_launches_native (nativeStep_taken json app next action taken) launch member with
        old | ⟨run, now, rfl, position, _, results, score, _⟩
      · exact explained launch old
      · have scored : run ∈ app.scoring := by simp [scoring, position]
        have sum := weightedScore_shown json app run
          (recorded.recorded run [] position) (condition run scored)
        unfold ScoreExplained
        rw [results, score, ← sum]
        exact doubleToInt_toInt _

/-- In every run in which no score is computed over a stale result, every
record handed over for insertion carries the score of its own results. -/
theorem launched_score_explained (filePath : TestRef → String) (files : Finset String)
    (events : List Event) (app : App)
    (noStale : Along (step json) NoStaleResult (start filePath files) events)
    (run : runEvents (step json) (start filePath files) events = some app) :
    ∀ launch ∈ app.launches, ScoreExplained json launch.record := by
  have both := runEvents_invariant (step json)
    (fun app => RecordedInvariant json app ∧
      ∀ launch ∈ app.launches, ScoreExplained json launch.record)
    NoStaleResult
    (fun before event next invariant condition taken =>
      ⟨recordedInvariant_step json before next event invariant.1 taken,
        scoreExplained_step json before next event invariant.1 condition invariant.2 taken⟩)
    events _ app ⟨recordedInvariant_start json filePath files, by simp [start]⟩ noStale run
  exact both.2

theorem stoppedRun_score_explained :
    ∃ app, runEvents (step sampleJson) sampleStart
        (stoppedRun [silentOutcome, silentOutcome, reportOutcome]) = some app ∧
      app.launches.map (fun launch => launch.record.score) = [1000] ∧
      ∀ launch ∈ app.launches, ScoreExplained sampleJson launch.record := by
  have evaluated : (runEvents (step sampleJson) sampleStart
      (stoppedRun [silentOutcome, silentOutcome, reportOutcome])).map
        (fun app => app.launches.map fun launch => launch.record.score) = some [1000] := by
    decide +kernel
  obtain ⟨app, run, scores⟩ := Option.map_eq_some_iff.mp evaluated
  exact ⟨app, run, scores,
    launched_score_explained sampleJson _ _ _ app (by decide +kernel) run⟩

/-- A second run stopped before its first test records no result and still the
score of the first one. -/
theorem stale_score_recorded :
    ∃ app launch,
      runEvents (step sampleJson) sampleStart
        (stoppedRun [silentOutcome, silentOutcome, reportOutcome] ++ stoppedRun []) = some app ∧
      launch ∈ app.launches ∧ TestCase.entries.map launch.record.results =
        List.replicate TestCase.entries.length none ∧
      launch.record.score = 1000 ∧ ¬ScoreExplained sampleJson launch.record := by
  have evaluated : (runEvents (step sampleJson) sampleStart
      (stoppedRun [silentOutcome, silentOutcome, reportOutcome] ++ stoppedRun [])).map
        (fun app => app.launches.map fun launch =>
          (TestCase.entries.map launch.record.results, launch.record.score,
            decide (ScoreExplained sampleJson launch.record))) =
      some [(TestCase.entries.map fun testCase =>
          if testCase = .q1t1RandRd then some sampleReport else none, 1000, true),
        (List.replicate TestCase.entries.length none, 1000, false)] := by
    decide +kernel
  obtain ⟨app, run, launches⟩ := Option.map_eq_some_iff.mp evaluated
  have second : (List.replicate TestCase.entries.length none, (1000 : Int32), false) ∈
      app.launches.map fun launch =>
        (TestCase.entries.map launch.record.results, launch.record.score,
          decide (ScoreExplained sampleJson launch.record)) := by
    rw [launches]
    exact List.mem_cons_of_mem _ (List.mem_singleton_self _)
  obtain ⟨launch, member, same⟩ := List.mem_map.mp second
  simp only [Prod.mk.injEq, decide_eq_false_iff_not] at same
  obtain ⟨results, score, unexplained⟩ := same
  exact ⟨app, launch, run, member, results, score, unexplained⟩

end RaptorMark.App
