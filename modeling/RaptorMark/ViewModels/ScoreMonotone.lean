import Mathlib.Algebra.BigOperators.Ring.List
import RaptorMark.Data.ReportSummary
import RaptorMark.ViewModels.RecordedResults

/-!
# The score as a function of the reported IOPS

Two complete runs, one report for each test case.  Every stage of the score is
monotone in the totals of the reports except one: `calculateScore` of a mixed
test adds two `Int`s, and the sum of two large ones wraps to a negative number.
The score is monotone below a run exactly if that addition wraps for none of
its mixed tests.
-/

set_option autoImplicit false

namespace RaptorMark

open Lib Lib.Kotlin Lib.Transition

/-- `parseResult` on a text that `org.json` reads as this report. -/
def parseReport (json : OrgJson) (report : JSONObject) :
    Except JavaException (Option TestResult) :=
  parseResult { json with parse := fun _ => some report } ""

theorem parseResult_eq_parseReport (json : OrgJson) (text : String) (report : JSONObject)
    (parsed : json.parse text = some report) : parseResult json text = parseReport json report := by
  have object : json.jsonObject text = .ok report := by
    rw [OrgJson.jsonObject, parsed]
  unfold parseReport parseResult
  rw [object]
  rfl

/-- The reports of a run in which every test case was reported. -/
structure CompleteRun (json : OrgJson) where
  report : TestCase → JSONObject
  jobs : TestCase → List JsonValue
  figures : TestCase → List JobFigures
  array : ∀ testCase, OrgJson.getJSONArray (report testCase) "jobs" = .ok (jobs testCase)
  nonempty : ∀ testCase, jobs testCase ≠ []
  read : ∀ testCase, JobsRead json testCase (jobs testCase) (figures testCase)

namespace CompleteRun

variable {json : OrgJson}

def testResult (run : CompleteRun json) (testCase : TestCase) : Option TestResult :=
  (parseReport json (run.report testCase)).toOption.join

/-- The score that `onTestStart` computes. -/
def score (run : CompleteRun json) : Int32 := doubleToInt (weightedScore run.testResult)

def rdTotal (run : CompleteRun json) (testCase : TestCase) : ℚ :=
  ((run.figures testCase).map JobFigures.rdIoPerSec).sum

def wrTotal (run : CompleteRun json) (testCase : TestCase) : ℚ :=
  ((run.figures testCase).map JobFigures.wrIoPerSec).sum

structure NonNegative (run : CompleteRun json) : Prop where
  rd : ∀ testCase, 0 ≤ run.rdTotal testCase
  wr : ∀ testCase, 0 ≤ run.wrTotal testCase

/-- No total of the first run exceeds that of the second. -/
structure AtMost (first second : CompleteRun json) : Prop where
  rd : ∀ testCase, first.rdTotal testCase ≤ second.rdTotal testCase
  wr : ∀ testCase, first.wrTotal testCase ≤ second.wrTotal testCase

/-- The two truncated and saturated totals of a mixed test can be added. -/
def MixSumsFit (run : CompleteRun json) : Prop :=
  ∀ testCase, testCase.isMixRw = true →
    min (integerPart (run.rdTotal testCase)) intMax +
      min (integerPart (run.wrTotal testCase)) intMax ≤ intMax

end CompleteRun

/-! ## The score of a block -/

namespace App

variable (json : OrgJson)

theorem launched_score_shown (filePath : TestRef → String) (files : Finset String)
    (events : List Event) (app : App)
    (reached : runEvents (step json) (start filePath files) events = some app) :
    ∀ launch ∈ app.launches,
      launch.record.score = doubleToInt (weightedScore launch.shown) := by
  refine runEvents_invariant (step json)
    (fun app => ∀ launch ∈ app.launches,
      launch.record.score = doubleToInt (weightedScore launch.shown))
    (fun _ _ => True) ?_ events _ app (by simp [start])
    (along_of_forall (step json) (fun _ _ => trivial) events _) reached
  intro before event next scored _ taken
  cases event with
  | onTestStart owner => cases taken; exact scored
  | onTestStop owner => cases taken; exact scored
  | native action =>
      intro launch member
      rcases mem_launches_native (nativeStep_taken json before next action taken) launch member with
        old | ⟨run, now, rfl, _, _, _, score, shown⟩
      · exact scored launch old
      · rw [score, shown]

/-- A record with a text for every test case carries the score of the complete
run that these texts report. -/
theorem launched_score_completeRun (filePath : TestRef → String) (files : Finset String)
    (events : List Event) (app : App)
    (reached : runEvents (step json) (start filePath files) events = some app)
    (launch : Launch) (member : launch ∈ app.launches) (run : CompleteRun json)
    (texts : TestCase → String)
    (recorded : ∀ testCase, launch.record.results testCase = some (texts testCase))
    (parsed : ∀ testCase, json.parse (texts testCase) = some (run.report testCase)) :
    launch.record.score = run.score := by
  have invariant := recordedInvariant_run json filePath files events app reached
  have shown : launch.shown = run.testResult := by
    funext testCase
    have read := invariant.launched launch member testCase (texts testCase) (recorded testCase)
    rw [parseResult_eq_parseReport json _ _ (parsed testCase)] at read
    rw [CompleteRun.testResult, read]
    rfl
  rw [launched_score_shown json filePath files events app reached launch member, shown,
    CompleteRun.score]

end App

/-! ## One test case -/

/-- `calculateScore` of a test case by its totals. -/
def caseScore (testCase : TestCase) (rd wr : ℚ) : ℚ :=
  if testCase.isSeqRw then 0
  else if testCase.isRandRw then (doubleToInt (rd + wr)).toInt * 0.25
  else (doubleToInt rd + doubleToInt wr).toInt * 0.5

theorem calculateScore_summary (testCase : TestCase) (figures : List JobFigures) :
    (summary testCase figures).calculateScore =
      caseScore testCase (figures.map JobFigures.rdIoPerSec).sum
        (figures.map JobFigures.wrIoPerSec).sum := by
  unfold summary caseScore
  dsimp only
  split
  · rfl
  · split
    · rfl
    · rfl

theorem CompleteRun.testResult_eq {json : OrgJson} (run : CompleteRun json) (testCase : TestCase) :
    run.testResult testCase = some (summary testCase (run.figures testCase)) := by
  have parsed := parseResult_report { json with parse := fun _ => some (run.report testCase) }
    testCase "" (run.report testCase) (run.jobs testCase) (run.figures testCase) rfl
    (run.array testCase) (run.nonempty testCase) (run.read testCase)
  unfold CompleteRun.testResult parseReport
  rw [parsed]
  rfl

theorem saturated_of_nonneg (value : ℚ) (nonneg : 0 ≤ value) :
    (doubleToInt value).toInt = min (integerPart value) intMax := by
  have part := integerPart_nonneg value nonneg
  rw [doubleToInt_toInt]
  unfold saturate intMin intMax
  omega

theorem mix_sum_of_fit (rd wr : ℚ) (rdNonneg : 0 ≤ rd) (wrNonneg : 0 ≤ wr)
    (fits : min (integerPart rd) intMax + min (integerPart wr) intMax ≤ intMax) :
    (doubleToInt rd + doubleToInt wr).toInt =
      (doubleToInt rd).toInt + (doubleToInt wr).toInt := by
  apply int32_toInt_add
  · exact doubleToInt_nonneg rd rdNonneg
  · exact doubleToInt_nonneg wr wrNonneg
  · rw [saturated_of_nonneg rd rdNonneg, saturated_of_nonneg wr wrNonneg]
    exact fits

/-- Past the fit the 32-bit sum is negative. -/
theorem mix_sum_of_overflow (rd wr : ℚ) (rdNonneg : 0 ≤ rd) (wrNonneg : 0 ≤ wr)
    (overflow : intMax < min (integerPart rd) intMax + min (integerPart wr) intMax) :
    (doubleToInt rd + doubleToInt wr).toInt < 0 := by
  have rdPart := saturated_of_nonneg rd rdNonneg
  have wrPart := saturated_of_nonneg wr wrNonneg
  have rdLow := integerPart_nonneg rd rdNonneg
  have wrLow := integerPart_nonneg wr wrNonneg
  rw [Int32.toInt_add, rdPart, wrPart]
  unfold intMax at overflow ⊢
  rw [Int.bmod_eq_emod]
  split <;> omega

theorem caseScore_mono (testCase : TestCase) (rd wr rd' wr' : ℚ) (rdNonneg : 0 ≤ rd)
    (wrNonneg : 0 ≤ wr) (rdLe : rd ≤ rd') (wrLe : wr ≤ wr')
    (fits : testCase.isMixRw = true →
      min (integerPart rd') intMax + min (integerPart wr') intMax ≤ intMax) :
    0 ≤ caseScore testCase rd wr ∧
      caseScore testCase rd wr ≤ caseScore testCase rd' wr' := by
  unfold caseScore
  rcases kind_cases testCase with ⟨isSeq, isRand, isMix⟩ | ⟨isSeq, isRand, isMix⟩ |
    ⟨isSeq, isRand, isMix⟩
  all_goals
    simp only [isSeq, isRand, if_true, if_false, Bool.false_eq_true]
  · exact ⟨le_rfl, le_rfl⟩
  · have low : (0 : ℚ) ≤ (doubleToInt (rd + wr)).toInt := by
      exact_mod_cast doubleToInt_nonneg _ (add_nonneg rdNonneg wrNonneg)
    have step : ((doubleToInt (rd + wr)).toInt : ℚ) ≤ (doubleToInt (rd' + wr')).toInt := by
      exact_mod_cast doubleToInt_mono (add_le_add rdLe wrLe)
    constructor <;> linarith
  · have largeFits := fits isMix
    have rdSmaller := integerPart_mono rdLe
    have wrSmaller := integerPart_mono wrLe
    have smallFits : min (integerPart rd) intMax + min (integerPart wr) intMax ≤ intMax := by
      omega
    rw [mix_sum_of_fit rd wr rdNonneg wrNonneg smallFits,
      mix_sum_of_fit rd' wr' (rdNonneg.trans rdLe) (wrNonneg.trans wrLe) largeFits]
    have low : (0 : ℚ) ≤ ((doubleToInt rd).toInt + (doubleToInt wr).toInt : ℤ) := by
      exact_mod_cast add_nonneg (doubleToInt_nonneg rd rdNonneg) (doubleToInt_nonneg wr wrNonneg)
    have step : (((doubleToInt rd).toInt + (doubleToInt wr).toInt : ℤ) : ℚ) ≤
        ((doubleToInt rd').toInt + (doubleToInt wr').toInt : ℤ) := by
      exact_mod_cast add_le_add (doubleToInt_mono rdLe) (doubleToInt_mono wrLe)
    constructor <;> linarith

/-! ## The weighted sum -/

theorem weight_nonneg (testCase : TestCase) : 0 ≤ testCase.weight := by
  cases testCase <;> norm_num [TestCase.weight, TestCase.parameters]

theorem weight_of_mix (testCase : TestCase) (mix : testCase.isMixRw = true) :
    1 / 15 ≤ testCase.weight := by
  revert mix
  cases testCase <;>
    first | exact fun mix => absurd mix (by decide)
          | exact fun _ => by norm_num [TestCase.weight, TestCase.parameters]

/-- Integer part and value differ by less than one. -/
theorem integerPart_near (value : ℚ) :
    value - 1 < integerPart value ∧ (integerPart value : ℚ) < value + 1 := by
  by_cases nonneg : 0 ≤ value
  · rw [integerPart_of_nonneg value nonneg]
    constructor
    · linarith [Int.lt_floor_add_one value]
    · linarith [Int.floor_le value]
  · have part : integerPart value = -⌊-value⌋ := by
      rw [← integerPart_of_nonneg (-value) (by linarith), integerPart_neg, neg_neg]
    rw [part]
    push_cast
    constructor
    · linarith [Int.floor_le (-value)]
    · linarith [Int.lt_floor_add_one (-value)]

/-- What one point of a figure adds to the score of a test case. -/
def scoreFactor (testCase : TestCase) : ℚ :=
  if testCase.isSeqRw then 0 else if testCase.isRandRw then 0.25 else 0.5

theorem scoreFactor_nonneg (testCase : TestCase) : 0 ≤ scoreFactor testCase := by
  unfold scoreFactor
  split
  · exact le_rfl
  · split <;> norm_num

theorem scoreFactor_total :
    (TestCase.entries.map fun testCase => testCase.weight * scoreFactor testCase).sum = 1 := by
  decide +kernel

theorem caseScore_eq_factor (testCase : TestCase) (rd wr : ℚ) :
    ∃ figure : Int32, caseScore testCase rd wr = figure.toInt * scoreFactor testCase := by
  unfold caseScore scoreFactor
  split
  · exact ⟨0, by simp⟩
  · split
    · exact ⟨_, rfl⟩
    · exact ⟨_, rfl⟩

theorem caseScore_bounds (testCase : TestCase) (rd wr : ℚ) :
    -2147483648 * scoreFactor testCase ≤ caseScore testCase rd wr ∧
      caseScore testCase rd wr ≤ 2147483647 * scoreFactor testCase := by
  obtain ⟨figure, score⟩ := caseScore_eq_factor testCase rd wr
  have low : (-2147483648 : ℚ) ≤ figure.toInt := by exact_mod_cast figure.le_toInt
  have high : (figure.toInt : ℚ) ≤ 2147483647 := by
    exact_mod_cast Int.le_of_lt_add_one figure.toInt_lt
  rw [score]
  exact ⟨mul_le_mul_of_nonneg_right low (scoreFactor_nonneg testCase),
    mul_le_mul_of_nonneg_right high (scoreFactor_nonneg testCase)⟩

/-- Two values in range that are far enough apart convert to different numbers. -/
theorem doubleToInt_lt (small large : ℚ) (apart : small + 2 ≤ large) (low : -2147483648 ≤ small)
    (high : large ≤ 2147483647) : (doubleToInt small).toInt < (doubleToInt large).toInt := by
  obtain ⟨_, smallNear⟩ := integerPart_near small
  obtain ⟨largeNear, _⟩ := integerPart_near large
  have less : integerPart small < integerPart large := by
    have compared : (integerPart small : ℚ) < integerPart large := by linarith
    exact_mod_cast compared
  have smallLow : intMin ≤ integerPart small := by
    have whole : integerPart (-2147483648) = intMin := by decide +kernel
    rw [← whole]
    exact integerPart_mono low
  have largeHigh : integerPart large ≤ intMax := by
    have whole : integerPart 2147483647 = intMax := by decide +kernel
    rw [← whole]
    exact integerPart_mono high
  rw [doubleToInt_toInt, doubleToInt_toInt, saturate_of_mem smallLow (by omega),
    saturate_of_mem (by omega) largeHigh]
  exact less

namespace CompleteRun

variable {json : OrgJson}

theorem weightedScore_eq (run : CompleteRun json) :
    weightedScore run.testResult = (TestCase.entries.map fun testCase =>
      testCase.weight *
        caseScore testCase (run.rdTotal testCase) (run.wrTotal testCase)).sum := by
  unfold weightedScore
  rw [List.sum_eq_foldl]
  congr 1
  apply List.map_congr_left
  intro testCase _
  rw [run.testResult_eq testCase, Option.elim_some, calculateScore_summary]
  rfl

theorem weightedScore_bounds (run : CompleteRun json) :
    -2147483648 ≤ weightedScore run.testResult ∧ weightedScore run.testResult ≤ 2147483647 := by
  have scaled : ∀ bound : ℚ, (TestCase.entries.map fun testCase =>
      testCase.weight * (bound * scoreFactor testCase)).sum = bound := by
    intro bound
    have pulled : (fun testCase : TestCase => testCase.weight * (bound * scoreFactor testCase)) =
        fun testCase => bound * (testCase.weight * scoreFactor testCase) := by
      funext testCase
      ring
    rw [pulled, List.sum_map_mul_left, scoreFactor_total, mul_one]
  rw [weightedScore_eq]
  constructor
  · rw [← scaled (-2147483648)]
    apply List.sum_le_sum
    intro testCase _
    exact mul_le_mul_of_nonneg_left (caseScore_bounds testCase _ _).1 (weight_nonneg testCase)
  · rw [← scaled 2147483647]
    apply List.sum_le_sum
    intro testCase _
    exact mul_le_mul_of_nonneg_left (caseScore_bounds testCase _ _).2 (weight_nonneg testCase)

theorem score_le (first second : CompleteRun json) (nonneg : first.NonNegative)
    (atMost : first.AtMost second) (fit : second.MixSumsFit) :
    0 ≤ first.score.toInt ∧ first.score.toInt ≤ second.score.toInt := by
  have each : ∀ testCase,
      0 ≤ caseScore testCase (first.rdTotal testCase) (first.wrTotal testCase) ∧
        caseScore testCase (first.rdTotal testCase) (first.wrTotal testCase) ≤
          caseScore testCase (second.rdTotal testCase) (second.wrTotal testCase) :=
    fun testCase => caseScore_mono testCase _ _ _ _ (nonneg.rd testCase) (nonneg.wr testCase)
      (atMost.rd testCase) (atMost.wr testCase) (fit testCase)
  constructor
  · apply doubleToInt_nonneg
    rw [weightedScore_eq]
    apply List.sum_nonneg
    intro value member
    obtain ⟨testCase, _, rfl⟩ := List.mem_map.mp member
    exact mul_nonneg (weight_nonneg testCase) (each testCase).1
  · apply doubleToInt_mono
    rw [weightedScore_eq, weightedScore_eq]
    apply List.sum_le_sum
    intro testCase _
    exact mul_le_mul_of_nonneg_left (each testCase).2 (weight_nonneg testCase)

/-! ## A wrapped sum is below a smaller run -/

/-- The figures of a job with these two totals and nothing else. -/
def plainJob (rd wr : ℚ) : JobFigures := ⟨0, 0, rd, wr, 0, 0⟩

/-- The same run with another report for one test case. -/
def replaced (run : CompleteRun json) (changed : TestCase) (rd wr : ℚ) : CompleteRun json where
  report := fun testCase =>
    if testCase = changed then reportTree testCase [plainJob rd wr] else run.report testCase
  jobs := fun testCase =>
    if testCase = changed then [jobValue testCase.name (plainJob rd wr)] else run.jobs testCase
  figures := fun testCase =>
    if testCase = changed then [plainJob rd wr] else run.figures testCase
  array := by
    intro testCase
    split
    · rfl
    · exact run.array testCase
  nonempty := by
    intro testCase
    split
    · exact List.cons_ne_nil _ _
    · exact run.nonempty testCase
  read := by
    intro testCase
    split
    · exact jobsRead_reportTree json testCase [plainJob rd wr]
    · exact run.read testCase

theorem replaced_rdTotal (run : CompleteRun json) (changed testCase : TestCase) (rd wr : ℚ) :
    (run.replaced changed rd wr).rdTotal testCase =
      if testCase = changed then rd else run.rdTotal testCase := by
  unfold rdTotal replaced
  dsimp only
  split
  · simp [plainJob]
  · rfl

theorem replaced_wrTotal (run : CompleteRun json) (changed testCase : TestCase) (rd wr : ℚ) :
    (run.replaced changed rd wr).wrTotal testCase =
      if testCase = changed then wr else run.wrTotal testCase := by
  unfold wrTotal replaced
  dsimp only
  split
  · simp [plainJob]
  · rfl

theorem caseScore_mix (testCase : TestCase) (mix : testCase.isMixRw = true) (rd wr : ℚ) :
    caseScore testCase rd wr = (doubleToInt rd + doubleToInt wr).toInt * 0.5 := by
  rcases kind_cases testCase with ⟨_, _, other⟩ | ⟨_, _, other⟩ | ⟨isSeq, isRand, _⟩
  · rw [mix] at other
    cases other
  · rw [mix] at other
    cases other
  · simp [caseScore, isSeq, isRand]

/-- Where the sum of a mixed test wraps, its larger total alone scores far more
than both together. -/
theorem caseScore_overflow (testCase : TestCase) (mix : testCase.isMixRw = true) (rd wr : ℚ)
    (rdNonneg : 0 ≤ rd) (wrNonneg : 0 ≤ wr)
    (overflow : intMax < min (integerPart rd) intMax + min (integerPart wr) intMax) :
    ∃ rd' wr', 0 ≤ rd' ∧ rd' ≤ rd ∧ 0 ≤ wr' ∧ wr' ≤ wr ∧
      caseScore testCase rd wr + 30 ≤ caseScore testCase rd' wr' := by
  have wrapped := mix_sum_of_overflow rd wr rdNonneg wrNonneg overflow
  have wrappedCast : ((doubleToInt rd + doubleToInt wr).toInt : ℚ) ≤ -1 := by
    exact_mod_cast Int.le_sub_one_of_lt wrapped
  have zeroPart : integerPart 0 = 0 := by decide
  have zero : (doubleToInt 0).toInt = 0 := by decide
  have rdPart := saturated_of_nonneg rd rdNonneg
  have wrPart := saturated_of_nonneg wr wrNonneg
  rcases le_total (integerPart wr) (integerPart rd) with larger | larger
  · refine ⟨rd, 0, rdNonneg, le_rfl, le_rfl, wrNonneg, ?_⟩
    have sum := mix_sum_of_fit rd 0 rdNonneg le_rfl (by rw [zeroPart]; unfold intMax; omega)
    have large : (1073741824 : ℚ) ≤ (doubleToInt rd + doubleToInt 0).toInt := by
      rw [sum, zero, rdPart]
      unfold intMax at overflow ⊢
      exact_mod_cast (by omega : (1073741824 : ℤ) ≤ min (integerPart rd) 2147483647 + 0)
    rw [caseScore_mix testCase mix, caseScore_mix testCase mix]
    linarith
  · refine ⟨0, wr, le_rfl, rdNonneg, wrNonneg, le_rfl, ?_⟩
    have sum := mix_sum_of_fit 0 wr le_rfl wrNonneg (by rw [zeroPart]; unfold intMax; omega)
    have large : (1073741824 : ℚ) ≤ (doubleToInt 0 + doubleToInt wr).toInt := by
      rw [sum, zero, wrPart]
      unfold intMax at overflow ⊢
      exact_mod_cast (by omega : (1073741824 : ℤ) ≤ 0 + min (integerPart wr) 2147483647)
    rw [caseScore_mix testCase mix, caseScore_mix testCase mix]
    linarith

theorem indicator_total (changed : TestCase) :
    (TestCase.entries.map fun testCase => if testCase = changed then (2 : ℚ) else 0).sum = 2 := by
  rw [List.sum_map_eq_nsmul_single changed _ fun other different _ => if_neg different,
    List.count_eq_one_of_mem TestCase.entries_nodup (TestCase.mem_entries changed)]
  simp

theorem replaced_nonNegative (run : CompleteRun json) (changed : TestCase) (rd wr : ℚ)
    (nonneg : run.NonNegative) (rdNonneg : 0 ≤ rd) (wrNonneg : 0 ≤ wr) :
    (run.replaced changed rd wr).NonNegative := by
  constructor
  · intro testCase
    rw [replaced_rdTotal]
    split
    · exact rdNonneg
    · exact nonneg.rd testCase
  · intro testCase
    rw [replaced_wrTotal]
    split
    · exact wrNonneg
    · exact nonneg.wr testCase

theorem replaced_atMost (run : CompleteRun json) (changed : TestCase) (rd wr : ℚ)
    (rdLe : rd ≤ run.rdTotal changed) (wrLe : wr ≤ run.wrTotal changed) :
    (run.replaced changed rd wr).AtMost run := by
  constructor
  · intro testCase
    rw [replaced_rdTotal]
    split
    · rename_i same
      rw [same]
      exact rdLe
    · exact le_rfl
  · intro testCase
    rw [replaced_wrTotal]
    split
    · rename_i same
      rw [same]
      exact wrLe
    · exact le_rfl

/-- What a mixed test gains by the replacement counts in the weighted sum. -/
theorem weightedScore_replaced (run : CompleteRun json) (changed : TestCase)
    (mix : changed.isMixRw = true) (rd wr : ℚ)
    (gain : caseScore changed (run.rdTotal changed) (run.wrTotal changed) + 30 ≤
      caseScore changed rd wr) :
    weightedScore run.testResult + 2 ≤ weightedScore (run.replaced changed rd wr).testResult := by
  rw [weightedScore_eq, weightedScore_eq, ← indicator_total changed, ← List.sum_map_add]
  apply List.sum_le_sum
  intro testCase _
  rw [replaced_rdTotal, replaced_wrTotal]
  by_cases same : testCase = changed
  · subst same
    rw [if_pos rfl, if_pos rfl, if_pos rfl]
    have weight := weight_of_mix testCase mix
    nlinarith
  · rw [if_neg same, if_neg same, if_neg same, add_zero]

/-- Below a run with a wrapped sum there is a run with a higher score. -/
theorem exists_score_lt (second : CompleteRun json) (nonneg : second.NonNegative)
    (overflow : ¬second.MixSumsFit) :
    ∃ first : CompleteRun json, first.NonNegative ∧ first.AtMost second ∧
      second.score.toInt < first.score.toInt := by
  simp only [MixSumsFit, not_forall, not_le, exists_prop] at overflow
  obtain ⟨changed, mix, wraps⟩ := overflow
  obtain ⟨rd, wr, rdNonneg, rdLe, wrNonneg, wrLe, gain⟩ := caseScore_overflow changed mix _ _
    (nonneg.rd changed) (nonneg.wr changed) wraps
  refine ⟨second.replaced changed rd wr,
    second.replaced_nonNegative changed rd wr nonneg rdNonneg wrNonneg,
    second.replaced_atMost changed rd wr rdLe wrLe, ?_⟩
  exact doubleToInt_lt _ _ (second.weightedScore_replaced changed mix rd wr gain)
    (weightedScore_bounds second).1 (weightedScore_bounds (second.replaced changed rd wr)).2

/-- Every run below a complete run scores between zero and it exactly if the
figures of its mixed tests can be added without wrapping. -/
theorem score_monotone_iff (second : CompleteRun json) (nonneg : second.NonNegative) :
    (∀ first : CompleteRun json, first.NonNegative → first.AtMost second →
      0 ≤ first.score.toInt ∧ first.score.toInt ≤ second.score.toInt) ↔ second.MixSumsFit := by
  constructor
  · intro monotone
    by_contra overflow
    obtain ⟨first, firstNonneg, atMost, higher⟩ := second.exists_score_lt nonneg overflow
    exact absurd (monotone first firstNonneg atMost).2 (not_le.mpr higher)
  · intro fit first firstNonneg atMost
    exact first.score_le second firstNonneg atMost fit

/-- The same figures for every test case. -/
def uniform (rd wr : ℚ) : CompleteRun json where
  report := fun testCase => reportTree testCase [plainJob rd wr]
  jobs := fun testCase => [jobValue testCase.name (plainJob rd wr)]
  figures := fun _ => [plainJob rd wr]
  array := fun _ => rfl
  nonempty := fun _ => List.cons_ne_nil _ _
  read := fun testCase => jobsRead_reportTree json testCase [plainJob rd wr]

theorem uniform_rdTotal (rd wr : ℚ) (testCase : TestCase) :
    (uniform rd wr : CompleteRun json).rdTotal testCase = rd := by
  simp [rdTotal, uniform, plainJob]

theorem uniform_wrTotal (rd wr : ℚ) (testCase : TestCase) :
    (uniform rd wr : CompleteRun json).wrTotal testCase = wr := by
  simp [wrTotal, uniform, plainJob]

theorem uniform_nonneg (rd wr : ℚ) (rdNonneg : 0 ≤ rd) (wrNonneg : 0 ≤ wr) :
    (uniform rd wr : CompleteRun json).NonNegative where
  rd := fun testCase => by rw [uniform_rdTotal]; exact rdNonneg
  wr := fun testCase => by rw [uniform_wrTotal]; exact wrNonneg

theorem uniform_score_monotone :
    (uniform 10 5 : CompleteRun twoJobsJson).score.toInt ≤
      (uniform 8000 2000 : CompleteRun twoJobsJson).score.toInt := by
  have fit : (uniform 8000 2000 : CompleteRun twoJobsJson).MixSumsFit := by
    intro testCase _
    rw [uniform_rdTotal, uniform_wrTotal]
    decide +kernel
  refine ((score_monotone_iff _ (uniform_nonneg _ _ (by norm_num) (by norm_num))).mpr fit
    (uniform 10 5) (uniform_nonneg _ _ (by norm_num) (by norm_num)) ⟨?_, ?_⟩).2
  · intro testCase
    rw [uniform_rdTotal, uniform_rdTotal]
    norm_num
  · intro testCase
    rw [uniform_wrTotal, uniform_wrTotal]
    norm_num

/-- One mixed test reports 2147483647 reads and one write per second. -/
def saturatedMix : CompleteRun twoJobsJson := (uniform 0 0).replaced .q1t1Mix9r1w 2147483647 1

/-- An idle run scores zero, the faster one less. -/
theorem saturated_mix_scores_less :
    (uniform 0 0 : CompleteRun twoJobsJson).AtMost saturatedMix ∧ saturatedMix.NonNegative ∧
      (uniform 0 0 : CompleteRun twoJobsJson).score = 0 ∧ saturatedMix.score = -107374182 := by
  refine ⟨⟨?_, ?_⟩, ⟨?_, ?_⟩, by decide +kernel, by decide +kernel⟩
  all_goals
    intro testCase
    simp only [saturatedMix, replaced_rdTotal, replaced_wrTotal, uniform_rdTotal, uniform_wrTotal]
    split <;> norm_num

end CompleteRun

end RaptorMark
