import Mathlib.Algebra.BigOperators.Group.List.Basic
import Mathlib.Algebra.Order.BigOperators.Group.List
import Mathlib.Tactic.FieldSimp
import Mathlib.Tactic.Ring
import RaptorMark.Data.TestCase
import RaptorMark.Data.TestResult
import RaptorMark.Lib.Truncation

/-!
# What a report amounts to

`parseResult` on a report whose jobs all carry the name of one test case.  The
figures of a job are what the getters return for it.  The six accumulators are
sums over the jobs, the name of the first job decides the variant, and both
are the same for every order of the jobs.
-/

set_option autoImplicit false

namespace RaptorMark

open Lib Lib.Kotlin

/-- The figures that `parseResult` reads from one job. -/
structure JobFigures where
  rdBwBytes : Int64
  wrBwBytes : Int64
  rdIoPerSec : ℚ
  wrIoPerSec : ℚ
  rdAvgClatNs : ℚ
  wrAvgClatNs : ℚ

/-- The name and the figures of a job, as the getters return them. -/
def readJob (json : OrgJson) (job : JsonValue) : Except JavaException (String × JobFigures) := do
  let jobObject ← OrgJson.asObject job
  let jobname ← json.getString jobObject "jobname"
  let rdObject ← OrgJson.getJSONObject jobObject "read"
  let rdBwBytes ← json.getLong rdObject "bw_bytes"
  let rdIoPerSec ← json.getDouble rdObject "iops"
  let rdClatObject ← OrgJson.getJSONObject rdObject "clat_ns"
  let rdAvgClatNs ← json.getDouble rdClatObject "mean"
  let wrObject ← OrgJson.getJSONObject jobObject "write"
  let wrBwBytes ← json.getLong wrObject "bw_bytes"
  let wrIoPerSec ← json.getDouble wrObject "iops"
  let wrClatObject ← OrgJson.getJSONObject wrObject "clat_ns"
  let wrAvgClatNs ← json.getDouble wrClatObject "mean"
  return (jobname, { rdBwBytes, wrBwBytes, rdIoPerSec, wrIoPerSec, rdAvgClatNs, wrAvgClatNs })

/-- The jobs of a report, one by one, for one test case. -/
def JobsRead (json : OrgJson) (testCase : TestCase) (jobs : List JsonValue)
    (figures : List JobFigures) : Prop :=
  List.Forall₂ (fun job figure => readJob json job = .ok (testCase.name, figure)) jobs figures

def JobFigures.bwBytes (job : JobFigures) : ℤ := job.rdBwBytes.toInt + job.wrBwBytes.toInt

/-- The jobs' average of a latency, in microseconds. -/
def averageClat (clatNs : JobFigures → ℚ) (figures : List JobFigures) : ℚ :=
  (figures.map clatNs).sum / figures.length / 1000

/-- The accumulators after these jobs. -/
def JobSums.over (jobname : String) (figures : List JobFigures) : JobSums where
  jobsId := some jobname
  sumOfBwBytes := .ofInt (figures.map JobFigures.bwBytes).sum
  sumOfRdIoPerSec := (figures.map JobFigures.rdIoPerSec).sum
  sumOfWrIoPerSec := (figures.map JobFigures.wrIoPerSec).sum
  sumOfRdAvgClatNs := (figures.map JobFigures.rdAvgClatNs).sum
  sumOfWrAvgClatNs := (figures.map JobFigures.wrAvgClatNs).sum

theorem getter_returned {α β : Type} {action : Except JavaException α}
    {next : α → Except JavaException β} {result : β} (run : action >>= next = .ok result) :
    ∃ value, action = .ok value ∧ next value = .ok result := by
  cases action with
  | error exception => cases run
  | ok value => exact ⟨value, rfl, run⟩

/-- One iteration on a job that can be read. -/
theorem addJob_ok (json : OrgJson) (sums : JobSums) (job : JsonValue) (jobname : String)
    (figure : JobFigures) (read : readJob json job = .ok (jobname, figure)) :
    sums.addJob json job = .ok {
      jobsId := if sums.jobsId.getD "" = "" then some jobname else sums.jobsId
      sumOfBwBytes := sums.sumOfBwBytes + figure.rdBwBytes + figure.wrBwBytes
      sumOfRdIoPerSec := sums.sumOfRdIoPerSec + figure.rdIoPerSec
      sumOfWrIoPerSec := sums.sumOfWrIoPerSec + figure.wrIoPerSec
      sumOfRdAvgClatNs := sums.sumOfRdAvgClatNs + figure.rdAvgClatNs
      sumOfWrAvgClatNs := sums.sumOfWrAvgClatNs + figure.wrAvgClatNs } := by
  unfold readJob at read
  obtain ⟨jobObject, object, read⟩ := getter_returned read
  obtain ⟨name, named, read⟩ := getter_returned read
  obtain ⟨rdObject, rd, read⟩ := getter_returned read
  obtain ⟨rdBwBytes, rdBw, read⟩ := getter_returned read
  obtain ⟨rdIoPerSec, rdIops, read⟩ := getter_returned read
  obtain ⟨rdClatObject, rdClat, read⟩ := getter_returned read
  obtain ⟨rdAvgClatNs, rdMean, read⟩ := getter_returned read
  obtain ⟨wrObject, wr, read⟩ := getter_returned read
  obtain ⟨wrBwBytes, wrBw, read⟩ := getter_returned read
  obtain ⟨wrIoPerSec, wrIops, read⟩ := getter_returned read
  obtain ⟨wrClatObject, wrClat, read⟩ := getter_returned read
  obtain ⟨wrAvgClatNs, wrMean, read⟩ := getter_returned read
  obtain ⟨rfl, rfl⟩ := Prod.mk.inj (Except.ok.inj read)
  unfold JobSums.addJob
  rw [object]
  simp only [named, rd, rdBw, rdIops, rdClat, rdMean, wr, wrBw, wrIops, wrClat, wrMean, bind,
    Except.bind]
  split
  · rfl
  · rfl

theorem ofInt_add_bwBytes (total : ℤ) (job : JobFigures) :
    Int64.ofInt total + job.rdBwBytes + job.wrBwBytes = Int64.ofInt (total + job.bwBytes) := by
  rw [JobFigures.bwBytes, ← Int.add_assoc, Int64.ofInt_add, Int64.ofInt_add, Int64.ofInt_toInt,
    Int64.ofInt_toInt]

theorem addJob_over (json : OrgJson) (jobname : String)
    (figures : List JobFigures) (job : JsonValue) (figure : JobFigures)
    (read : readJob json job = .ok (jobname, figure)) :
    (JobSums.over jobname figures).addJob json job =
      .ok (JobSums.over jobname (figures ++ [figure])) := by
  have keepsName : (if (JobSums.over jobname figures).jobsId.getD "" = "" then some jobname
      else (JobSums.over jobname figures).jobsId) = some jobname := ite_self _
  rw [addJob_ok json _ job jobname figure read, keepsName]
  simp only [JobSums.over, ofInt_add_bwBytes, List.map_append, List.map_cons, List.map_nil,
    List.sum_append, List.sum_singleton]

theorem addJob_first (json : OrgJson) (jobname : String) (job : JsonValue) (figure : JobFigures)
    (read : readJob json job = .ok (jobname, figure)) :
    JobSums.addJob json {} job = .ok (JobSums.over jobname [figure]) := by
  have bytes := ofInt_add_bwBytes 0 figure
  rw [zero_add] at bytes
  rw [addJob_ok json _ job jobname figure read]
  simpa [JobSums.over] using bytes

/-- The loop over the remaining jobs; the accumulators stay the sums over the
jobs already read. -/
theorem foldlM_addJob_over (json : OrgJson) (testCase : TestCase) (jobs : List JsonValue)
    (figures done : List JobFigures) (read : JobsRead json testCase jobs figures) :
    jobs.foldlM (JobSums.addJob json) (JobSums.over testCase.name done) =
      .ok (JobSums.over testCase.name (done ++ figures)) := by
  induction read generalizing done with
  | nil =>
      rw [List.append_nil]
      rfl
  | @cons job figure _ _ head _ ih =>
      have rest := ih (done ++ [figure])
      rw [List.append_assoc, List.singleton_append] at rest
      rw [List.foldlM_cons, addJob_over json testCase.name done job figure head]
      exact rest

theorem foldlM_addJob (json : OrgJson) (testCase : TestCase) (jobs : List JsonValue)
    (figures : List JobFigures) (nonempty : jobs ≠ [])
    (read : JobsRead json testCase jobs figures) :
    jobs.foldlM (JobSums.addJob json) {} = .ok (JobSums.over testCase.name figures) := by
  cases read with
  | nil => exact absurd rfl nonempty
  | cons head rest =>
      rw [List.foldlM_cons, addJob_first json testCase.name _ _ head]
      exact foldlM_addJob_over json testCase _ _ [_] rest

/-! ## The variant -/

theorem name_contains (testCase : TestCase) :
    containsText testCase.name "SEQ" = testCase.isSeqRw ∧
      containsText testCase.name "RAND" = testCase.isRandRw ∧
      containsText testCase.name "MIX" = testCase.isMixRw := by
  cases testCase <;> decide

/-- Every test case is of exactly one kind. -/
theorem kind_cases (testCase : TestCase) :
    testCase.isSeqRw = true ∧ testCase.isRandRw = false ∧ testCase.isMixRw = false ∨
      testCase.isSeqRw = false ∧ testCase.isRandRw = true ∧ testCase.isMixRw = false ∨
      testCase.isSeqRw = false ∧ testCase.isRandRw = false ∧ testCase.isMixRw = true := by
  cases testCase <;> decide

/-- The result of a test case with these jobs. -/
def summary (testCase : TestCase) (figures : List JobFigures) : TestResult :=
  let sumOfRdIoPerSec := (figures.map JobFigures.rdIoPerSec).sum
  let sumOfWrIoPerSec := (figures.map JobFigures.wrIoPerSec).sum
  let jobsRdAvgClat := doubleToInt (averageClat JobFigures.rdAvgClatNs figures)
  let jobsWrAvgClat := doubleToInt (averageClat JobFigures.wrAvgClatNs figures)
  if testCase.isSeqRw then
    .sequence (Int64.ofInt (figures.map JobFigures.bwBytes).sum / 1000 / 1000).toInt32
  else if testCase.isRandRw then
    .random (doubleToInt (sumOfRdIoPerSec + sumOfWrIoPerSec)) (jobsRdAvgClat + jobsWrAvgClat)
  else
    .mix (doubleToInt sumOfRdIoPerSec) (doubleToInt sumOfWrIoPerSec) jobsRdAvgClat jobsWrAvgClat

theorem classify_over (testCase : TestCase) (figures : List JobFigures) :
    (JobSums.over testCase.name figures).classify figures.length =
      some (summary testCase figures) := by
  obtain ⟨seq, rand, mix⟩ := name_contains testCase
  unfold JobSums.classify summary
  simp only [JobSums.over, Option.any_some, seq, rand, mix]
  rcases kind_cases testCase with ⟨isSeq, isRand, isMix⟩ | ⟨isSeq, isRand, isMix⟩ |
    ⟨isSeq, isRand, isMix⟩
  all_goals
    rw [isSeq, isRand, isMix]
    rfl

theorem parseResult_report (json : OrgJson) (testCase : TestCase) (text : String)
    (report : JSONObject) (jobs : List JsonValue) (figures : List JobFigures)
    (parsed : json.parse text = some report)
    (array : OrgJson.getJSONArray report "jobs" = .ok jobs) (nonempty : jobs ≠ [])
    (read : JobsRead json testCase jobs figures) :
    parseResult json text = .ok (some (summary testCase figures)) := by
  have object : json.jsonObject text = .ok report := by
    rw [OrgJson.jsonObject, parsed]
  unfold parseResult
  rw [object]
  simp only [bind, Except.bind, array, foldlM_addJob json testCase jobs figures nonempty read,
    read.length_eq, classify_over]
  rfl

/-- Nothing in the summary depends on the order of the jobs. -/
theorem summary_perm (testCase : TestCase) (figures other : List JobFigures)
    (perm : figures.Perm other) : summary testCase figures = summary testCase other := by
  have average : ∀ clatNs, averageClat clatNs figures = averageClat clatNs other := by
    intro clatNs
    unfold averageClat
    rw [(perm.map clatNs).sum_eq, perm.length_eq]
  unfold summary
  rw [(perm.map JobFigures.bwBytes).sum_eq, (perm.map JobFigures.rdIoPerSec).sum_eq,
    (perm.map JobFigures.wrIoPerSec).sum_eq, average, average]

/-! ## The figures of the summary -/

namespace JobFigures

structure NonNegative (job : JobFigures) : Prop where
  rdBwBytes : 0 ≤ job.rdBwBytes.toInt
  wrBwBytes : 0 ≤ job.wrBwBytes.toInt
  rdIoPerSec : 0 ≤ job.rdIoPerSec
  wrIoPerSec : 0 ≤ job.wrIoPerSec
  rdAvgClatNs : 0 ≤ job.rdAvgClatNs
  wrAvgClatNs : 0 ≤ job.wrAvgClatNs

end JobFigures

/-- The sums stay within the types that `parseResult` puts them in; only those
that the variant of the test case shows are asked. -/
structure WithinRange (testCase : TestCase) (figures : List JobFigures) : Prop where
  sequence : testCase.isSeqRw = true → (figures.map JobFigures.bwBytes).sum / 1000000 ≤ intMax
  random : testCase.isRandRw = true →
    integerPart ((figures.map JobFigures.rdIoPerSec).sum +
        (figures.map JobFigures.wrIoPerSec).sum) ≤ intMax ∧
      integerPart (averageClat JobFigures.rdAvgClatNs figures) +
        integerPart (averageClat JobFigures.wrAvgClatNs figures) ≤ intMax
  mix : testCase.isMixRw = true →
    (integerPart (figures.map JobFigures.rdIoPerSec).sum ≤ intMax ∧
        integerPart (figures.map JobFigures.wrIoPerSec).sum ≤ intMax) ∧
      integerPart (averageClat JobFigures.rdAvgClatNs figures) ≤ intMax ∧
        integerPart (averageClat JobFigures.wrAvgClatNs figures) ≤ intMax

/-- An average latency in microseconds lies between the smallest and the largest
of the jobs' mean latencies, each truncated to microseconds. -/
def LatencyBetween (clatNs : JobFigures → ℚ) (figures : List JobFigures) (latency : ℤ) : Prop :=
  (∃ job ∈ figures, integerPart (clatNs job / 1000) ≤ latency) ∧
    ∃ job ∈ figures, latency ≤ integerPart (clatNs job / 1000)

/-- What the figures of a result say about the jobs. -/
def Explained (figures : List JobFigures) : TestResult → Prop
  | .sequence bandwidth =>
      bandwidth.toInt = (figures.map JobFigures.bwBytes).sum / 1000000
  | .random ioPerSec latency =>
      ioPerSec.toInt = integerPart ((figures.map JobFigures.rdIoPerSec).sum +
          (figures.map JobFigures.wrIoPerSec).sum) ∧
        ∃ rdLatency wrLatency, latency.toInt = rdLatency + wrLatency ∧
          LatencyBetween JobFigures.rdAvgClatNs figures rdLatency ∧
          LatencyBetween JobFigures.wrAvgClatNs figures wrLatency
  | .mix rdIoPerSec wrIoPerSec rdLatency wrLatency =>
      rdIoPerSec.toInt = integerPart (figures.map JobFigures.rdIoPerSec).sum ∧
        wrIoPerSec.toInt = integerPart (figures.map JobFigures.wrIoPerSec).sum ∧
        LatencyBetween JobFigures.rdAvgClatNs figures rdLatency.toInt ∧
        LatencyBetween JobFigures.wrAvgClatNs figures wrLatency.toInt

/-- The `when` of `TestItem`: whether the result is displayed. -/
def TestItem.displays (case : TestCase) (result : TestResult) : Bool :=
  if case.isRandRw then result matches .random ..
  else if case.isMixRw then result matches .mix ..
  else if case.isSeqRw then result matches .sequence ..
  else false

/-- The result has the variant that belongs to the test case. -/
structure VariantOf (testCase : TestCase) (result : TestResult) : Prop where
  sequence : (∃ bandwidth, result = .sequence bandwidth) ↔ testCase.isSeqRw = true
  random : (∃ ioPerSec latency, result = .random ioPerSec latency) ↔ testCase.isRandRw = true
  mix : (∃ rdIoPerSec wrIoPerSec rdLatency wrLatency,
    result = .mix rdIoPerSec wrIoPerSec rdLatency wrLatency) ↔ testCase.isMixRw = true
  displayed : TestItem.displays testCase result = true

theorem summary_variant (testCase : TestCase) (figures : List JobFigures) :
    VariantOf testCase (summary testCase figures) := by
  unfold summary
  dsimp only
  rcases kind_cases testCase with ⟨isSeq, isRand, isMix⟩ | ⟨isSeq, isRand, isMix⟩ |
    ⟨isSeq, isRand, isMix⟩
  all_goals constructor <;> simp [isSeq, isRand, isMix, TestItem.displays]

theorem latencyBetween_average (clatNs : JobFigures → ℚ) (figures : List JobFigures)
    (nonempty : figures ≠ []) :
    LatencyBetween clatNs figures (integerPart (averageClat clatNs figures)) := by
  have positive : (0 : ℚ) < figures.length := by
    exact_mod_cast List.length_pos_of_ne_nil nonempty
  have average : (figures.map fun _ => (figures.map clatNs).sum / figures.length).sum =
      (figures.map clatNs).sum := by
    rw [List.map_const', List.sum_replicate, nsmul_eq_mul, mul_div_cancel₀ _ positive.ne']
  constructor
  · obtain ⟨job, member, below⟩ := List.exists_le_of_sum_le nonempty _ _ average.ge
    exact ⟨job, member, integerPart_mono (div_le_div_of_nonneg_right below (by norm_num))⟩
  · obtain ⟨job, member, above⟩ := List.exists_le_of_sum_le nonempty _ _ average.le
    exact ⟨job, member, integerPart_mono (div_le_div_of_nonneg_right above (by norm_num))⟩

theorem sum_nonneg_of (figure : JobFigures → ℚ) (figures : List JobFigures)
    (nonneg : ∀ job ∈ figures, 0 ≤ figure job) : 0 ≤ (figures.map figure).sum := by
  apply List.sum_nonneg
  intro value member
  obtain ⟨job, inside, rfl⟩ := List.mem_map.mp member
  exact nonneg job inside

theorem averageClat_nonneg (clatNs : JobFigures → ℚ) (figures : List JobFigures)
    (nonneg : ∀ job ∈ figures, 0 ≤ clatNs job) : 0 ≤ averageClat clatNs figures := by
  have sum := sum_nonneg_of clatNs figures nonneg
  unfold averageClat
  positivity

/-- The two divisions and the narrowing of the bandwidth. -/
theorem bandwidth_toInt (total : ℤ) (nonneg : 0 ≤ total) (fits : total / 1000000 ≤ intMax) :
    ((Int64.ofInt total / 1000 / 1000).toInt32).toInt = total / 1000000 := by
  unfold intMax at fits
  have whole : (Int64.ofInt total).toInt = total :=
    Int64.toInt_ofInt_of_le (by omega) (by omega)
  have thousand : (1000 : Int64).toInt = 1000 := by decide
  have divided : (Int64.ofInt total / 1000 / 1000).toInt = total / 1000000 := by
    rw [Int64.toInt_div_of_ne_right _ _ (by decide), Int64.toInt_div_of_ne_right _ _ (by decide),
      whole, thousand, Int.tdiv_eq_ediv_of_nonneg nonneg,
      Int.tdiv_eq_ediv_of_nonneg (by omega)]
    omega
  rw [Int64.toInt_toInt32, divided]
  exact Int.bmod_eq_of_le (by omega) (by omega)

theorem int32_toInt_add (first second : Int32) (firstNonneg : 0 ≤ first.toInt)
    (secondNonneg : 0 ≤ second.toInt) (fits : first.toInt + second.toInt ≤ intMax) :
    (first + second).toInt = first.toInt + second.toInt := by
  unfold intMax at fits
  rw [Int32.toInt_add]
  exact Int.bmod_eq_of_le (by omega) (by omega)

theorem summary_explained (testCase : TestCase) (figures : List JobFigures)
    (nonempty : figures ≠ []) (nonneg : ∀ job ∈ figures, job.NonNegative)
    (range : WithinRange testCase figures) : Explained figures (summary testCase figures) := by
  have rdSum := sum_nonneg_of JobFigures.rdIoPerSec figures fun job member =>
    (nonneg job member).rdIoPerSec
  have wrSum := sum_nonneg_of JobFigures.wrIoPerSec figures fun job member =>
    (nonneg job member).wrIoPerSec
  have rdClat := averageClat_nonneg JobFigures.rdAvgClatNs figures fun job member =>
    (nonneg job member).rdAvgClatNs
  have wrClat := averageClat_nonneg JobFigures.wrAvgClatNs figures fun job member =>
    (nonneg job member).wrAvgClatNs
  have rdBetween := latencyBetween_average JobFigures.rdAvgClatNs figures nonempty
  have wrBetween := latencyBetween_average JobFigures.wrAvgClatNs figures nonempty
  unfold summary
  dsimp only
  rcases kind_cases testCase with ⟨isSeq, isRand, isMix⟩ | ⟨isSeq, isRand, isMix⟩ |
    ⟨isSeq, isRand, isMix⟩
  · rw [if_pos isSeq]
    have total : 0 ≤ (figures.map JobFigures.bwBytes).sum := by
      apply List.sum_nonneg
      intro value member
      obtain ⟨job, inside, rfl⟩ := List.mem_map.mp member
      exact add_nonneg (nonneg job inside).rdBwBytes (nonneg job inside).wrBwBytes
    exact bandwidth_toInt _ total (range.sequence isSeq)
  · obtain ⟨ioPerSec, latency⟩ := range.random isRand
    rw [if_neg (by rw [isSeq]; exact Bool.false_ne_true), if_pos isRand]
    have rdPart := integerPart_nonneg _ rdClat
    have wrPart := integerPart_nonneg _ wrClat
    have rdLatency := doubleToInt_of_le _ rdClat (by linarith)
    have wrLatency := doubleToInt_of_le _ wrClat (by linarith)
    refine ⟨doubleToInt_of_le _ (add_nonneg rdSum wrSum) ioPerSec, _, _, ?_, rdBetween,
      wrBetween⟩
    rw [← rdLatency, ← wrLatency]
    apply int32_toInt_add
    · rw [rdLatency]
      exact rdPart
    · rw [wrLatency]
      exact wrPart
    · rw [rdLatency, wrLatency]
      exact latency
  · obtain ⟨⟨rdIoPerSec, wrIoPerSec⟩, rdLatency, wrLatency⟩ := range.mix isMix
    rw [if_neg (by rw [isSeq]; exact Bool.false_ne_true),
      if_neg (by rw [isRand]; exact Bool.false_ne_true)]
    refine ⟨doubleToInt_of_le _ rdSum rdIoPerSec, doubleToInt_of_le _ wrSum wrIoPerSec, ?_, ?_⟩
    · rw [doubleToInt_of_le _ rdClat rdLatency]
      exact rdBetween
    · rw [doubleToInt_of_le _ wrClat wrLatency]
      exact wrBetween

/-- A report of one test case gives a result of the right variant, explained by
its jobs and the same for every order of them. -/
theorem report_summarised (json : OrgJson) (testCase : TestCase) (text : String)
    (report : JSONObject) (jobs : List JsonValue) (figures : List JobFigures)
    (parsed : json.parse text = some report)
    (array : OrgJson.getJSONArray report "jobs" = .ok jobs) (nonempty : jobs ≠ [])
    (read : JobsRead json testCase jobs figures) (nonneg : ∀ job ∈ figures, job.NonNegative)
    (range : WithinRange testCase figures) :
    ∃ result, parseResult json text = .ok (some result) ∧ VariantOf testCase result ∧
      Explained figures result ∧
      ∀ otherText otherReport otherJobs, json.parse otherText = some otherReport →
        OrgJson.getJSONArray otherReport "jobs" = .ok otherJobs → otherJobs.Perm jobs →
          parseResult json otherText = .ok (some result) := by
  have figuresNonempty : figures ≠ [] := by
    rintro rfl
    cases read
    exact nonempty rfl
  refine ⟨summary testCase figures,
    parseResult_report json testCase text report jobs figures parsed array nonempty read,
    summary_variant testCase figures,
    summary_explained testCase figures figuresNonempty nonneg range, ?_⟩
  intro otherText otherReport otherJobs otherParsed otherArray perm
  obtain ⟨otherFigures, otherRead, figuresPerm⟩ := List.perm_comp_forall₂ perm read
  have otherNonempty : otherJobs ≠ [] := fun empty => nonempty (by simpa [empty] using perm)
  rw [parseResult_report json testCase otherText otherReport otherJobs otherFigures otherParsed
    otherArray otherNonempty otherRead, summary_perm testCase otherFigures figures figuresPerm]

/-- A job as fio reports it. -/
def jobValue (jobname : String) (job : JobFigures) : JsonValue :=
  .object [("jobname", .string jobname),
    ("read", .object [("bw_bytes", .long job.rdBwBytes), ("iops", .double job.rdIoPerSec),
      ("clat_ns", .object [("mean", .double job.rdAvgClatNs)])]),
    ("write", .object [("bw_bytes", .long job.wrBwBytes), ("iops", .double job.wrIoPerSec),
      ("clat_ns", .object [("mean", .double job.wrAvgClatNs)])])]

def reportTree (testCase : TestCase) (figures : List JobFigures) : JSONObject :=
  [("fio version", .string "fio-3.32"), ("jobs", .array (figures.map (jobValue testCase.name)))]

theorem jobsRead_reportTree (json : OrgJson) (testCase : TestCase) (figures : List JobFigures) :
    JobsRead json testCase (figures.map (jobValue testCase.name)) figures := by
  induction figures with
  | nil => exact .nil
  | cons job rest ih => exact .cons rfl ih

/-- Two threads of a random-read test. -/
def twoJobs : List JobFigures :=
  [⟨32768000, 0, 8000.5, 0, 120000, 0⟩, ⟨16384000, 0, 4000.75, 0, 240500, 0⟩]

/-- Their report; `org.json` reads it as `reportTree`. -/
def twoJobsReport : String :=
  "\x7b\"fio version\":\"fio-3.32\",\"jobs\":[" ++
  "\x7b\"jobname\":\"Q4T4_RAND_RD\",\"read\":\x7b\"bw_bytes\":32768000," ++
  "\"iops\":8000.5,\"clat_ns\":\x7b\"mean\":120000.0\x7d\x7d,\"write\":\x7b\"bw_bytes\":0," ++
  "\"iops\":0.0,\"clat_ns\":\x7b\"mean\":0.0\x7d\x7d\x7d," ++
  "\x7b\"jobname\":\"Q4T4_RAND_RD\",\"read\":\x7b\"bw_bytes\":16384000," ++
  "\"iops\":4000.75,\"clat_ns\":\x7b\"mean\":240500.0\x7d\x7d,\"write\":\x7b\"bw_bytes\":0," ++
  "\"iops\":0.0,\"clat_ns\":\x7b\"mean\":0.0\x7d\x7d\x7d]\x7d"

def twoJobsJson : OrgJson where
  parse := fun text =>
    if text = twoJobsReport then some (reportTree .q4t4RandRd twoJobs) else none
  doubleOf := fun _ => none
  textOf := fun _ => ""

theorem two_jobs_summarised :
    ∃ result, parseResult twoJobsJson twoJobsReport = .ok (some result) ∧
      VariantOf .q4t4RandRd result ∧ Explained twoJobs result := by
  obtain ⟨result, parsed, variant, explained, _⟩ := report_summarised twoJobsJson .q4t4RandRd
    twoJobsReport (reportTree .q4t4RandRd twoJobs) _ twoJobs (by simp [twoJobsJson]) rfl (by decide)
    (jobsRead_reportTree twoJobsJson .q4t4RandRd twoJobs)
    (by
      simp only [twoJobs, List.mem_cons, List.not_mem_nil, or_false]
      rintro job (rfl | rfl) <;> constructor <;> decide +kernel)
    (by constructor <;> decide +kernel)
  exact ⟨result, parsed, variant, explained⟩

end RaptorMark
