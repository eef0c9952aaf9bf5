import Mathlib.Algebra.Order.Floor.Semiring
import Mathlib.Data.Rat.Floor
import Mathlib.Data.List.Sort
import Mathlib.Data.List.TakeWhile
import RaptorMark.Fio.LatencyBuckets
import RaptorMark.Lib.OrderStatistic

/-!
# Latency percentiles

`add_lat_percentile_sample` and `calc_clat_percentiles` of `stat.c`.  The report
of a percentile walks over the buckets until the samples seen are as many as the
percentile asks for.  How many it asks for is a `long double` expression of the
percentile and the number of samples; it is the parameter `reach` here, of which
the proofs use that it grows with the percentile and lies between none and all
of the samples.

The walk reports the bucket of an order statistic of the samples: the one whose
rank is the number of samples asked for.
-/

set_option autoImplicit false

namespace RaptorMark.Fio

open Lib.OrderStatistic

def addLatPercentileSample (ioUPlat : List Nat) (nsec : Nat) : List Nat :=
  ioUPlat.modify (platValToIdx nsec) (· + 1)

def ioUListMaxLen : Nat := 20

/-- The loop over the buckets.  At each bucket the inner loop reports the
percentiles the samples seen so far are enough for; the loop ends with the last. -/
def percentileLoop (reach : ℚ → ℚ) : List Nat → Nat → Nat → List ℚ → List Nat
  | [], _, _, _ => []
  | count :: rest, i, sum, plist =>
      let sum := sum + count
      let here := plist.takeWhile fun percentile => decide (reach percentile ≤ sum)
      let left := plist.dropWhile fun percentile => decide (reach percentile ≤ sum)
      here.map (fun _ => platIdxToVal i) ++
        if left = [] then [] else percentileLoop reach rest (i + 1) sum left

structure Percentiles where
  ovals : List Nat
  maxv : Nat
  minv : Nat

/-- The percentiles asked for: the list ends with a zero or with its room. -/
def askedPercentiles (plist : List ℚ) : List ℚ :=
  let asked := (plist.take ioUListMaxLen).takeWhile fun percentile => decide (percentile ≠ 0)
  if 1 < asked.length then asked.mergeSort (fun first second => decide (first ≤ second)) else asked

def calcClatPercentiles (reach : ℚ → ℚ) (ioUPlat : List Nat) (plist : List ℚ) : Percentiles :=
  let ovals := percentileLoop reach ioUPlat 0 0 (askedPercentiles plist)
  { ovals
    maxv := ovals.foldl (fun maxv oval => if maxv < oval then oval else maxv) 0
    minv := ovals.foldl (fun minv oval => if oval < minv then oval else minv) 0xffffffffffffffff }

/-! ## The loop -/

/-- What a sorted list keeps behind its small members has none of them. -/
theorem not_small_of_mem_dropWhile {small : ℚ → Bool}
    (closed : ∀ first second, first ≤ second → small second = true → small first = true) :
    ∀ {plist : List ℚ}, plist.Pairwise (· ≤ ·) → ∀ percentile ∈ plist.dropWhile small,
      small percentile = false := by
  intro plist
  induction plist with
  | nil => intro _ percentile member; cases member
  | cons first rest ih =>
      intro sorted percentile member
      obtain ⟨least, restSorted⟩ := List.pairwise_cons.mp sorted
      cases isSmall : small first with
      | true =>
          rw [List.dropWhile_cons_of_pos isSmall] at member
          exact ih restSorted percentile member
      | false =>
          rw [List.dropWhile_cons_of_neg (Bool.eq_false_iff.mp isSmall)] at member
          rcases List.mem_cons.mp member with rfl | later
          · exact isSmall
          · by_contra other
            have first' := closed first percentile (least percentile later)
              (Bool.not_eq_false _ ▸ other)
            rw [isSmall] at first'
            cases first'

/-- `target` names the bucket each percentile is reported at: the first one the
samples up to it are enough for. -/
def ReachedAt (reach : ℚ → ℚ) (before : Nat → Nat) (target : ℚ → Nat) (plist : List ℚ) : Prop :=
  ∀ percentile ∈ plist, ∀ i, reach percentile ≤ before (i + 1) ↔ target percentile ≤ i

theorem percentileLoop_eq {reach : ℚ → ℚ} (grows : Monotone reach) (before : Nat → Nat)
    (target : ℚ → Nat) :
    ∀ (buckets : List Nat) (i : Nat) (plist : List ℚ),
      (∀ k count, buckets[k]? = some count → before (i + k + 1) = before (i + k) + count) →
      ReachedAt reach before target plist → plist.Pairwise (· ≤ ·) →
      (∀ percentile ∈ plist, i ≤ target percentile ∧ target percentile < i + buckets.length) →
      percentileLoop reach buckets i (before i) plist =
        plist.map fun percentile => platIdxToVal (target percentile) := by
  intro buckets
  induction buckets with
  | nil =>
      intro i plist _ _ _ within
      cases plist with
      | nil => rfl
      | cons percentile rest =>
          have bounds := within percentile List.mem_cons_self
          rw [List.length_nil] at bounds
          omega
  | cons count rest ih =>
      intro i plist counted reached sorted within
      have here : before (i + 1) = before i + count := counted 0 count rfl
      rw [percentileLoop]
      simp only [← here]
      -- the percentiles this bucket is enough for are those reported here
      generalize isSmall : (fun percentile => decide (reach percentile ≤ (before (i + 1) : ℚ))) =
        small
      have enough : ∀ percentile ∈ plist, (small percentile = true ↔ target percentile = i) := by
        intro percentile member
        rw [← isSmall, decide_eq_true_eq, reached percentile member i]
        have bounds := within percentile member
        omega
      have closed : ∀ first second, first ≤ second → small second = true → small first = true := by
        intro first second le large
        rw [← isSmall, decide_eq_true_eq] at large ⊢
        exact le_trans (grows le) large
      have taken : ∀ percentile ∈ plist.takeWhile small, target percentile = i := by
        intro percentile member
        exact (enough percentile ((List.takeWhile_sublist _).subset member)).mp
          (List.mem_takeWhile_imp member)
      have left : ∀ percentile ∈ plist.dropWhile small,
          percentile ∈ plist ∧ target percentile ≠ i := by
        intro percentile member
        have inList : percentile ∈ plist := (List.dropWhile_sublist _).subset member
        have large := not_small_of_mem_dropWhile closed sorted percentile member
        refine ⟨inList, fun same => ?_⟩
        rw [(enough percentile inList).mpr same] at large
        cases large
      have restLoop : percentileLoop reach rest (i + 1) (before (i + 1)) (plist.dropWhile small) =
          (plist.dropWhile small).map fun percentile => platIdxToVal (target percentile) := by
        apply ih
        · intro k later found
          have step := counted (k + 1) later found
          rw [show i + (k + 1) = i + 1 + k by omega] at step
          exact step
        · intro percentile member
          exact reached percentile (left percentile member).1
        · exact sorted.sublist (List.dropWhile_sublist _)
        · intro percentile member
          obtain ⟨inList, notHere⟩ := left percentile member
          have bounds := within percentile inList
          rw [List.length_cons] at bounds
          omega
      have reportedHere : (plist.takeWhile small).map (fun _ => platIdxToVal i) =
          (plist.takeWhile small).map fun percentile => platIdxToVal (target percentile) := by
        apply List.map_congr_left
        intro percentile member
        rw [taken percentile member]
      have restIf : (if plist.dropWhile small = [] then []
          else percentileLoop reach rest (i + 1) (before (i + 1)) (plist.dropWhile small)) =
          (plist.dropWhile small).map fun percentile => platIdxToVal (target percentile) := by
        by_cases done : plist.dropWhile small = []
        · rw [if_pos done, done, List.map_nil]
        · rw [if_neg done, restLoop]
      rw [reportedHere, restIf, ← List.map_append, List.takeWhile_append_dropWhile]

/-! ## The samples behind the buckets -/

/-- The samples below a bucket. -/
def samplesBelow (samples : List Nat) (i : Nat) : Nat :=
  samples.countP fun sample => decide (platValToIdx sample < i)

/-- The counters after the samples have been counted. -/
def platOf (samples : List Nat) : List Nat :=
  samples.foldl addLatPercentileSample (List.replicate platNr 0)

theorem platOf_counts (samples : List Nat) {k count : Nat}
    (found : (platOf samples)[k]? = some count) :
    samplesBelow samples (k + 1) = samplesBelow samples k + count := by
  have tally := getElem?_tally platValToIdx samples (List.replicate platNr 0) k
  have counted : (platOf samples)[k]? = (List.replicate platNr 0)[k]?.map
      (· + samples.countP fun sample => decide (platValToIdx sample = k)) := tally
  rw [found, List.getElem?_replicate] at counted
  by_cases inside : k < platNr
  · rw [if_pos inside, Option.map_some, Option.some.injEq, Nat.zero_add] at counted
    rw [samplesBelow, samplesBelow, countP_lt_succ, counted]
  · rw [if_neg inside] at counted
    cases counted

theorem platOf_length (samples : List Nat) : (platOf samples).length = platNr := by
  have keeps : ∀ counts : List Nat,
      (samples.foldl addLatPercentileSample counts).length = counts.length := by
    induction samples with
    | nil => intro counts; rfl
    | cons sample rest ih =>
        intro counts
        rw [List.foldl_cons, ih, addLatPercentileSample, List.length_modify]
  rw [platOf, keeps, List.length_replicate]

/-- The samples in order. -/
def sortedSamples (samples : List Nat) : List Nat :=
  samples.mergeSort fun first second => decide (first ≤ second)

theorem askedPercentiles_pairwise (plist : List ℚ) :
    (askedPercentiles plist).Pairwise (· ≤ ·) := by
  simp only [askedPercentiles]
  generalize (plist.take ioUListMaxLen).takeWhile (fun percentile => decide (percentile ≠ 0)) = asked
  by_cases several : 1 < asked.length
  · rw [if_pos several]
    exact List.pairwise_mergeSort' (· ≤ ·) asked
  · rw [if_neg several]
    cases asked with
    | nil => exact List.Pairwise.nil
    | cons only rest =>
        rw [List.length_cons] at several
        obtain rfl : rest = [] := List.eq_nil_of_length_eq_zero (by omega)
        exact List.pairwise_singleton _ only

theorem mem_askedPercentiles {plist : List ℚ} {percentile : ℚ}
    (member : percentile ∈ askedPercentiles plist) : percentile ∈ plist ∧ percentile ≠ 0 := by
  have before : percentile ∈ (plist.take ioUListMaxLen).takeWhile
      fun percentile => decide (percentile ≠ 0) := by
    simp only [askedPercentiles] at member
    by_cases several : 1 < ((plist.take ioUListMaxLen).takeWhile
        fun percentile => decide (percentile ≠ 0)).length
    · rw [if_pos several] at member
      exact (List.mergeSort_perm _ _).mem_iff.mp member
    · rw [if_neg several] at member
      exact member
  have nonzero := List.mem_takeWhile_imp before
  exact ⟨List.mem_of_mem_take ((List.takeWhile_sublist _).subset before),
    of_decide_eq_true nonzero⟩

/-- The sample of the rank asked for is the one whose bucket the walk stops at. -/
theorem stops_at_rank {samples : List Nat}
    (words : ∀ sample ∈ samples, sample < 18446744073709551616)
    {needed : ℚ} (someSample : 0 < needed) (notMore : needed ≤ samples.length) :
    ∃ sample, (sortedSamples samples)[⌈needed⌉₊ - 1]? = some sample ∧
      sample < 18446744073709551616 ∧
      ∀ i, needed ≤ samplesBelow samples (i + 1) ↔ platValToIdx sample ≤ i := by
  have same : (sortedSamples samples).Perm samples := List.mergeSort_perm _ _
  have positive : 0 < ⌈needed⌉₊ := Nat.ceil_pos.mpr someSample
  have within : ⌈needed⌉₊ ≤ samples.length := Nat.ceil_le.mpr notMore
  have found := List.getElem?_eq_getElem (l := sortedSamples samples) (i := ⌈needed⌉₊ - 1)
    (by rw [same.length_eq]; omega)
  have isWord : ∀ sample ∈ sortedSamples samples, sample < 18446744073709551616 :=
    fun sample member => words sample (same.mem_iff.mp member)
  have ordered : (sortedSamples samples).Pairwise
      (fun earlier later => platValToIdx earlier ≤ platValToIdx later) := by
    refine (List.pairwise_mergeSort' (· ≤ ·) samples).imp_of_mem ?_
    intro earlier later _ laterMember le
    exact platValToIdx_mono (isWord later laterMember) le
  refine ⟨_, found, isWord _ (List.mem_of_getElem? found), fun i => ?_⟩
  have counted : samplesBelow samples (i + 1) =
      (sortedSamples samples).countP fun sample => decide (platValToIdx sample ≤ i) := by
    rw [samplesBelow, same.countP_eq]
    congr 1
    funext sample
    exact decide_eq_decide.mpr Nat.lt_succ_iff
  rw [counted, ← Nat.ceil_le, ← lt_countP_iff platValToIdx ordered found i]
  omega

/-- Every percentile that is reported is the value of the bucket of an order
statistic, and so no further from it than one part in 128 where latencies are
tracked. -/
theorem percentiles_near_order_statistics {reach : ℚ → ℚ} (grows : Monotone reach)
    (samples : List Nat) (words : ∀ sample ∈ samples, sample < 18446744073709551616)
    (plist : List ℚ) (asked : ∀ percentile ∈ plist, percentile ≠ 0 →
      0 < reach percentile ∧ reach percentile ≤ samples.length) :
    (calcClatPercentiles reach (platOf samples) plist).ovals.length =
        (askedPercentiles plist).length ∧
      ∀ (j : Nat) (percentile : ℚ) (value : Nat), (askedPercentiles plist)[j]? = some percentile →
        (calcClatPercentiles reach (platOf samples) plist).ovals[j]? = some value →
        ∃ sample, (sortedSamples samples)[⌈reach percentile⌉₊ - 1]? = some sample ∧
          value = platIdxToVal (platValToIdx sample) ∧
          (sample < 17179869184 →
            128 * (value - sample) ≤ sample ∧ 128 * (sample - value) ≤ sample) := by
  let target := fun percentile : ℚ =>
    platValToIdx ((sortedSamples samples).getD (⌈reach percentile⌉₊ - 1) 0)
  have stops : ∀ percentile ∈ askedPercentiles plist,
      ∃ sample, (sortedSamples samples)[⌈reach percentile⌉₊ - 1]? = some sample ∧
        sample < 18446744073709551616 ∧ target percentile = platValToIdx sample ∧
        ∀ i, reach percentile ≤ samplesBelow samples (i + 1) ↔ target percentile ≤ i := by
    intro percentile member
    obtain ⟨inList, nonzero⟩ := mem_askedPercentiles member
    obtain ⟨someSample, notMore⟩ := asked percentile inList nonzero
    obtain ⟨sample, found, word, iff⟩ := stops_at_rank words someSample notMore
    have isTarget : target percentile = platValToIdx sample := by
      simp only [target, List.getD_eq_getElem?_getD, found, Option.getD_some]
    exact ⟨sample, found, word, isTarget, fun i => by rw [isTarget]; exact iff i⟩
  have loop : (calcClatPercentiles reach (platOf samples) plist).ovals =
      (askedPercentiles plist).map fun percentile => platIdxToVal (target percentile) := by
    have none : samplesBelow samples 0 = 0 := by
      rw [samplesBelow, List.countP_eq_zero]
      intro sample _
      simp
    have walked := percentileLoop_eq grows (samplesBelow samples) target (platOf samples) 0
      (askedPercentiles plist)
      (fun k count found => by rw [Nat.zero_add]; exact platOf_counts samples found)
      (fun percentile member => (stops percentile member).choose_spec.2.2.2)
      (askedPercentiles_pairwise plist)
      (fun percentile member => by
        obtain ⟨sample, _, word, isTarget, _⟩ := stops percentile member
        rw [platOf_length, isTarget, Nat.zero_add]
        exact ⟨Nat.zero_le _, platValToIdx_lt word⟩)
    rw [none] at walked
    exact walked
  refine ⟨by rw [loop, List.length_map], fun j percentile value isAsked isValue => ?_⟩
  rw [loop, List.getElem?_map, isAsked, Option.map_some, Option.some.injEq] at isValue
  obtain ⟨sample, found, word, isTarget, _⟩ :=
    stops percentile (List.mem_of_getElem? isAsked)
  rw [← isValue, isTarget]
  exact ⟨sample, found, rfl, bucket_error⟩

/-- The median and the last percentile of four latencies. -/
theorem percentiles_near_order_statistics_four :
    (calcClatPercentiles (fun percentile => percentile / 100 * 4) (platOf [90, 3000, 700, 40000])
        [100, 50, 0]).ovals.length = (askedPercentiles [100, 50, 0]).length ∧
      ∀ (j : Nat) (percentile : ℚ) (value : Nat),
        (askedPercentiles [100, 50, 0])[j]? = some percentile →
        (calcClatPercentiles (fun percentile => percentile / 100 * 4)
          (platOf [90, 3000, 700, 40000]) [100, 50, 0]).ovals[j]? = some value →
        ∃ sample, (sortedSamples [90, 3000, 700, 40000])[⌈percentile / 100 * 4⌉₊ - 1]? =
            some sample ∧
          value = platIdxToVal (platValToIdx sample) ∧
          (sample < 17179869184 →
            128 * (value - sample) ≤ sample ∧ 128 * (sample - value) ≤ sample) := by
  refine percentiles_near_order_statistics (fun first second le => ?_) _ (by decide) _ ?_
  · have scaled : first / 100 ≤ second / 100 := by linarith
    linarith
  · intro percentile member nonzero
    simp only [List.mem_cons, List.not_mem_nil, or_false] at member
    rcases member with rfl | rfl | rfl
    · norm_num
    · norm_num
    · exact absurd rfl nonzero

end RaptorMark.Fio
