import RaptorMark.Fio.AxmapSearch

/-!
# The axmap refines a set

A client of an axmap calls its operations in any order.  `SetRun` is the
abstract machine, a set of numbers below `nr_bits` with what each call answers
and does to it.  Every sequence of calls on a new map gets the answers of the
abstract machine and ends in a map that represents the machine's set; in
particular no call leaves an array or fails an assertion.
-/

set_option autoImplicit false

namespace RaptorMark.Fio

open Lib.PackedBits

inductive AxmapCall where
  | set (bitNr : Nat)
  | setNr (bitNr nrBits : Nat)
  | isset (bitNr : Nat)
  | nextFree (bitNr : Nat)
  | reset

inductive AxmapAnswer where
  | done
  | count (setBits : Nat)
  | member (answer : Bool)
  | bit (answer : Nat)
deriving DecidableEq

def axmapCall (axmap : Axmap) : AxmapCall → Option (Axmap × AxmapAnswer)
  | .set bitNr => (axmapSet axmap bitNr).map fun next => (next, .done)
  | .setNr bitNr nrBits =>
      (axmapSetNr axmap bitNr nrBits).map fun (next, setBits) => (next, .count setBits)
  | .isset bitNr => (axmapIsset axmap bitNr).map fun answer => (axmap, .member answer)
  | .nextFree bitNr => (axmapNextFree axmap bitNr).map fun answer => (axmap, .bit answer)
  | .reset => some (axmapReset axmap, .done)

def axmapCalls : Axmap → List AxmapCall → Option (Axmap × List AxmapAnswer)
  | axmap, [] => some (axmap, [])
  | axmap, call :: rest => do
      let (axmap, answer) ← axmapCall axmap call
      let (axmap, answers) ← axmapCalls axmap rest
      some (axmap, answer :: answers)

/-- The bits a call names are bits of the map. -/
def AxmapCall.Inside (nrBits : Nat) : AxmapCall → Prop
  | .set bitNr => bitNr < nrBits
  | .setNr bitNr count => bitNr < nrBits ∧ bitNr + count ≤ nrBits
  | .isset bitNr => bitNr < nrBits
  | .nextFree bitNr => bitNr < nrBits
  | .reset => True

/-- One call of the abstract machine: the set before, the call, its answer and
the set after. -/
inductive SetStep (nrBits : Nat) : Set Nat → AxmapCall → AxmapAnswer → Set Nat → Prop
  | set (set : Set Nat) (bitNr : Nat) :
      SetStep nrBits set (.set bitNr) .done (set ∪ numbersFrom bitNr 1)
  | setNr {set : Set Nat} {bitNr asked count : Nat} (run : FreeRun set bitNr asked count) :
      SetStep nrBits set (.setNr bitNr asked) (.count count) (set ∪ numbersFrom bitNr count)
  | isset {set : Set Nat} {bitNr : Nat} {answer : Bool} (iff : answer = true ↔ bitNr ∈ set) :
      SetStep nrBits set (.isset bitNr) (.member answer) set
  | nextFree {set : Set Nat} {bitNr answer : Nat}
      (next : NextFree set nrBits (ringSuccessor nrBits bitNr) answer) :
      SetStep nrBits set (.nextFree bitNr) (.bit answer) set
  | reset (set : Set Nat) : SetStep nrBits set .reset .done ∅

inductive SetRun (nrBits : Nat) : Set Nat → List AxmapCall → List AxmapAnswer → Set Nat → Prop
  | nil (set : Set Nat) : SetRun nrBits set [] [] set
  | cons {set middle final : Set Nat} {call : AxmapCall} {answer : AxmapAnswer}
      {calls : List AxmapCall} {answers : List AxmapAnswer}
      (step : SetStep nrBits set call answer middle)
      (rest : SetRun nrBits middle calls answers final) :
      SetRun nrBits set (call :: calls) (answer :: answers) final

/-- One call is simulated by one step of the abstract machine. -/
theorem axmapCall_simulated {axmap : Axmap} {set : Set Nat} (represents : HoldsSet axmap set)
    (small : axmap.nrBits ≤ noBit) (call : AxmapCall) (inside : call.Inside axmap.nrBits) :
    ∃ next answer after, axmapCall axmap call = some (next, answer) ∧
      next.nrBits = axmap.nrBits ∧ SetStep axmap.nrBits set call answer after ∧
      HoldsSet next after := by
  cases call with
  | set bitNr =>
      obtain ⟨next, called, sameBits, after⟩ := axmapSet_spec represents inside
      exact ⟨next, .done, _, by rw [axmapCall, called]; rfl, sameBits, .set set bitNr, after⟩
  | setNr bitNr nrBits =>
      obtain ⟨next, count, called, run, sameBits, after⟩ :=
        axmapSetNr_spec represents inside.1 inside.2
      exact ⟨next, .count count, _, by rw [axmapCall, called]; rfl, sameBits, .setNr run, after⟩
  | isset bitNr =>
      obtain ⟨answer, called, iff⟩ := axmapIsset_spec represents inside
      exact ⟨axmap, .member answer, set, by rw [axmapCall, called]; rfl, rfl, .isset iff,
        represents⟩
  | nextFree bitNr =>
      obtain ⟨answer, called, next⟩ := axmapNextFree_spec represents small inside
      exact ⟨axmap, .bit answer, set, by rw [axmapCall, called]; rfl, rfl, .nextFree next,
        represents⟩
  | reset =>
      exact ⟨axmapReset axmap, .done, ∅, rfl, rfl, .reset set, axmapReset_spec represents⟩

theorem axmapCalls_simulated (calls : List AxmapCall) :
    ∀ {axmap : Axmap} {set : Set Nat}, HoldsSet axmap set → axmap.nrBits ≤ noBit →
      (∀ call ∈ calls, call.Inside axmap.nrBits) →
      ∃ final answers after, axmapCalls axmap calls = some (final, answers) ∧
        SetRun axmap.nrBits set calls answers after ∧ HoldsSet final after := by
  induction calls with
  | nil =>
      intro axmap set represents _ _
      exact ⟨axmap, [], set, rfl, .nil set, represents⟩
  | cons call rest ih =>
      intro axmap set represents small inside
      obtain ⟨next, answer, middle, called, sameBits, step, nextRepresents⟩ :=
        axmapCall_simulated represents small call (inside call List.mem_cons_self)
      obtain ⟨final, answers, after, run, restRun, finalRepresents⟩ :=
        ih nextRepresents (sameBits ▸ small)
          (fun later member => sameBits ▸ inside later (List.mem_cons_of_mem call member))
      refine ⟨final, answer :: answers, after, ?_, .cons step (sameBits ▸ restRun),
        finalRepresents⟩
      simp only [axmapCalls, called, run, Option.bind_eq_bind, Option.bind_some]

/-- Whatever is called on a new map of up to `2 ^ 64 - 64` bits, in whatever
order, it answers as the set does. -/
theorem axmap_refines_set (heap : Nat → Option (Nat → BitVec 64)) {nrBits : Nat} {axmap : Axmap}
    (small : nrBits + 63 < 18446744073709551616) (made : axmapNew heap nrBits = some axmap)
    (calls : List AxmapCall) (inside : ∀ call ∈ calls, call.Inside nrBits) :
    ∃ final answers after, axmapCalls axmap calls = some (final, answers) ∧
      SetRun nrBits ∅ calls answers after ∧ HoldsSet final after := by
  obtain ⟨rfl, represents⟩ := axmapNew_spec small made
  exact axmapCalls_simulated calls represents (by rw [noBit]; omega) inside

theorem axmap_refines_set_hundred :
    ∃ axmap, axmapNew (fun _ => some fun _ => 7#64) 100 = some axmap ∧
      ∃ final answers after,
        axmapCalls axmap [.setNr 3 90, .isset 5, .nextFree 92, .set 99, .reset] =
          some (final, answers) ∧
        SetRun 100 ∅ [.setNr 3 90, .isset 5, .nextFree 92, .set 99, .reset] answers after ∧
        HoldsSet final after := by
  obtain ⟨axmap, made⟩ := axmapNew_granted (fun _ => ⟨fun _ => 7#64, rfl⟩) 100
  refine ⟨axmap, made, axmap_refines_set _ (by decide) made _ ?_⟩
  simp [AxmapCall.Inside]

end RaptorMark.Fio
