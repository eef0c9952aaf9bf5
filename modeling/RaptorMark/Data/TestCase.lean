import Mathlib.Data.Rat.Defs
import Mathlib.Data.List.Nodup

/-!
# Test cases

`Constants` and the enumeration `TestCase` with its parameters.  A `Double`
weight is the exact rational that the source literal denotes.
-/

set_option autoImplicit false

namespace RaptorMark

namespace Constants

def newJobOptName : String := "name"
def filePathOptName : String := "filename"
def ioDepthOptName : String := "iodepth"
def runtimeOptName : String := "runtime"
def blockSizeOptName : String := "blocksize"
def ioTypeOptName : String := "readwrite"
def ioSizeOptName : String := "size"
def ioEngineOptName : String := "ioengine"
def numThreadsOptName : String := "numjobs"
def rwMixWriteOptName : String := "rwmixwrite"

def defaultRuntimeLimitValue : String := "60"
def defaultSeqBlockSizeValue : String := "1024k"
def defaultRandBlockSizeValue : String := "4k"
def defaultIoSizeValue : String := "100m"
def defaultIoEngineValue : String := "libaio"

def directIoOptName : String := "direct"
def etaPrintOptName : String := "eta"
def outputFormatOptName : String := "output-format"
def constantDirectIoValue : String := "1"
def constantEtaPrintValue : String := "always"
def constantOutputFormatValue : String := "json"

def ioTypeSeqRdValue : String := "read"
def ioTypeSeqWrValue : String := "write"
def ioTypeRandRdValue : String := "randread"
def ioTypeRandWrValue : String := "randwrite"
def ioTypeMixRwValue : String := "randrw"

end Constants

inductive TestCase where
  | q8t8SeqRd | q8t8SeqWr
  | q1t1RandRd | q2t1RandRd | q4t1RandRd | q4t4RandRd | q8t1RandRd | q8t4RandRd | q8t8RandRd
  | q1t1RandWr | q2t1RandWr | q4t1RandWr | q4t4RandWr | q8t1RandWr | q8t4RandWr | q8t8RandWr
  | q1t1Mix9r1w | q1t1Mix7r3w | q1t1Mix5r5w | q2t1Mix9r1w | q2t1Mix7r3w | q2t1Mix5r5w
  | q4t1Mix9r1w | q4t1Mix7r3w | q4t1Mix5r5w | q4t4Mix9r1w | q4t4Mix7r3w | q4t4Mix5r5w
  deriving DecidableEq, Repr

namespace TestCase

open Constants

/-- The constructor arguments of one enum constant. -/
structure Parameters where
  type : String
  weight : ℚ
  ioDepth : Nat
  numJobs : Nat
  rwMixWrite : Option Nat := none

def parameters : TestCase → Parameters
  | q8t8SeqRd => ⟨ioTypeSeqRdValue, 0, 8, 8, none⟩
  | q8t8SeqWr => ⟨ioTypeSeqWrValue, 0, 8, 8, none⟩
  | q1t1RandRd => ⟨ioTypeRandRdValue, 0.5, 1, 1, none⟩
  | q2t1RandRd => ⟨ioTypeRandRdValue, 0.25, 2, 1, none⟩
  | q4t1RandRd => ⟨ioTypeRandRdValue, 0, 4, 1, none⟩
  | q4t4RandRd => ⟨ioTypeRandRdValue, 0.25, 4, 4, none⟩
  | q8t1RandRd => ⟨ioTypeRandRdValue, 0, 8, 1, none⟩
  | q8t4RandRd => ⟨ioTypeRandRdValue, 0, 8, 4, none⟩
  | q8t8RandRd => ⟨ioTypeRandRdValue, 0, 8, 8, none⟩
  | q1t1RandWr => ⟨ioTypeRandWrValue, 0.5, 1, 1, none⟩
  | q2t1RandWr => ⟨ioTypeRandWrValue, 0.25, 2, 1, none⟩
  | q4t1RandWr => ⟨ioTypeRandWrValue, 0, 4, 1, none⟩
  | q4t4RandWr => ⟨ioTypeRandWrValue, 0.25, 4, 4, none⟩
  | q8t1RandWr => ⟨ioTypeRandWrValue, 0, 8, 1, none⟩
  | q8t4RandWr => ⟨ioTypeRandWrValue, 0, 8, 4, none⟩
  | q8t8RandWr => ⟨ioTypeRandWrValue, 0, 8, 8, none⟩
  | q1t1Mix9r1w => ⟨ioTypeMixRwValue, 0.3 / 3, 1, 1, some 10⟩
  | q1t1Mix7r3w => ⟨ioTypeMixRwValue, 0.3 / 3, 1, 1, some 30⟩
  | q1t1Mix5r5w => ⟨ioTypeMixRwValue, 0.3 / 3, 1, 1, some 50⟩
  | q2t1Mix9r1w => ⟨ioTypeMixRwValue, 0.3 / 3, 2, 1, some 10⟩
  | q2t1Mix7r3w => ⟨ioTypeMixRwValue, 0.3 / 3, 2, 1, some 30⟩
  | q2t1Mix5r5w => ⟨ioTypeMixRwValue, 0.3 / 3, 2, 1, some 50⟩
  | q4t1Mix9r1w => ⟨ioTypeMixRwValue, 0.2 / 3, 4, 1, some 10⟩
  | q4t1Mix7r3w => ⟨ioTypeMixRwValue, 0.2 / 3, 4, 1, some 30⟩
  | q4t1Mix5r5w => ⟨ioTypeMixRwValue, 0.2 / 3, 4, 1, some 50⟩
  | q4t4Mix9r1w => ⟨ioTypeMixRwValue, 0.2 / 3, 4, 4, some 10⟩
  | q4t4Mix7r3w => ⟨ioTypeMixRwValue, 0.2 / 3, 4, 4, some 30⟩
  | q4t4Mix5r5w => ⟨ioTypeMixRwValue, 0.2 / 3, 4, 4, some 50⟩

def type (testCase : TestCase) : String := testCase.parameters.type
def weight (testCase : TestCase) : ℚ := testCase.parameters.weight
def ioDepth (testCase : TestCase) : Nat := testCase.parameters.ioDepth
def numJobs (testCase : TestCase) : Nat := testCase.parameters.numJobs
def rwMixWrite (testCase : TestCase) : Option Nat := testCase.parameters.rwMixWrite

def name : TestCase → String
  | q8t8SeqRd => "Q8T8_SEQ_RD"
  | q8t8SeqWr => "Q8T8_SEQ_WR"
  | q1t1RandRd => "Q1T1_RAND_RD"
  | q2t1RandRd => "Q2T1_RAND_RD"
  | q4t1RandRd => "Q4T1_RAND_RD"
  | q4t4RandRd => "Q4T4_RAND_RD"
  | q8t1RandRd => "Q8T1_RAND_RD"
  | q8t4RandRd => "Q8T4_RAND_RD"
  | q8t8RandRd => "Q8T8_RAND_RD"
  | q1t1RandWr => "Q1T1_RAND_WR"
  | q2t1RandWr => "Q2T1_RAND_WR"
  | q4t1RandWr => "Q4T1_RAND_WR"
  | q4t4RandWr => "Q4T4_RAND_WR"
  | q8t1RandWr => "Q8T1_RAND_WR"
  | q8t4RandWr => "Q8T4_RAND_WR"
  | q8t8RandWr => "Q8T8_RAND_WR"
  | q1t1Mix9r1w => "Q1T1_MIX_9R1W"
  | q1t1Mix7r3w => "Q1T1_MIX_7R3W"
  | q1t1Mix5r5w => "Q1T1_MIX_5R5W"
  | q2t1Mix9r1w => "Q2T1_MIX_9R1W"
  | q2t1Mix7r3w => "Q2T1_MIX_7R3W"
  | q2t1Mix5r5w => "Q2T1_MIX_5R5W"
  | q4t1Mix9r1w => "Q4T1_MIX_9R1W"
  | q4t1Mix7r3w => "Q4T1_MIX_7R3W"
  | q4t1Mix5r5w => "Q4T1_MIX_5R5W"
  | q4t4Mix9r1w => "Q4T4_MIX_9R1W"
  | q4t4Mix7r3w => "Q4T4_MIX_7R3W"
  | q4t4Mix5r5w => "Q4T4_MIX_5R5W"

/-- `TestCase.entries`: the constants in declaration order. -/
def entries : List TestCase :=
  [q8t8SeqRd, q8t8SeqWr, q1t1RandRd, q2t1RandRd, q4t1RandRd, q4t4RandRd, q8t1RandRd, q8t4RandRd,
   q8t8RandRd, q1t1RandWr, q2t1RandWr, q4t1RandWr, q4t4RandWr, q8t1RandWr, q8t4RandWr,
   q8t8RandWr, q1t1Mix9r1w, q1t1Mix7r3w, q1t1Mix5r5w, q2t1Mix9r1w, q2t1Mix7r3w, q2t1Mix5r5w,
   q4t1Mix9r1w, q4t1Mix7r3w, q4t1Mix5r5w, q4t4Mix9r1w, q4t4Mix7r3w, q4t4Mix5r5w]

def isSeqRw (testCase : TestCase) : Bool := testCase ∈ [q8t8SeqRd, q8t8SeqWr]

def isRandRw (testCase : TestCase) : Bool := testCase ∈
  [q1t1RandRd, q2t1RandRd, q4t1RandRd, q4t4RandRd, q8t1RandRd, q8t4RandRd, q8t8RandRd,
   q1t1RandWr, q2t1RandWr, q4t1RandWr, q4t4RandWr, q8t1RandWr, q8t4RandWr, q8t8RandWr]

def isMixRw (testCase : TestCase) : Bool := testCase ∈
  [q1t1Mix9r1w, q1t1Mix7r3w, q1t1Mix5r5w, q2t1Mix9r1w, q2t1Mix7r3w, q2t1Mix5r5w, q4t1Mix9r1w,
   q4t1Mix7r3w, q4t1Mix5r5w, q4t4Mix9r1w, q4t4Mix7r3w, q4t4Mix5r5w]

theorem mem_entries (testCase : TestCase) : testCase ∈ entries := by
  cases testCase <;> decide

theorem entries_nodup : entries.Nodup := by
  decide

end TestCase

end RaptorMark
