import RaptorMark.Lib.Kotlin

/-!
# Test results and the report parser

`TestResult` with `calculateScore`, and `BenchmarkTest.parseResult`.  The text
parser of `org.json` is platform code and stays a parameter (`OrgJson`); what
`parseResult` does with the parsed tree is the source's own.
-/

set_option autoImplicit false

namespace RaptorMark

open Lib.Kotlin

inductive TestResult where
  | sequence (bandwidth : Int32)
  | random (ioPerSec latency : Int32)
  | mix (rdIoPerSec wrIoPerSec rdLatency wrLatency : Int32)
  deriving DecidableEq, Repr

def TestResult.calculateScore : TestResult → ℚ
  | .sequence _ => 0
  | .random ioPerSec _ => ioPerSec.toInt * 0.25
  | .mix rdIoPerSec wrIoPerSec _ _ => (rdIoPerSec + wrIoPerSec).toInt * 0.5

/-- A tree as `org.json` builds it. -/
inductive JsonValue where
  | null
  | bool (value : Bool)
  | long (value : Int64)
  | double (value : ℚ)
  | string (value : String)
  | array (values : List JsonValue)
  | object (members : List (String × JsonValue))

abbrev JSONObject := List (String × JsonValue)

/-- The platform's `org.json`: the constructor `JSONObject(String)` (`none`
when it throws) and the coercions that its getters apply to other values. -/
structure OrgJson where
  parse : String → Option JSONObject
  doubleOf : String → Option ℚ
  textOf : JsonValue → String

namespace OrgJson

variable (json : OrgJson)

def jsonObject (text : String) : Except JavaException JSONObject :=
  match json.parse text with
  | some members => .ok members
  | none => .error .jsonException

def get (object : JSONObject) (name : String) : Except JavaException JsonValue :=
  match object.lookup name with
  | some value => .ok value
  | none => .error .jsonException

def asObject : JsonValue → Except JavaException JSONObject
  | .object members => .ok members
  | _ => .error .jsonException

def getJSONObject (object : JSONObject) (name : String) : Except JavaException JSONObject := do
  asObject (← get object name)

def getJSONArray (object : JSONObject) (name : String) :
    Except JavaException (List JsonValue) := do
  match ← get object name with
  | .array values => .ok values
  | _ => .error .jsonException

def getString (object : JSONObject) (name : String) : Except JavaException String := do
  match ← get object name with
  | .string value => .ok value
  | value => .ok (json.textOf value)

def getDouble (object : JSONObject) (name : String) : Except JavaException ℚ := do
  match ← get object name with
  | .long value => .ok value.toInt
  | .double value => .ok value
  | .string value => (json.doubleOf value).elim (.error .jsonException) .ok
  | _ => .error .jsonException

def getLong (object : JSONObject) (name : String) : Except JavaException Int64 := do
  match ← get object name with
  | .long value => .ok value
  | .double value => .ok (doubleToLong value)
  | .string value =>
      (json.doubleOf value).elim (.error .jsonException) fun parsed => .ok (doubleToLong parsed)
  | _ => .error .jsonException

end OrgJson

/-- The local accumulators of `parseResult`. -/
structure JobSums where
  jobsId : Option String := none
  sumOfBwBytes : Int64 := 0
  sumOfRdIoPerSec : ℚ := 0
  sumOfWrIoPerSec : ℚ := 0
  sumOfRdAvgClatNs : ℚ := 0
  sumOfWrAvgClatNs : ℚ := 0

/-- One iteration of the loop over `jobs`. -/
def JobSums.addJob (json : OrgJson) (sums : JobSums) (job : JsonValue) :
    Except JavaException JobSums := do
  let jobObject ← OrgJson.asObject job
  let jobsId ←
    if sums.jobsId.getD "" = "" then
      some <$> json.getString jobObject "jobname"
    else
      pure sums.jobsId
  let rdObject ← OrgJson.getJSONObject jobObject "read"
  let rdBwBytes ← json.getLong rdObject "bw_bytes"
  let rdIoPerSec ← json.getDouble rdObject "iops"
  let rdClatObject ← OrgJson.getJSONObject rdObject "clat_ns"
  let rdAvgClatNs ← json.getDouble rdClatObject "mean"
  let wrObject ← OrgJson.getJSONObject jobObject "write"
  let wrBwBytes ← json.getLong wrObject "bw_bytes"
  let wrIoPerSec ← json.getDouble wrObject "iops"
  let wrClatObject ← OrgJson.getJSONObject wrObject "clat_ns"
  let wrAvgClatNs ← json.getDouble wrClatObject "mean"
  return {
    jobsId
    sumOfBwBytes := sums.sumOfBwBytes + rdBwBytes + wrBwBytes
    sumOfRdIoPerSec := sums.sumOfRdIoPerSec + rdIoPerSec
    sumOfWrIoPerSec := sums.sumOfWrIoPerSec + wrIoPerSec
    sumOfRdAvgClatNs := sums.sumOfRdAvgClatNs + rdAvgClatNs
    sumOfWrAvgClatNs := sums.sumOfWrAvgClatNs + wrAvgClatNs }

/-- The final `when`.  With no job the source divides `0.0` by zero; the
resulting `NaN` converts to `0`, the value that `0 / 0` has here. -/
def JobSums.classify (sums : JobSums) (jobs : Nat) : Option TestResult :=
  let sumOfBw := (sums.sumOfBwBytes / 1000 / 1000).toInt32
  let jobsRdAvgClat := doubleToInt (sums.sumOfRdAvgClatNs / jobs / 1000)
  let jobsWrAvgClat := doubleToInt (sums.sumOfWrAvgClatNs / jobs / 1000)
  let named := fun pattern => sums.jobsId.any (containsText · pattern)
  if named "SEQ" then
    some (.sequence sumOfBw)
  else if named "RAND" then
    some (.random (doubleToInt (sums.sumOfRdIoPerSec + sums.sumOfWrIoPerSec))
      (jobsRdAvgClat + jobsWrAvgClat))
  else if named "MIX" then
    some (.mix (doubleToInt sums.sumOfRdIoPerSec) (doubleToInt sums.sumOfWrIoPerSec)
      jobsRdAvgClat jobsWrAvgClat)
  else
    none

def parseResult (json : OrgJson) (result : String) :
    Except JavaException (Option TestResult) := do
  let jsonResult ← json.jsonObject result
  let jobsArray ← OrgJson.getJSONArray jsonResult "jobs"
  let sums ← jobsArray.foldlM (JobSums.addJob json) {}
  return sums.classify jobsArray.length

end RaptorMark
