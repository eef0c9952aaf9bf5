import RaptorMark.Data.JSONPrefix
import RaptorMark.Data.ReportSummary
import RaptorMark.Native.ReportText
import RaptorMark.ViewModels.InformationalOutput

/-!
# From fio's report to the test result

`parseResult` asks `org.json` for the tree of a text; here the tree is what the
tokener reads.  So what is asked of `org.json` elsewhere holds of the tokener: it
ignores what stands behind a report, and it takes no line of plain words for one.
A report that fio has printed then gives the result its jobs add up to, whatever
else fio prints into it and logs behind it.
-/

set_option autoImplicit false

namespace RaptorMark.Native

open Lib Lib.ModifiedUtf8 Lib.CNumber Fio.Json JSONTokener

/-! ## Trees -/

section Trees

variable (doubleValue : JavaText → ℚ)

mutual

/-- The tree of `org.json`; `doubleValue` is the value of a `Double`. -/
def jsonValue : ReadValue → JsonValue
  | .null => .null
  | .boolean value => .bool value
  | .long value => .long value
  | .double literal => .double (doubleValue literal)
  | .string value => .string (toText value)
  | .array values => .array (jsonValues values)
  | .object members => .object (jsonMembers members)

def jsonValues : List ReadValue → List JsonValue
  | [] => []
  | value :: rest => jsonValue value :: jsonValues rest

def jsonMembers : List (JavaText × ReadValue) → JSONObject
  | [] => []
  | (name, value) :: rest => (toText name, jsonValue value) :: jsonMembers rest

end

theorem jsonMembers_lookup {name : String} (ascii : name.toList.all (fun c => c.toNat < 0x80) = true)
    (members : List (JavaText × ReadValue)) :
    (jsonMembers doubleValue members).lookup name =
      (members.lookup (ofString name)).map (jsonValue doubleValue) := by
  have each : ∀ c ∈ name.toList, c.toNat < 0x80 := fun c member =>
    of_decide_eq_true (List.all_eq_true.mp ascii c member)
  induction members with
  | nil => rfl
  | cons entry rest ih =>
      obtain ⟨key, value⟩ := entry
      rw [jsonMembers, List.lookup_cons, List.lookup_cons]
      by_cases same : ofString name = key
      · subst same
        rw [toText_ofString, beq_self_eq_true, beq_self_eq_true]
        rfl
      · have differs : name ≠ toText key := fun equal =>
          same (eq_ofString_of_toText each equal.symm).symm
        rw [beq_eq_false_iff_ne.mpr same, beq_eq_false_iff_ne.mpr differs]
        exact ih

variable (java : JavaLang) (valueText : JsonValue → String)

/-- `org.json` with this tokener. -/
def tokenerJson : OrgJson where
  parse text :=
    match ReadValue.jsonObject java (ofString text) with
    | .ok members => some (jsonMembers doubleValue members)
    | .error _ => none
  doubleOf text :=
    if java.isDouble (ofString text) then some (doubleValue (ofString text)) else none
  textOf := valueText

theorem tokenerJson_ignoresRest : (tokenerJson doubleValue java valueText).IgnoresRest := by
  intro text members rest parsed
  simp only [tokenerJson] at parsed ⊢
  split at parsed
  case h_2 => cases parsed
  case h_1 tree read =>
    rw [ofString_append, jsonObject_append java (ofString text) (ofString rest) tree read]
    exact parsed

/-- A line whose first character is no brace is no report. -/
theorem tokenerJson_plainLine {line : String} {first : UInt16} {rest : JavaText}
    (units : ofString line = first :: rest) (solid : isSolid first = true)
    (notMark : first ≠ 0xFEFF) (notBrace : first ≠ asciiUnit '\x7b') :
    (tokenerJson doubleValue java valueText).PlainLine line := by
  simp only [OrgJson.PlainLine, tokenerJson, units,
    jsonObject_noBrace java first rest solid notMark notBrace]

example : (tokenerJson doubleValue java valueText).PlainLine App.noticeLine := by
  have units : ofString App.noticeLine =
      asciiUnit 'f' :: App.noticeLine.toList.tail.flatMap charUnits := by
    simp only [App.noticeLine, ofString, String.reduceToList, List.tail_cons, List.flatMap_cons]
    rfl
  exact tokenerJson_plainLine doubleValue java valueText units (by decide) (by decide) (by decide)

end Trees

/-! ## Printed reports -/

section Printed

variable {Double : Type} {java : JavaLang} {printDouble : Double → List UInt8}
  (doubleValue : JavaText → ℚ) (valueText : JsonValue → String)

theorem tokenerJson_printed (words : NumberWords java printDouble)
    (fields : List (JavaText × Document Double))
    (plain : ∀ name ∈ fieldNames fields, PlainName name) {text : String}
    (received : newStringUtf (jsonPrintObject printDouble (addFields [] fields)) =
      some (ofString text)) :
    (tokenerJson doubleValue java valueText).parse text =
      some (jsonMembers doubleValue (readFields java printDouble [] fields)) := by
  obtain ⟨units, sent, read⟩ := report_read words fields plain
  rw [received, Option.some.injEq] at sent
  subst sent
  simp only [tokenerJson, read]

/-! ## The jobs of a report -/

/-- The value that is read for a name: the last one added that is no empty
string. -/
def lastField (name : JavaText) : List (JavaText × Document Double) → Option (Document Double)
  | [] => none
  | (key, document) :: rest =>
      (lastField name rest).or
        (if key = name ∧ document.isEmptyString = false then some document else none)

theorem replaced_lookup_self (members : List (JavaText × ReadValue)) (name : JavaText)
    (value : ReadValue) (present : name ∈ members.map Prod.fst) :
    (members.map fun entry => if entry.1 = name then (name, value) else entry).lookup name =
      some value := by
  induction members with
  | nil => cases present
  | cons entry rest ih =>
      rw [List.map_cons]
      by_cases same : entry.1 = name
      · rw [if_pos same, List.lookup_cons_self]
      · rw [List.map_cons, List.mem_cons] at present
        rw [if_neg same, List.lookup_cons, beq_eq_false_iff_ne.mpr (Ne.symm same)]
        exact ih (present.resolve_left (Ne.symm same))

theorem replaced_lookup_other (members : List (JavaText × ReadValue)) {key name : JavaText}
    (value : ReadValue) (differs : name ≠ key) :
    (members.map fun entry => if entry.1 = key then (key, value) else entry).lookup name =
      members.lookup name := by
  induction members with
  | nil => rfl
  | cons entry rest ih =>
      obtain ⟨other, old⟩ := entry
      rw [List.map_cons, List.lookup_cons]
      by_cases same : other = key
      · rw [if_pos same, List.lookup_cons, same, beq_eq_false_iff_ne.mpr differs]
        exact ih
      · rw [if_neg same, List.lookup_cons, ih]

theorem store_lookup (members : List (JavaText × ReadValue)) (key name : JavaText)
    (value : ReadValue) :
    (store members key value).lookup name =
      if name = key then some value else members.lookup name := by
  rw [store]
  by_cases same : name = key
  · subst same
    rw [if_pos rfl]
    by_cases present : name ∈ members.map Prod.fst
    · rw [if_pos present, replaced_lookup_self members name value present]
    · have absent : members.lookup name = none := by
        rw [List.lookup_eq_none_iff]
        intro entry member
        rw [bne_iff_ne]
        rintro rfl
        exact present (List.mem_map_of_mem member)
      rw [if_neg present, List.lookup_append, absent, List.lookup_cons_self]
      rfl
  · rw [if_neg same]
    by_cases present : key ∈ members.map Prod.fst
    · rw [if_pos present, replaced_lookup_other members value same]
    · rw [if_neg present, List.lookup_append, List.lookup_cons, beq_eq_false_iff_ne.mpr same]
      exact Option.or_none

variable (java printDouble) in
theorem readFields_lookup (name : JavaText) (fields : List (JavaText × Document Double))
    (members : List (JavaText × ReadValue)) :
    (readFields java printDouble members fields).lookup name =
      ((lastField name fields).map (Document.read java printDouble)).or (members.lookup name) := by
  induction fields generalizing members with
  | nil => rfl
  | cons field rest ih =>
      obtain ⟨key, document⟩ := field
      rw [readFields, ih, lastField]
      cases lastField name rest with
      | some later => rfl
      | none =>
          simp only [Option.map_none, Option.none_or]
          by_cases empty : document.isEmptyString = true
          · rw [if_pos empty, if_neg (by rw [empty]; simp)]
            rfl
          · rw [if_neg empty, store_lookup]
            by_cases same : name = key
            · rw [if_pos same, if_pos ⟨same.symm, Bool.eq_false_iff.mpr empty⟩]
              rfl
            · rw [if_neg same, if_neg fun both => same both.1.symm]
              rfl

variable (java printDouble) in
/-- Java takes what is printed for the number for a `Double` of this value. -/
def PrintsAs (number : Double) (value : ℚ) : Prop :=
  wordRead java ((printDouble number).map unitOf) = .double ((printDouble number).map unitOf) ∧
    doubleValue ((printDouble number).map unitOf) = value

variable (java printDouble) in
/-- One direction of a job, among other fields. -/
def DirectionDocument (document : Document Double) (bwBytes : Int64)
    (ioPerSec avgClatNs : ℚ) : Prop :=
  ∃ fields clat iops mean, document = .object fields ∧
    lastField (ofString "bw_bytes") fields = some (.integer bwBytes) ∧
    lastField (ofString "iops") fields = some (.float iops) ∧
    lastField (ofString "clat_ns") fields = some (.object clat) ∧
    lastField (ofString "mean") clat = some (.float mean) ∧
    PrintsAs java printDouble doubleValue iops ioPerSec ∧
    PrintsAs java printDouble doubleValue mean avgClatNs

variable (java printDouble) in
/-- A job with these figures, among other fields. -/
def JobDocument (jobname : String) (document : Document Double) (figure : JobFigures) : Prop :=
  ∃ fields rd wr, document = .object fields ∧
    lastField (ofString "jobname") fields = some (.string (ofString jobname)) ∧
    lastField (ofString "read") fields = some rd ∧
    lastField (ofString "write") fields = some wr ∧
    DirectionDocument java printDouble doubleValue rd figure.rdBwBytes figure.rdIoPerSec
      figure.rdAvgClatNs ∧
    DirectionDocument java printDouble doubleValue wr figure.wrBwBytes figure.wrIoPerSec
      figure.wrAvgClatNs

theorem get_field {name : String} (ascii : name.toList.all (fun c => c.toNat < 0x80) = true)
    {fields : List (JavaText × Document Double)} {document : Document Double}
    (field : lastField (ofString name) fields = some document) :
    OrgJson.get (jsonMembers doubleValue (readFields java printDouble [] fields)) name =
      .ok (jsonValue doubleValue (document.read java printDouble)) := by
  rw [OrgJson.get, jsonMembers_lookup doubleValue ascii, readFields_lookup, field]
  rfl

theorem getDouble_field {name : String} (ascii : name.toList.all (fun c => c.toNat < 0x80) = true)
    {fields : List (JavaText × Document Double)} {number : Double} {value : ℚ}
    (field : lastField (ofString name) fields = some (.float number))
    (prints : PrintsAs java printDouble doubleValue number value) :
    (tokenerJson doubleValue java valueText).getDouble
      (jsonMembers doubleValue (readFields java printDouble [] fields)) name = .ok value := by
  rw [OrgJson.getDouble, get_field doubleValue ascii field, Document.read, prints.1, jsonValue,
    prints.2]
  rfl

theorem getLong_field {name : String} (ascii : name.toList.all (fun c => c.toNat < 0x80) = true)
    {fields : List (JavaText × Document Double)} {number : Int64}
    (field : lastField (ofString name) fields = some (.integer number)) :
    (tokenerJson doubleValue java valueText).getLong
      (jsonMembers doubleValue (readFields java printDouble [] fields)) name = .ok number := by
  rw [OrgJson.getLong, get_field doubleValue ascii field, Document.read, jsonValue]
  rfl

theorem getJSONObject_field {name : String} (ascii : name.toList.all (fun c => c.toNat < 0x80) = true)
    {fields inner : List (JavaText × Document Double)}
    (field : lastField (ofString name) fields = some (.object inner)) :
    OrgJson.getJSONObject (jsonMembers doubleValue (readFields java printDouble [] fields)) name =
      .ok (jsonMembers doubleValue (readFields java printDouble [] inner)) := by
  rw [OrgJson.getJSONObject, get_field doubleValue ascii field, Document.read, jsonValue]
  rfl

/-- The getters find the figures of a job. -/
theorem readJob_document {jobname : String} {document : Document Double} {figure : JobFigures}
    (job : JobDocument java printDouble doubleValue jobname document figure) :
    readJob (tokenerJson doubleValue java valueText)
      (jsonValue doubleValue (document.read java printDouble)) = .ok (jobname, figure) := by
  obtain ⟨fields, _, _, rfl, name, rd, wr, ⟨rdFields, rdClat, rdIops, rdMean, rfl, rdBw, rdIo,
    rdLat, rdAvg, rdIopsPrints, rdMeanPrints⟩, ⟨wrFields, wrClat, wrIops, wrMean, rfl, wrBw, wrIo,
    wrLat, wrAvg, wrIopsPrints, wrMeanPrints⟩⟩ := job
  have jobnameRead : (tokenerJson doubleValue java valueText).getString
      (jsonMembers doubleValue (readFields java printDouble [] fields)) "jobname" =
        .ok jobname := by
    rw [OrgJson.getString, get_field doubleValue (by decide) name, Document.read, jsonValue,
      toText_ofString]
    rfl
  rw [Document.read, jsonValue, readJob]
  simp only [OrgJson.asObject, bind, Except.bind, jobnameRead,
    getJSONObject_field doubleValue (by decide) rd, getJSONObject_field doubleValue (by decide) wr,
    getLong_field doubleValue valueText (by decide) rdBw,
    getLong_field doubleValue valueText (by decide) wrBw,
    getJSONObject_field doubleValue (by decide) rdLat,
    getJSONObject_field doubleValue (by decide) wrLat,
    getDouble_field doubleValue valueText (by decide) rdIo rdIopsPrints,
    getDouble_field doubleValue valueText (by decide) wrIo wrIopsPrints,
    getDouble_field doubleValue valueText (by decide) rdAvg rdMeanPrints,
    getDouble_field doubleValue valueText (by decide) wrAvg wrMeanPrints]
  rfl

/-- The jobs of the tree are those that were added. -/
theorem jobsRead_documents {testCase : TestCase} {items : List (Document Double)}
    {figures : List JobFigures}
    (jobs : List.Forall₂ (JobDocument java printDouble doubleValue testCase.name) items figures) :
    JobsRead (tokenerJson doubleValue java valueText) testCase
      (jsonValues doubleValue (readItems java printDouble items)) figures := by
  induction jobs with
  | nil => exact .nil
  | @cons item figure items figures job _ ih =>
      have solid : item.isEmptyString = false := by
        obtain ⟨fields, _, _, rfl, _⟩ := job
        rfl
      rw [readItems, if_neg (by rw [solid]; exact Bool.false_ne_true), jsonValues]
      exact .cons (readJob_document doubleValue valueText job) ih

/-- A report that fio prints for the jobs of one test case gives the result of
these jobs, whatever else is in it and whatever is logged behind it. -/
theorem printed_report_summarised (words : NumberWords java printDouble)
    (fields : List (JavaText × Document Double))
    (plain : ∀ name ∈ fieldNames fields, PlainName name) (text : String)
    (received : newStringUtf (jsonPrintObject printDouble (addFields [] fields)) =
      some (ofString text))
    (testCase : TestCase) (items : List (Document Double)) (figures : List JobFigures)
    (array : lastField (ofString "jobs") fields = some (.array items)) (nonempty : items ≠ [])
    (jobs : List.Forall₂ (JobDocument java printDouble doubleValue testCase.name) items figures)
    (nonneg : ∀ job ∈ figures, job.NonNegative) (range : WithinRange testCase figures)
    (behind : String) :
    ∃ result, parseResult (tokenerJson doubleValue java valueText) (text ++ behind) =
        .ok (some result) ∧ VariantOf testCase result ∧ Explained figures result := by
  have parsed := tokenerJson_printed doubleValue valueText words fields plain received
  have read := jobsRead_documents doubleValue valueText jobs
  have jobsArray : OrgJson.getJSONArray
      (jsonMembers doubleValue (readFields java printDouble [] fields)) "jobs" =
        .ok (jsonValues doubleValue (readItems java printDouble items)) := by
    rw [OrgJson.getJSONArray, get_field doubleValue (by decide) array, Document.read, jsonValue]
    rfl
  have jobsNonempty : jsonValues doubleValue (readItems java printDouble items) ≠ [] := by
    rintro empty
    rw [empty] at read
    cases read
    cases jobs
    exact nonempty rfl
  have figuresNonempty : figures ≠ [] := by
    rintro rfl
    cases jobs
    exact nonempty rfl
  have whole := parseResult_report _ testCase text _ _ figures parsed jobsArray jobsNonempty read
  exact ⟨summary testCase figures,
    parseResult_append _ (tokenerJson_ignoresRest doubleValue java valueText) text behind _ whole,
    summary_variant testCase figures,
    summary_explained testCase figures figuresNonempty nonneg range⟩

end Printed

/-! ## A report of one job -/

def rateWord : String := "8000.500000"

def latencyWord : String := "120000.000000"

def zeroWord : String := "0.000000"

/-- The three doubles of the report. -/
def oneJobWord (number : Fin 3) : List UInt8 :=
  asciiText ([rateWord, latencyWord, zeroWord].get number)

def oneJobValue (word : JavaText) : ℚ :=
  if word = ofString rateWord then 8000.5 else if word = ofString latencyWord then 120000 else 0

def oneJobDirection (bwBytes : Int64) (iops mean : Fin 3) : Document (Fin 3) :=
  .object [(ofString "bw_bytes", .integer bwBytes), (ofString "iops", .float iops),
    (ofString "clat_ns", .object [(ofString "mean", .float mean)])]

def oneJobFields : List (JavaText × Document (Fin 3)) :=
  [(ofString "fio version", .string (ofString "fio-3.32")),
    (ofString "jobs", .array [.object [(ofString "jobname", .string (ofString "Q1T1_RAND_RD")),
      (ofString "error", .integer 0), (ofString "read", oneJobDirection 32768000 0 1),
      (ofString "write", oneJobDirection 0 2 2)]])]

def oneJobLines : List String :=
  ["\x7b", "  \"fio version\" : \"fio-3.32\",", "  \"jobs\" : [", "    \x7b",
    "      \"jobname\" : \"Q1T1_RAND_RD\",", "      \"error\" : 0,", "      \"read\" : \x7b",
    "        \"bw_bytes\" : 32768000,", "        \"iops\" : 8000.500000,",
    "        \"clat_ns\" : \x7b", "          \"mean\" : 120000.000000", "        \x7d",
    "      \x7d,", "      \"write\" : \x7b", "        \"bw_bytes\" : 0,",
    "        \"iops\" : 0.000000,", "        \"clat_ns\" : \x7b", "          \"mean\" : 0.000000",
    "        \x7d", "      \x7d", "    \x7d", "  ]", "\x7d"]

def oneJobText : String := .ofList (['\n'].intercalate (oneJobLines.map String.toList))

def oneJobFigures : JobFigures := ⟨32768000, 0, 8000.5, 0, 120000, 0⟩

theorem oneJob_received :
    newStringUtf (jsonPrintObject oneJobWord (addFields [] oneJobFields)) =
      some (ofString oneJobText) := by
  rw [oneJobText, ofString, String.toList_ofList]
  decide +kernel

theorem oneJob_words : NumberWords sampleJava oneJobWord where
  written := by decide +kernel
  finite := fun _ _ => rfl

/-- What the doubles of the report are read as. -/
def oneJobDouble (number : Fin 3) : ℚ := [8000.5, 120000, 0].get number

theorem oneJobWord_prints (number : Fin 3) :
    PrintsAs sampleJava oneJobWord oneJobValue number (oneJobDouble number) := by
  have long : ∀ number : Fin 3,
      longOf sampleJava ((oneJobWord number).map unitOf) = none ∧
        sampleJava.isDouble ((oneJobWord number).map unitOf) = true ∧
        oneJobValue ((oneJobWord number).map unitOf) = oneJobDouble number := by
    decide +kernel
  obtain ⟨noLong, isDouble, value⟩ := long number
  refine ⟨?_, value⟩
  rw [wordRead, noLong]
  exact if_pos isDouble

theorem oneJobDirection_document (bwBytes : Int64) (iops mean : Fin 3) :
    DirectionDocument sampleJava oneJobWord oneJobValue (oneJobDirection bwBytes iops mean)
      bwBytes (oneJobDouble iops) (oneJobDouble mean) :=
  ⟨_, _, iops, mean, rfl, rfl, rfl, rfl, rfl, oneJobWord_prints iops, oneJobWord_prints mean⟩

theorem printed_report_summarised_one_job :
    ∃ result, parseResult (tokenerJson oneJobValue sampleJava fun _ => "")
        (oneJobText ++ "\n") = .ok (some result) ∧
      VariantOf .q1t1RandRd result ∧ Explained [oneJobFigures] result := by
  refine printed_report_summarised oneJobValue (fun _ => "") oneJob_words oneJobFields ?_ oneJobText
    oneJob_received .q1t1RandRd _ [oneJobFigures] rfl (List.cons_ne_nil _ _)
    (.cons ?_ .nil) ?_ ?_ "\n"
  · have table : (fieldNames oneJobFields).all (fun name => name.all fun unit =>
        unit ≠ asciiUnit '"' ∧ unit ≠ asciiUnit '\\') = true := by
      decide +kernel
    intro name member unit inName
    exact of_decide_eq_true
      (List.all_eq_true.mp (List.all_eq_true.mp table name member) unit inName)
  · exact ⟨_, _, _, rfl, rfl, rfl, rfl, oneJobDirection_document 32768000 0 1,
      oneJobDirection_document 0 2 2⟩
  · rw [List.forall_mem_singleton]
    constructor <;> decide +kernel
  · constructor <;> decide +kernel

end RaptorMark.Native
