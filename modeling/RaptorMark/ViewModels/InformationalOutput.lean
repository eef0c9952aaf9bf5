import RaptorMark.ViewModels.RecordedResults

/-!
# Informational lines around a report

Every text that fio logs is passed to the listener, which parses all it has
received after each message.  `JSONObject(String)` reads the first value of a
text and ignores the rest, so lines after the report do no harm; a line before
it does not parse, and the listener throws into the native call.
-/

set_option autoImplicit false

namespace RaptorMark

open Lib Lib.Kotlin

/-- `JSONObject(String)` parses the first value and ignores what follows it. -/
def OrgJson.IgnoresRest (json : OrgJson) : Prop :=
  ∀ text members rest, json.parse text = some members → json.parse (text ++ rest) = some members

/-- A text that is no JSON object. -/
def OrgJson.PlainLine (json : OrgJson) (line : String) : Prop := json.parse line = none

/-- A report that can be parsed to its end. -/
def OrgJson.CompleteReport (json : OrgJson) (report : String) (result : Option TestResult) : Prop :=
  parseResult json report = .ok result

theorem parseResult_plain (json : OrgJson) (line : String) (plain : json.PlainLine line) :
    parseResult json line = .error .jsonException := by
  unfold parseResult OrgJson.jsonObject
  rw [plain]
  rfl

theorem parseResult_append (json : OrgJson) (ignores : json.IgnoresRest) (report rest : String)
    (result : Option TestResult) (complete : json.CompleteReport report result) :
    parseResult json (report ++ rest) = .ok result := by
  unfold OrgJson.CompleteReport at complete
  cases parsed : json.parse report with
  | none =>
      rw [parseResult_plain json report parsed] at complete
      cases complete
  | some members =>
      have extended := ignores report members rest parsed
      unfold parseResult OrgJson.jsonObject at complete ⊢
      rw [parsed] at complete
      rw [extended]
      exact complete

namespace World

variable (json : OrgJson)

/-- Every other listener that is still registered can parse what it holds after
each message. -/
def OthersParse (world : World) (ref : TestRef) (messages : List String) : Prop :=
  ∀ other ∈ world.listeners, other ≠ ref →
    ParsesEach json (world.tests other).nativeResult messages

theorem runTest_returns_iff (world : World) (ref : TestRef) (outcome : NativeOutcome)
    (code : Int32) (ended : outcome.ending = .returned code) :
    (∃ result, (world.runTest json ref outcome).2 = .ok result) ↔
      ParsesEach json none outcome.messages ∧ world.OthersParse json ref outcome.messages := by
  have empty : ((world.enterNative ref).tests ref).nativeResult = none := by
    simp [enterNative, registerListener]
  have listeners : (∀ other ∈ (world.enterNative ref).listeners,
      ParsesEach json ((world.enterNative ref).tests other).nativeResult outcome.messages) ↔
        ParsesEach json none outcome.messages ∧ world.OthersParse json ref outcome.messages := by
    simp only [mem_enterNative]
    constructor
    · intro every
      constructor
      · rw [← empty]
        exact every ref (Or.inl rfl)
      · intro other member different
        rw [← enterNative_other world ref other different]
        exact every other (Or.inr member)
    · rintro ⟨own, others⟩ other member
      by_cases same : other = ref
      · rw [same, empty]
        exact own
      · rw [enterNative_other world ref other same]
        exact others other (member.resolve_left same) same
  rw [← listeners]
  have delivered := deliver_ok_iff json (world.enterNative ref) outcome.callbacks
  constructor
  · rintro ⟨result, returned⟩
    apply delivered.mp
    rcases runTest_cases json world ref outcome with ⟨exception, run⟩ | ⟨_, call, _⟩
    · rw [run] at returned
      cases returned
    · exact ((nativeTest_ok_iff json _ outcome _).mp call).1
  · intro every
    have call := (nativeTest_ok_iff json (world.enterNative ref) outcome code).mpr
      ⟨delivered.mpr every, ended⟩
    exact ⟨_, by rw [runTest_of_call json world ref outcome code call]⟩

theorem joinResult_none (message : String) : joinResult none message = message := by
  simp [joinResult]

theorem joinResult_some (text message : String) :
    joinResult (some text) message = text ++ (lineSeparator ++ message) := by
  simp [joinResult, String.intercalate_cons_cons, String.append_assoc]

/-- The induction is on the lines that follow; the text held keeps the report
at its front. -/
theorem parsesEach_after_report (ignores : json.IgnoresRest) (report rest : String)
    (result : Option TestResult) (complete : json.CompleteReport report result)
    (after : List String) : ParsesEach json (some (report ++ rest)) after := by
  induction after generalizing rest with
  | nil => exact parsesEach_nil json _
  | cons line lines ih =>
      rw [parsesEach_cons, joinResult_some, String.append_assoc]
      constructor
      · rw [parseResult_append json ignores report _ result complete]
        rfl
      · exact ih _

theorem accumulate_after_report (report rest : String) (after : List String) :
    ∃ later, accumulate (some (report ++ rest)) after = some (report ++ later) := by
  induction after generalizing rest with
  | nil => exact ⟨rest, rfl⟩
  | cons line lines ih =>
      obtain ⟨later, held⟩ := ih (rest ++ (lineSeparator ++ line))
      rw [← String.append_assoc, ← joinResult_some] at held
      exact ⟨later, held⟩

/-- A line in front does not parse, whatever comes later. -/
theorem not_parsesEach_plain (line : String) (plain : json.PlainLine line) (rest : List String) :
    ¬ParsesEach json none (line :: rest) := by
  intro every
  have first := ((parsesEach_cons json none line rest).mp every).1
  rw [joinResult_none, parseResult_plain json line plain] at first
  cases first

/-- Among plain lines one report is recorded exactly if it is the first message
and no other listener that is still registered throws. -/
theorem report_recorded_iff (ignores : json.IgnoresRest) (world : World) (ref : TestRef)
    (outcome : NativeOutcome) (code : Int32) (report : String) (result : Option TestResult)
    (before after : List String) (ended : outcome.ending = .returned code)
    (complete : json.CompleteReport report result)
    (messages : outcome.messages = before ++ report :: after)
    (plain : ∀ line ∈ before ++ after, json.PlainLine line) :
    (∃ text, (world.runTest json ref outcome).2 = .ok (some text) ∧
        ((world.runTest json ref outcome).1.tests ref).testResult = result) ↔
      before = [] ∧ world.OthersParse json ref outcome.messages := by
  have returns := runTest_returns_iff json world ref outcome code ended
  constructor
  · rintro ⟨text, returned, _⟩
    obtain ⟨own, others⟩ := returns.mp ⟨_, returned⟩
    refine ⟨?_, others⟩
    cases before with
    | nil => rfl
    | cons line lines =>
        rw [messages, List.cons_append] at own
        exact absurd own (not_parsesEach_plain json line (plain line (by simp)) _)
  · rintro ⟨rfl, others⟩
    rw [List.nil_append] at messages
    have own : ParsesEach json none outcome.messages := by
      rw [messages, parsesEach_cons, joinResult_none]
      refine ⟨by rw [complete]; rfl, ?_⟩
      have later := parsesEach_after_report json ignores report "" result complete after
      rwa [String.append_empty] at later
    obtain ⟨recorded, returned⟩ := returns.mpr ⟨own, others⟩
    obtain ⟨_, joined, parsed⟩ := runTest_ok json world ref outcome recorded returned
    obtain ⟨later, held⟩ := accumulate_after_report report "" after
    have text : recorded = some (report ++ later) := by
      rw [joined, messages, ← held, String.append_empty]
      simp [accumulate, joinResult_none]
    subst text
    refine ⟨_, returned, ?_⟩
    have final := parsed _ rfl
    rw [parseResult_append json ignores report later result complete] at final
    exact (Except.ok.inj final).symm

/-! ## One line next to a report -/

/-- `org.json` on texts that start with the sample report. -/
def frontJson : OrgJson :=
  { App.sampleJson with
    parse := fun text =>
      if App.sampleReport.toList <+: text.toList then some App.sampleTree else none }

theorem frontJson_ignoresRest : frontJson.IgnoresRest := by
  intro text members rest parsed
  simp only [frontJson] at parsed ⊢
  split at parsed
  · rename_i starts
    rw [String.toList_append, if_pos (starts.trans (List.prefix_append _ _))]
    exact parsed
  · cases parsed

theorem noticeLine_plain : frontJson.PlainLine App.noticeLine := by
  have different : ¬App.sampleReport.toList <+: App.noticeLine.toList := by decide +kernel
  simp only [OrgJson.PlainLine, frontJson, if_neg different]

theorem sampleReport_complete :
    frontJson.CompleteReport App.sampleReport (some (.random 8000 120)) := by
  unfold OrgJson.CompleteReport
  decide +kernel

def twoMessages (first second : String) : NativeOutcome :=
  ⟨[⟨first, .stored⟩, ⟨second, .stored⟩], .returned 1, id⟩

theorem line_after_report_recorded :
    ∃ text, (App.sampleStart.world.runTest frontJson ⟨0, .q1t1RandRd⟩
          (twoMessages App.sampleReport App.noticeLine)).2 = .ok (some text) ∧
      ((App.sampleStart.world.runTest frontJson ⟨0, .q1t1RandRd⟩
          (twoMessages App.sampleReport App.noticeLine)).1.tests ⟨0, .q1t1RandRd⟩).testResult =
        some (.random 8000 120) := by
  have plain : ∀ line ∈ [App.noticeLine], frontJson.PlainLine line :=
    List.forall_mem_singleton.mpr noticeLine_plain
  apply (report_recorded_iff frontJson frontJson_ignoresRest _ _ _ 1 App.sampleReport _ []
    [App.noticeLine] rfl sampleReport_complete rfl plain).mpr
  exact ⟨rfl, fun _ => (nomatch ·)⟩

/-- fio runs out of space before the report: the test throws. -/
theorem line_before_report_lost :
    frontJson.PlainLine App.noticeLine ∧
      frontJson.CompleteReport App.sampleReport (some (.random 8000 120)) ∧
      (App.sampleStart.world.runTest frontJson ⟨0, .q1t1RandRd⟩
        (twoMessages App.noticeLine App.sampleReport)).2 = .error .jsonException ∧
      ((App.sampleStart.world.runTest frontJson ⟨0, .q1t1RandRd⟩
        (twoMessages App.noticeLine App.sampleReport)).1.tests ⟨0, .q1t1RandRd⟩).testResult = none := by
  have evaluated : (fun after : World × Except JavaException (Option String) =>
      (after.2, (after.1.tests ⟨0, .q1t1RandRd⟩).testResult))
        (App.sampleStart.world.runTest frontJson ⟨0, .q1t1RandRd⟩
          (twoMessages App.noticeLine App.sampleReport)) = (.error .jsonException, none) := by
    decide +kernel
  obtain ⟨threw, shown⟩ := Prod.mk.inj evaluated
  exact ⟨noticeLine_plain, sampleReport_complete, threw, shown⟩

end World

end RaptorMark
