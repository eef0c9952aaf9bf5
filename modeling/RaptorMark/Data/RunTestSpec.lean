import RaptorMark.Data.BenchmarkTest

/-!
# What one test run can change

One lemma for each function between `onTestResult` and `runTest`: the objects
it leaves alone, the listeners it leaves registered and, when it returns
normally, what the listener of the running test holds.
-/

set_option autoImplicit false

namespace RaptorMark.World

open Lib Lib.Kotlin

variable (json : OrgJson)

/-! ## One message -/

@[simp] theorem onTestResult_listeners (world : World) (ref : TestRef) (result : String) :
    (world.onTestResult json ref result).1.listeners = world.listeners := by
  unfold onTestResult
  dsimp only
  split <;> rfl

theorem onTestResult_other (world : World) (ref other : TestRef) (result : String)
    (different : other ≠ ref) :
    (world.onTestResult json ref result).1.tests other = world.tests other := by
  unfold onTestResult
  dsimp only
  split <;> exact setTest_tests_other _ _ _ _ different

theorem onTestResult_ok (world : World) (ref : TestRef) (result : String)
    (returned : (world.onTestResult json ref result).2 = .ok ()) :
    ((world.onTestResult json ref result).1.tests ref).nativeResult =
        some (joinResult (world.tests ref).nativeResult result) ∧
      parseResult json (joinResult (world.tests ref).nativeResult result) =
        .ok ((world.onTestResult json ref result).1.tests ref).testResult := by
  unfold onTestResult at returned ⊢
  dsimp only at returned ⊢
  split
  · rename_i parsed parse
    simp [parse]
  · rename_i exception parse
    simp [parse] at returned

/-- What every listener keeps, the loop over the listeners keeps. -/
theorem notifyListeners_keeps {β : Type} (observe : World → β) (message : String)
    (kept : ∀ world ref, observe (onTestResult json world ref message).1 = observe world)
    (world : World) (refs : List TestRef) :
    observe (notifyListeners json message world refs).1 = observe world := by
  induction refs generalizing world with
  | nil => rfl
  | cons ref rest ih =>
      have head := kept world ref
      unfold notifyListeners
      split
      · rename_i next step
        rw [step] at head
        rw [ih next, head]
      · rename_i next exception step
        rw [step] at head
        exact head

theorem notifyListeners_other (world : World) (message : String) (refs : List TestRef)
    (other : TestRef) (absent : other ∉ refs) :
    (notifyListeners json message world refs).1.tests other = world.tests other := by
  induction refs generalizing world with
  | nil => rfl
  | cons ref rest ih =>
      rw [List.mem_cons, not_or] at absent
      have head := onTestResult_other json world ref other message absent.1
      unfold notifyListeners
      split
      · rename_i next step
        rw [step] at head
        rw [ih next absent.2, head]
      · rename_i next exception step
        rw [step] at head
        exact head

/-- When no listener throws, every listener stored and parsed the message. -/
theorem notifyListeners_ok (world : World) (message : String) (refs : List TestRef)
    (ref : TestRef) (distinct : refs.Nodup) (member : ref ∈ refs)
    (returned : (notifyListeners json message world refs).2 = .ok ()) :
    ((notifyListeners json message world refs).1.tests ref).nativeResult =
        some (joinResult (world.tests ref).nativeResult message) ∧
      parseResult json (joinResult (world.tests ref).nativeResult message) =
        .ok ((notifyListeners json message world refs).1.tests ref).testResult := by
  induction refs generalizing world with
  | nil => simp at member
  | cons head rest ih =>
      obtain ⟨headAbsent, restDistinct⟩ := List.nodup_cons.mp distinct
      unfold notifyListeners at returned ⊢
      split at returned
      · rename_i next step
        by_cases isHead : ref = head
        · subst isHead
          have stored := onTestResult_ok json world ref message (by rw [step])
          have kept := notifyListeners_other json next message rest ref headAbsent
          simp only [step] at stored
          rw [kept]
          exact stored
        · have inRest : ref ∈ rest := (List.mem_cons.mp member).resolve_left isHead
          have before := onTestResult_other json world head ref message isHead
          rw [step] at before
          have later := ih next restDistinct inRest returned
          rw [before] at later
          exact later
      · cases returned

/-- The loop returns exactly if every listener can parse its text with the new
message. -/
theorem notifyListeners_ok_iff (world : World) (message : String) (refs : List TestRef)
    (distinct : refs.Nodup) :
    (notifyListeners json message world refs).2 = .ok () ↔
      ∀ ref ∈ refs,
        (parseResult json (joinResult (world.tests ref).nativeResult message)).isOk = true := by
  induction refs generalizing world with
  | nil => simp [notifyListeners]
  | cons head rest ih =>
      obtain ⟨headAbsent, restDistinct⟩ := List.nodup_cons.mp distinct
      have others : ∀ ref ∈ rest, (world.onTestResult json head message).1.tests ref =
          world.tests ref := by
        intro ref member
        apply onTestResult_other
        rintro rfl
        exact headAbsent member
      rw [List.forall_mem_cons]
      cases parse : parseResult json (joinResult (world.tests head).nativeResult message) with
      | error exception => simp [notifyListeners, onTestResult, parse, Except.isOk, Except.toBool]
      | ok parsed =>
          have step : (world.onTestResult json head message).2 = .ok () := by
            simp [onTestResult, parse]
          unfold notifyListeners
          split
          · rename_i next taken
            rw [taken] at others
            rw [ih next restDistinct]
            refine ⟨fun later => ⟨rfl, fun ref member => ?_⟩, fun every ref member => ?_⟩
            · rw [← others ref member]
              exact later ref member
            · rw [others ref member]
              exact every.2 ref member
          · rename_i next exception taken
            rw [taken] at step
            cases step

@[simp] theorem updateStatus_listeners (world : World) (callback : Callback) :
    (world.updateStatus json callback).1.listeners = world.listeners :=
  notifyListeners_keeps json listeners callback.message
    (fun world ref => onTestResult_listeners json world ref callback.message) world _

theorem updateStatus_other (world : World) (callback : Callback) (other : TestRef)
    (absent : other ∉ world.listeners) :
    (world.updateStatus json callback).1.tests other = world.tests other := by
  apply notifyListeners_other
  rwa [HashSet.mem_iterate]

theorem updateStatus_ok (world : World) (callback : Callback) (ref : TestRef)
    (member : ref ∈ world.listeners)
    (returned : (world.updateStatus json callback).2 = .ok ()) :
    ((world.updateStatus json callback).1.tests ref).nativeResult =
        some (joinResult (world.tests ref).nativeResult callback.message) ∧
      parseResult json (joinResult (world.tests ref).nativeResult callback.message) =
        .ok ((world.updateStatus json callback).1.tests ref).testResult :=
  notifyListeners_ok json world callback.message _ ref
    (HashSet.iterate_nodup _ _) ((HashSet.mem_iterate _ _ _).mpr member) returned

theorem updateStatus_ok_iff (world : World) (callback : Callback) :
    (world.updateStatus json callback).2 = .ok () ↔
      ∀ ref ∈ world.listeners, (parseResult json
        (joinResult (world.tests ref).nativeResult callback.message)).isOk = true := by
  rw [updateStatus, notifyListeners_ok_iff json world _ _ (HashSet.iterate_nodup _ _)]
  simp only [HashSet.mem_iterate]

/-! ## The messages of one native call -/

/-- The text a listener holds after a list of messages. -/
def accumulate (text : Option String) (messages : List String) : Option String :=
  messages.foldl (fun held message => some (joinResult held message)) text

/-- What every listener keeps at every message, the native call's messages keep. -/
theorem deliver_keeps {β : Type} (observe : World → β)
    (kept : ∀ world ref message, observe (onTestResult json world ref message).1 = observe world)
    (world : World) (callbacks : List Callback) :
    observe (world.deliver json callbacks).1 = observe world := by
  induction callbacks generalizing world with
  | nil => rfl
  | cons callback rest ih =>
      have head := notifyListeners_keeps json observe callback.message
        (fun world ref => kept world ref callback.message) world
        (world.listeners.iterate callback.order)
      unfold deliver updateStatus
      split
      · rename_i next step
        rw [step] at head
        rw [ih next, head]
      · rename_i next exception step
        rw [step] at head
        exact head

@[simp] theorem deliver_listeners (world : World) (callbacks : List Callback) :
    (world.deliver json callbacks).1.listeners = world.listeners :=
  deliver_keeps json listeners (onTestResult_listeners json) world callbacks

/-- A message reaches registered listeners only. -/
theorem deliver_other (world : World) (callbacks : List Callback) (other : TestRef)
    (absent : other ∉ world.listeners) :
    (world.deliver json callbacks).1.tests other = world.tests other := by
  induction callbacks generalizing world with
  | nil => rfl
  | cons callback rest ih =>
      have head := updateStatus_other json world callback other absent
      have same := updateStatus_listeners json world callback
      unfold deliver
      split
      · rename_i next step
        rw [step] at head same
        rw [ih next (by rw [same]; exact absent), head]
      · rename_i next exception step
        rw [step] at head
        exact head

/-- When the call delivers everything, a registered listener holds its old text
followed by all messages, and the last thing it parsed is that text. -/
theorem deliver_ok (world : World) (callbacks : List Callback) (ref : TestRef)
    (member : ref ∈ world.listeners)
    (returned : (world.deliver json callbacks).2 = .ok ()) :
    ((world.deliver json callbacks).1.tests ref).nativeResult =
        accumulate (world.tests ref).nativeResult (callbacks.map Callback.message) ∧
      (callbacks ≠ [] → ∃ text,
        ((world.deliver json callbacks).1.tests ref).nativeResult = some text ∧
          parseResult json text = .ok ((world.deliver json callbacks).1.tests ref).testResult) := by
  induction callbacks generalizing world with
  | nil => exact ⟨rfl, fun nonempty => absurd rfl nonempty⟩
  | cons callback rest ih =>
      have same := updateStatus_listeners json world callback
      unfold deliver at returned ⊢
      split at returned
      · rename_i next step
        have stored := updateStatus_ok json world callback ref member (by rw [step])
        rw [step] at stored same
        have memberNext : ref ∈ next.listeners := same ▸ member
        obtain ⟨held, parsed⟩ := ih next memberNext returned
        refine ⟨?_, fun _ => ?_⟩
        · rw [held, stored.1]
          rfl
        · cases rest with
          | nil => exact ⟨_, stored.1, stored.2⟩
          | cons second later => exact parsed (by simp)
      · cases returned

/-- A listener that holds this text can parse what it holds after each of the
messages. -/
def ParsesEach (held : Option String) (messages : List String) : Prop :=
  ∀ received, received <+: messages → received ≠ [] →
    ∀ text, accumulate held received = some text → (parseResult json text).isOk = true

theorem parsesEach_nil (held : Option String) : ParsesEach json held [] :=
  fun _ short nonempty => absurd (List.prefix_nil.mp short) nonempty

theorem parsesEach_cons (held : Option String) (message : String) (rest : List String) :
    ParsesEach json held (message :: rest) ↔
      (parseResult json (joinResult held message)).isOk = true ∧
        ParsesEach json (some (joinResult held message)) rest := by
  constructor
  · intro every
    constructor
    · exact every [message] (List.cons_prefix_cons.mpr ⟨rfl, List.nil_prefix⟩) (by simp) _ rfl
    · intro received short nonempty text accumulated
      exact every (message :: received) (List.cons_prefix_cons.mpr ⟨rfl, short⟩) (by simp) text
        accumulated
  · rintro ⟨head, later⟩ received short nonempty text accumulated
    cases received with
    | nil => exact absurd rfl nonempty
    | cons first more =>
        obtain ⟨rfl, moreShort⟩ := List.cons_prefix_cons.mp short
        cases more with
        | nil =>
            cases accumulated
            exact head
        | cons second others => exact later _ moreShort (by simp) text accumulated

/-- The delivery returns exactly if every registered listener can parse its text
after every message. -/
theorem deliver_ok_iff (world : World) (callbacks : List Callback) :
    (world.deliver json callbacks).2 = .ok () ↔ ∀ ref ∈ world.listeners,
      ParsesEach json (world.tests ref).nativeResult (callbacks.map Callback.message) := by
  induction callbacks generalizing world with
  | nil => exact ⟨fun _ ref _ => parsesEach_nil json _, fun _ => rfl⟩
  | cons callback rest ih =>
      have head := updateStatus_ok_iff json world callback
      have same := updateStatus_listeners json world callback
      rw [List.map_cons]
      simp only [parsesEach_cons]
      unfold deliver
      split
      · rename_i next step
        have parses := head.mp (by rw [step])
        have held : ∀ ref ∈ world.listeners, (next.tests ref).nativeResult =
            some (joinResult (world.tests ref).nativeResult callback.message) := by
          intro ref member
          have stored := (updateStatus_ok json world callback ref member (by rw [step])).1
          rw [step] at stored
          exact stored
        rw [step] at same
        rw [ih next, same]
        refine ⟨fun later ref member => ⟨parses ref member, ?_⟩, fun every ref member => ?_⟩
        · rw [← held ref member]
          exact later ref member
        · rw [held ref member]
          exact (every ref member).2
      · rename_i next exception step
        refine ⟨(nomatch ·), fun every => ?_⟩
        have returned := head.mpr fun ref member => (every ref member).1
        rw [step] at returned
        cases returned

/-! ## The accumulated text -/

theorem joinResult_intercalate (messages : List String) (message : String)
    (nonempty : messages ≠ []) :
    joinResult (some (lineSeparator.intercalate messages)) message =
      lineSeparator.intercalate (messages ++ [message]) := by
  rw [String.intercalate_append_of_ne_nil nonempty (by simp), String.intercalate_singleton]
  simp [joinResult, String.intercalate_cons_cons]

theorem accumulate_joined (earlier messages : List String) (nonempty : earlier ≠ []) :
    accumulate (some (lineSeparator.intercalate earlier)) messages =
      some (lineSeparator.intercalate (earlier ++ messages)) := by
  induction messages generalizing earlier with
  | nil => simp [accumulate]
  | cons message rest ih =>
      have step := ih (earlier ++ [message]) (by simp)
      rw [← joinResult_intercalate earlier message nonempty] at step
      simpa [accumulate] using step

/-- From an empty listener the messages end up joined by the line separator. -/
theorem accumulate_none (messages : List String) :
    accumulate none messages =
      if messages = [] then none else some (lineSeparator.intercalate messages) := by
  cases messages with
  | nil => rfl
  | cons first rest =>
      have joined := accumulate_joined [first] rest (by simp)
      rw [if_neg (by simp)]
      exact joined

/-! ## One test -/

theorem nativeTest_listeners (world : World) (outcome : NativeOutcome) :
    (world.nativeTest json outcome).1.listeners = world.listeners := by
  have same := deliver_listeners json world outcome.callbacks
  unfold nativeTest
  dsimp only
  split <;> exact same

theorem nativeTest_tests (world : World) (outcome : NativeOutcome) :
    (world.nativeTest json outcome).1.tests = (world.deliver json outcome.callbacks).1.tests := by
  unfold nativeTest
  dsimp only
  split <;> rfl

theorem nativeTest_ok_iff (world : World) (outcome : NativeOutcome) (code : Int32) :
    (world.nativeTest json outcome).2 = .ok code ↔
      (world.deliver json outcome.callbacks).2 = .ok () ∧ outcome.ending = .returned code := by
  unfold nativeTest
  dsimp only
  split
  · rename_i delivered
    simp [delivered]
  · rename_i delivered ended
    simp [ended]
  · rename_i other delivered ended
    simp [delivered, ended]

theorem mem_enterNative (world : World) (ref other : TestRef) :
    other ∈ (world.enterNative ref).listeners ↔ other = ref ∨ other ∈ world.listeners :=
  HashSet.mem_add _ _ _

theorem enterNative_other (world : World) (ref other : TestRef) (different : other ≠ ref) :
    (world.enterNative ref).tests other = world.tests other :=
  setTest_tests_other _ _ _ _ different

/-- The two ways out of `runTest`: only the normal one unregisters the listener. -/
theorem runTest_cases (world : World) (ref : TestRef) (outcome : NativeOutcome) :
    (∃ exception, world.runTest json ref outcome =
        (((world.enterNative ref).nativeTest json outcome).1, .error exception)) ∨
      (∃ code, ((world.enterNative ref).nativeTest json outcome).2 = .ok code ∧
        world.runTest json ref outcome =
          (((((world.enterNative ref).nativeTest json outcome).1.unregisterListener
              ref).deleteTestFile ref),
            .ok (((world.enterNative ref).nativeTest json outcome).1.tests ref).nativeResult)) := by
  unfold runTest
  split
  · rename_i called exception call
    exact Or.inl ⟨exception, by rw [call]⟩
  · rename_i called code call
    exact Or.inr ⟨code, by rw [call], by rw [call]; rfl⟩

/-- A call that returns is followed by the two clean-up steps. -/
theorem runTest_of_call (world : World) (ref : TestRef) (outcome : NativeOutcome) (code : Int32)
    (call : ((world.enterNative ref).nativeTest json outcome).2 = .ok code) :
    world.runTest json ref outcome =
      ((((world.enterNative ref).nativeTest json outcome).1.unregisterListener
          ref).deleteTestFile ref,
        .ok (((world.enterNative ref).nativeTest json outcome).1.tests ref).nativeResult) := by
  unfold runTest
  split
  · rename_i called exception step
    rw [step] at call
    cases call
  · rename_i called _ step
    rw [step]
    rfl

theorem runTest_other (world : World) (ref other : TestRef) (outcome : NativeOutcome)
    (different : other ≠ ref) (absent : other ∉ world.listeners) :
    (world.runTest json ref outcome).1.tests other = world.tests other := by
  have unheard : other ∉ (world.enterNative ref).listeners := by
    rw [mem_enterNative, not_or]
    exact ⟨different, absent⟩
  have kept : ((world.enterNative ref).nativeTest json outcome).1.tests other =
      world.tests other := by
    rw [nativeTest_tests, deliver_other json _ _ _ unheard,
      enterNative_other world ref other different]
  rcases runTest_cases json world ref outcome with ⟨exception, run⟩ | ⟨code, _, run⟩ <;>
    rw [run] <;> exact kept

theorem runTest_listeners_subset (world : World) (ref other : TestRef) (outcome : NativeOutcome)
    (member : other ∈ (world.runTest json ref outcome).1.listeners) :
    other = ref ∨ other ∈ world.listeners := by
  rw [← mem_enterNative, ← nativeTest_listeners json _ outcome]
  rcases runTest_cases json world ref outcome with ⟨exception, run⟩ | ⟨code, _, run⟩
  · rwa [run] at member
  · rw [run] at member
    exact ((HashSet.mem_remove _ _ _).mp member).2

/-- What a normal return means: the call ended with a code, the listener is
gone from the set, the returned text is the call's own messages joined, and the
test's last parsed result is the parse of that text. -/
theorem runTest_ok (world : World) (ref : TestRef) (outcome : NativeOutcome)
    (result : Option String) (returned : (world.runTest json ref outcome).2 = .ok result) :
    ref ∉ (world.runTest json ref outcome).1.listeners ∧
      result = accumulate none outcome.messages ∧
      ∀ raw, result = some raw →
        parseResult json raw =
          .ok ((world.runTest json ref outcome).1.tests ref).testResult := by
  rcases runTest_cases json world ref outcome with ⟨exception, run⟩ | ⟨code, call, run⟩
  · rw [run] at returned
    cases returned
  · have delivered := ((nativeTest_ok_iff json _ outcome code).mp call).1
    have registered : ref ∈ (world.enterNative ref).listeners :=
      (mem_enterNative world ref ref).mpr (Or.inl rfl)
    obtain ⟨held, parsed⟩ := deliver_ok json _ outcome.callbacks ref registered delivered
    have empty : ((world.enterNative ref).tests ref).nativeResult = none := by
      simp [enterNative, registerListener]
    rw [run] at returned ⊢
    have resultExact : result =
        (((world.enterNative ref).deliver json outcome.callbacks).1.tests ref).nativeResult := by
      rw [← nativeTest_tests]
      exact (Except.ok.inj returned).symm
    refine ⟨?_, ?_, ?_⟩
    · intro member
      exact ((HashSet.mem_remove _ _ _).mp member).1 rfl
    · rw [resultExact, held, empty]
      rfl
    · intro raw isRaw
      have nonempty : outcome.callbacks ≠ [] := by
        intro none
        rw [resultExact, held, empty, none] at isRaw
        cases isRaw
      obtain ⟨text, textHeld, textParsed⟩ := parsed nonempty
      have same : raw = text := by
        rw [resultExact, textHeld] at isRaw
        exact (Option.some.inj isRaw).symm
      subst same
      rw [← nativeTest_tests] at textParsed
      exact textParsed

/-! ## The file of a test -/

theorem onTestResult_filePath (world : World) (ref other : TestRef) (result : String) :
    ((world.onTestResult json ref result).1.tests other).filePath =
      (world.tests other).filePath := by
  by_cases same : other = ref
  · subst same
    unfold onTestResult
    dsimp only
    split <;> rw [setTest_tests_same]
  · rw [onTestResult_other json world ref other result same]

theorem deliver_filePath (world : World) (callbacks : List Callback) (other : TestRef) :
    ((world.deliver json callbacks).1.tests other).filePath = (world.tests other).filePath :=
  deliver_keeps json (fun world => (world.tests other).filePath)
    (fun world ref message => onTestResult_filePath json world ref other message) world callbacks

theorem enterNative_filePath (world : World) (ref other : TestRef) :
    ((world.enterNative ref).tests other).filePath = (world.tests other).filePath := by
  by_cases same : other = ref
  · subst same
    unfold enterNative registerListener
    rw [setTest_tests_same]
  · rw [enterNative_other world ref other same]

/-- A test keeps the file path it was created with. -/
theorem runTest_filePath (world : World) (ref other : TestRef) (outcome : NativeOutcome) :
    ((world.runTest json ref outcome).1.tests other).filePath = (world.tests other).filePath := by
  have called : (((world.enterNative ref).nativeTest json outcome).1.tests other).filePath =
      (world.tests other).filePath := by
    rw [nativeTest_tests, deliver_filePath, enterNative_filePath]
  rcases runTest_cases json world ref outcome with ⟨exception, run⟩ | ⟨code, _, run⟩ <;>
    rw [run] <;> exact called

theorem onTestResult_files (world : World) (ref : TestRef) (result : String) :
    (world.onTestResult json ref result).1.files = world.files := by
  unfold onTestResult
  dsimp only
  split <;> rfl

/-- The messages touch no file; what is on disk after the call is the call's own doing. -/
theorem nativeTest_files (world : World) (outcome : NativeOutcome) :
    (world.nativeTest json outcome).1.files = outcome.files world.files := by
  have delivered := deliver_keeps json files (onTestResult_files json) world outcome.callbacks
  unfold nativeTest
  dsimp only
  rw [delivered]
  split <;> rfl

end RaptorMark.World
