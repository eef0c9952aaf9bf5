import Mathlib.Data.Prod.Lex
import RaptorMark.Data.TestOptions
import RaptorMark.ViewModels.SettingViewModel

/-!
# From the dialogs to the command

The dialogs of the settings screen as a machine: `openDialog`, and the buttons
of `TextInputDialog`, `SingleChoiceDialog`, `TargetPathDialog` and
`AboutInfoDialog`, which all end in `closeDialog`.  A dialog stays open until
one of its buttons is pressed, and while it is open no other can be opened.  An
exception in `closeDialog` is caught by nobody, so a step that throws has no
next state.
-/

set_option autoImplicit false

namespace RaptorMark

open Lib Lib.Kotlin Lib.Transition SettingOptions Constants

/-- What `native_ListEngines` depends on: the engines compiled into fio and the
version of the kernel. -/
structure Device where
  ioengines : List String
  kernelMajorVersion : Int
  kernelMinorVersion : Int

def Device.checkEngineAvailability (device : Device) (engine : String) : Bool :=
  engine ∈ ["mmap", "psync", "libaio"] ||
    engine == "io_uring" &&
      (5 < device.kernelMajorVersion ||
        device.kernelMajorVersion == 5 && 4 ≤ device.kernelMinorVersion)

/-- Three engines always, and the fourth from kernel 5.4 on. -/
theorem Device.checkEngineAvailability_iff (device : Device) (engine : String) :
    device.checkEngineAvailability engine = true ↔
      engine ∈ ["mmap", "psync", "libaio"] ∨ engine = "io_uring" ∧
        toLex (5, 4) ≤ toLex (device.kernelMajorVersion, device.kernelMinorVersion) := by
  rw [Prod.Lex.toLex_le_toLex, Device.checkEngineAvailability, Bool.or_eq_true, Bool.and_eq_true,
    Bool.or_eq_true, Bool.and_eq_true, beq_iff_eq, beq_iff_eq, decide_eq_true_iff,
    decide_eq_true_iff, decide_eq_true_iff, @eq_comm ℤ 5]

/-- The `engineList` of `IO_ENGINE.onDialogContent`. -/
def Device.engineList (device : Device) : List String :=
  device.ioengines.filter device.checkEngineAvailability

/-- What the user leaves in a dialog before the button that applies it. -/
inductive DialogInput where
  | textField (text : String)
  | choice (choice : String)
  | targetPath (selectCustomPath : Bool) (text : String)

/-- `TextInputDialog`: an empty text field stands for the default. -/
def textInputResult (defaultValue : String) : DialogInput → Option String
  | .textField text => some (if text = "" then defaultValue else text)
  | _ => none

/-- The result that the open dialog hands to `closeDialog`; none where the
dialog has no such input. -/
def dialogResult (device : Device) (input : DialogInput) : SettingOptions → Option String
  | targetPath =>
      match input with
      | .targetPath selectCustomPath text => some (if selectCustomPath then text else "")
      | _ => none
  | runtimeLimit => textInputResult defaultRuntimeLimitValue input
  | seqBlockSize => textInputResult defaultSeqBlockSizeValue input
  | randBlockSize => textInputResult defaultRandBlockSizeValue input
  | ioSize => textInputResult defaultIoSizeValue input
  | ioEngine =>
      match input with
      | .choice choice => if choice ∈ device.engineList then some choice else none
      | _ => none
  | aboutInfo => none

inductive DialogEvent where
  | openDialog (option : SettingOptions)
  | apply (input : DialogInput) (fileSystem : FileSystem)
  | dismiss (fileSystem : FileSystem)

namespace SettingScreen

variable (uri : JavaNetUri) (device : Device)

def openDialog (screen : SettingScreen) (option : SettingOptions) : SettingScreen :=
  if screen.viewModel.dialogContent = none then
    { screen with viewModel.dialogContent := some option }
  else
    screen

/-- `closeDialog` where it returns. -/
def closeReturning (screen : SettingScreen) (closed : DialogClosed) : Option SettingScreen :=
  match closeDialog uri screen closed with
  | (next, .ok ()) => some next
  | (_, .error _) => none

def dialogStep (screen : SettingScreen) : DialogEvent → Option SettingScreen
  | .openDialog option => some (screen.openDialog option)
  | .apply input fileSystem => do
      let option ← screen.viewModel.dialogContent
      let result ← dialogResult device input option
      screen.closeReturning uri ⟨option, some result, fileSystem⟩
  | .dismiss fileSystem => do
      let option ← screen.viewModel.dialogContent
      screen.closeReturning uri ⟨option, none, fileSystem⟩

/-- What a step of the dialogs can do. -/
inductive DialogTaken (screen : SettingScreen) : DialogEvent → SettingScreen → Prop where
  | openDialog (option : SettingOptions) :
      DialogTaken screen (.openDialog option) (screen.openDialog option)
  | apply (input : DialogInput) (fileSystem : FileSystem) (option : SettingOptions)
      (result : String) (next : SettingScreen)
      (shown : screen.viewModel.dialogContent = some option)
      (given : dialogResult device input option = some result)
      (closed : screen.closeReturning uri ⟨option, some result, fileSystem⟩ = some next) :
      DialogTaken screen (.apply input fileSystem) next
  | dismiss (fileSystem : FileSystem) (option : SettingOptions) (next : SettingScreen)
      (shown : screen.viewModel.dialogContent = some option)
      (closed : screen.closeReturning uri ⟨option, none, fileSystem⟩ = some next) :
      DialogTaken screen (.dismiss fileSystem) next

theorem dialogStep_taken (screen next : SettingScreen) (event : DialogEvent)
    (taken : screen.dialogStep uri device event = some next) :
    DialogTaken uri device screen event next := by
  cases event with
  | openDialog option =>
      cases taken
      exact .openDialog option
  | apply input fileSystem =>
      obtain ⟨option, shown, taken⟩ := Option.bind_eq_some_iff.mp taken
      obtain ⟨result, given, closed⟩ := Option.bind_eq_some_iff.mp taken
      exact .apply input fileSystem option result next shown given closed
  | dismiss fileSystem =>
      obtain ⟨option, shown, closed⟩ := Option.bind_eq_some_iff.mp taken
      exact .dismiss fileSystem option next shown closed

/-- A `closeDialog` that returns stored the result and refreshed its row. -/
theorem closeReturning_some (screen next : SettingScreen) (closed : DialogClosed)
    (returned : screen.closeReturning uri closed = some next) :
    ∃ value, getValue uri (storeResult screen.prefs closed) closed.option = .ok value ∧
      next = ⟨storeResult screen.prefs closed,
        ⟨Function.update screen.viewModel.settingItems closed.option value, none⟩⟩ := by
  unfold closeReturning closeDialog at returned
  dsimp only at returned
  cases read : getValue uri (storeResult screen.prefs closed) closed.option with
  | ok value =>
      rw [read] at returned
      exact ⟨value, rfl, (Option.some.inj returned).symm⟩
  | error exception =>
      rw [read] at returned
      cases returned

/-- The entries with a text dialog. -/
def textOptions : List SettingOptions := [runtimeLimit, seqBlockSize, randBlockSize, ioSize]

/-- What the dialogs keep: each row shows what its entry reads, no stored text
is empty and a stored engine is one of the list. -/
structure Consistent (screen : SettingScreen) : Prop where
  rows : ∀ option, getValue uri screen.prefs option = .ok (screen.viewModel.settingItems option)
  texts : ∀ option ∈ textOptions, screen.prefs.sharedPrefs option.name ≠ some ""
  engine : ∀ engine ∈ screen.prefs.sharedPrefs ioEngine.name, engine ∈ device.engineList

theorem dialogResult_text_nonempty (input : DialogInput) (option : SettingOptions)
    (result : String) (text : option ∈ textOptions)
    (given : dialogResult device input option = some result) : result ≠ "" := by
  have nonempty : ∀ defaultValue, defaultValue ≠ "" →
      textInputResult defaultValue input = some result → result ≠ "" := by
    intro defaultValue isText applied
    cases input with
    | textField typed =>
        cases applied
        split
        · exact isText
        · assumption
    | choice => cases applied
    | targetPath => cases applied
  simp only [textOptions, List.mem_cons, List.not_mem_nil, or_false] at text
  rcases text with rfl | rfl | rfl | rfl
  · exact nonempty _ (by decide) given
  · exact nonempty _ (by decide) given
  · exact nonempty _ (by decide) given
  · exact nonempty _ (by decide) given

theorem dialogResult_engine (input : DialogInput) (result : String)
    (given : dialogResult device input ioEngine = some result) : result ∈ device.engineList := by
  cases input with
  | textField => cases given
  | targetPath => cases given
  | choice choice =>
      simp only [dialogResult] at given
      split at given
      · cases given
        assumption
      · cases given

/-- Every entry but the target path and the version stores its result as it is. -/
theorem setDialogResult_stored (fileSystem : FileSystem) (prefs : SettingSharedPrefs)
    (result : String) (option : SettingOptions) (other : option ∉ [targetPath, aboutInfo]) :
    (setDialogResult fileSystem prefs result option).sharedPrefs option.name = some result := by
  cases option with
  | targetPath => exact absurd (by decide) other
  | aboutInfo => exact absurd (by decide) other
  | _ => simp [setDialogResult, SettingSharedPrefs.setConfig]

/-- What stands under an entry's own name after a dialog was closed. -/
theorem storeResult_sharedPrefs (prefs : SettingSharedPrefs) (closed : DialogClosed)
    (option : SettingOptions) (other : option ∉ [targetPath, aboutInfo]) :
    (storeResult prefs closed).sharedPrefs option.name =
      if closed.option = option ∧ closed.result.isSome = true then closed.result
      else prefs.sharedPrefs option.name := by
  obtain ⟨target, result, fileSystem⟩ := closed
  cases result with
  | none => simp [storeResult]
  | some result =>
      by_cases same : target = option
      · subst same
        simp only [storeResult, Option.isSome_some, and_self, if_true]
        exact setDialogResult_stored fileSystem prefs result target other
      · have own : key option = option.name := by
          revert other
          cases option <;> decide
        have different : option.name ≠ key target := by
          rw [← own]
          exact fun keys => same (key_injective option target keys).symm
        simp only [storeResult, same, false_and, if_false]
        exact setDialogResult_sharedPrefs fileSystem prefs result target _ different

theorem consistent_close (screen next : SettingScreen) (closed : DialogClosed)
    (consistent : Consistent uri device screen)
    (texts : closed.option ∈ textOptions → closed.result ≠ some "")
    (engine : closed.option = ioEngine → ∀ result ∈ closed.result, result ∈ device.engineList)
    (returned : screen.closeReturning uri closed = some next) : Consistent uri device next := by
  obtain ⟨value, read, rfl⟩ := closeReturning_some uri screen next closed returned
  refine ⟨?_, ?_, ?_⟩
  · intro other
    dsimp only
    by_cases same : other = closed.option
    · subst same
      rw [read, Function.update_self]
    · rw [other_row_unchanged uri screen.prefs _ other same, Function.update_of_ne same]
      exact consistent.rows other
  · intro other text
    rw [storeResult_sharedPrefs _ _ _ (by revert text; cases other <;> decide)]
    split
    · rename_i stored
      exact texts (stored.1 ▸ text)
    · exact consistent.texts other text
  · rw [storeResult_sharedPrefs _ _ _ (by decide)]
    split
    · rename_i stored
      exact engine stored.1
    · exact consistent.engine

theorem consistent_step (screen next : SettingScreen) (event : DialogEvent)
    (consistent : Consistent uri device screen)
    (taken : screen.dialogStep uri device event = some next) : Consistent uri device next := by
  cases dialogStep_taken uri device screen next event taken with
  | openDialog option =>
      unfold openDialog
      split
      · exact ⟨consistent.rows, consistent.texts, consistent.engine⟩
      · exact consistent
  | apply input fileSystem option result _ shown given closed =>
      apply consistent_close uri device screen next _ consistent ?_ ?_ closed
      · intro text same
        exact dialogResult_text_nonempty device input option result text given
          (Option.some.inj same)
      · rintro rfl stored member
        cases member
        exact dialogResult_engine device input result given
  | dismiss fileSystem option _ shown closed =>
      apply consistent_close uri device screen next _ consistent ?_ ?_ closed
      · exact fun _ => (nomatch ·)
      · exact fun _ _ => (nomatch ·)

/-- A dismissal stores nothing; a result that is applied changes what its own
entry reads and shows, and no other. -/
def LeavesOthersAlone (screen : SettingScreen) (event : DialogEvent) (next : SettingScreen) :
    Prop :=
  match event with
  | .openDialog _ => True
  | .dismiss _ => next.prefs = screen.prefs
  | .apply _ _ => ∀ option other, screen.viewModel.dialogContent = some option → other ≠ option →
      getValue uri next.prefs other = getValue uri screen.prefs other ∧
        next.viewModel.settingItems other = screen.viewModel.settingItems other

theorem leavesOthersAlone_step (screen next : SettingScreen) (event : DialogEvent)
    (taken : screen.dialogStep uri device event = some next) :
    LeavesOthersAlone uri screen event next := by
  cases dialogStep_taken uri device screen next event taken with
  | openDialog option => trivial
  | apply input fileSystem option result _ shown given closed =>
      intro opened other isOpen different
      obtain rfl : option = opened := Option.some.inj (shown.symm.trans isOpen)
      obtain ⟨value, _, rfl⟩ := closeReturning_some uri screen next _ closed
      exact ⟨other_row_unchanged uri screen.prefs _ other different,
        Function.update_of_ne different ..⟩
  | dismiss fileSystem option _ shown closed =>
      obtain ⟨value, _, rfl⟩ := closeReturning_some uri screen next _ closed
      rfl

/-- The command of a test carries what the rows show. -/
def CarriesRows (screen : SettingScreen) (testCase : TestCase) (filePath : String) : Prop :=
  let rows := screen.viewModel.settingItems
  ∃ options,
    BenchmarkTest.testOptionsBuilder uri screen.prefs testCase filePath = .ok options ∧
    BenchmarkTest.optionValues runtimeOptName options = [rows runtimeLimit] ∧
    BenchmarkTest.optionValues ioSizeOptName options = [rows ioSize] ∧
    BenchmarkTest.optionValues ioEngineOptName options = [rows ioEngine] ∧
    BenchmarkTest.optionValues blockSizeOptName options =
      [if testCase.isSeqRw then rows seqBlockSize else rows randBlockSize]

theorem carriesRows_of_consistent (screen : SettingScreen) (testCase : TestCase)
    (filePath : String) (consistent : Consistent uri device screen) :
    CarriesRows uri screen testCase filePath := by
  have built := BenchmarkTest.testOptionsBuilder_eq uri screen.prefs testCase filePath
    screen.viewModel.settingItems fun option _ => consistent.rows option
  obtain ⟨_, runtime, blockSize, size, engine⟩ := BenchmarkTest.optionValues_jobOptions testCase
    filePath (screen.viewModel.settingItems runtimeLimit)
    (screen.viewModel.settingItems (BenchmarkTest.blockSizeOption testCase))
    (screen.viewModel.settingItems ioSize) (screen.viewModel.settingItems ioEngine)
  refine ⟨_, built, runtime, size, engine, blockSize.trans ?_⟩
  unfold BenchmarkTest.blockSizeOption
  split <;> rfl

theorem start_consistent (appFilesDir : FilesDir) :
    ∃ first, start uri appFilesDir = .ok first ∧ Consistent uri device first := by
  obtain ⟨first, started, usable⟩ := start_usable uri appFilesDir
  have fresh := start_prefs uri appFilesDir first started
  refine ⟨first, started, usable.rows, ?_, ?_⟩
  · intro option _
    rw [fresh]
    exact (nomatch ·)
  · intro engine stored
    rw [fresh] at stored
    cases stored

/-- After any run of dialogs in which nothing throws, the rows show what the
entries read, no stored text is empty, the next step leaves all other entries
alone, and the next command of every test case carries the rows. -/
theorem dialogs_consistent (appFilesDir : FilesDir) :
    ∃ first, start uri appFilesDir = .ok first ∧ ∀ events final,
      runEvents (dialogStep uri device) first events = some final →
        (∀ option, getValue uri final.prefs option = .ok (final.viewModel.settingItems option)) ∧
        (∀ event next, final.dialogStep uri device event = some next →
          LeavesOthersAlone uri final event next) ∧
        (∀ option ∈ textOptions, final.prefs.sharedPrefs option.name ≠ some "") ∧
        ∀ testCase filePath, CarriesRows uri final testCase filePath := by
  obtain ⟨first, started, consistent⟩ := start_consistent uri device appFilesDir
  refine ⟨first, started, fun events final run => ?_⟩
  have kept : Consistent uri device final :=
    runEvents_invariant (dialogStep uri device) (Consistent uri device) (fun _ _ => True)
      (fun screen event next holds _ taken =>
        consistent_step uri device screen next event holds taken)
      events first final consistent (along_of_forall _ (fun _ _ => trivial) _ _) run
  exact ⟨kept.rows, fun event next taken => leavesOthersAlone_step uri device final next event taken,
    kept.texts, fun testCase filePath => carriesRows_of_consistent uri device final testCase
      filePath kept⟩

def sampleDevice : Device := ⟨["libaio", "psync", "null"], 4, 14⟩

def sampleFileSystem : FileSystem := oneDirectory "/sdcard" (by decide)

/-- The runtime is changed, an engine is chosen and a dialog is dismissed. -/
def sampleDialogs : List DialogEvent :=
  [.openDialog .runtimeLimit, .apply (.textField "30") sampleFileSystem,
    .openDialog .ioEngine, .apply (.choice "psync") sampleFileSystem,
    .openDialog .ioSize, .dismiss sampleFileSystem]

theorem sample_dialogs_consistent :
    ∃ first final, start plainUri sampleFilesDir = .ok first ∧
      runEvents (dialogStep plainUri sampleDevice) first sampleDialogs = some final ∧
      final.viewModel.settingItems .runtimeLimit = "30" ∧
      final.viewModel.settingItems .ioEngine = "psync" ∧
      CarriesRows plainUri final .q8t8SeqRd "/data/Q8T8_SEQ_RD" := by
  have evaluated : ((start plainUri sampleFilesDir).toOption.bind fun first =>
      runEvents (dialogStep plainUri sampleDevice) first sampleDialogs).map (fun final =>
        (final.viewModel.settingItems .runtimeLimit, final.viewModel.settingItems .ioEngine)) =
      some ("30", "psync") := by
    decide +kernel
  obtain ⟨first, started, consistent⟩ := dialogs_consistent plainUri sampleDevice sampleFilesDir
  rw [started] at evaluated
  obtain ⟨final, run, facts⟩ := Option.map_eq_some_iff.mp evaluated
  obtain ⟨runtime, engine⟩ := Prod.mk.inj facts
  obtain ⟨_, _, _, carries⟩ := consistent sampleDialogs final run
  exact ⟨first, final, started, run, runtime, engine, carries .q8t8SeqRd _⟩

end SettingScreen

end RaptorMark
