import RaptorMark.Data.SettingOptions
import RaptorMark.Lib.Transition

/-!
# The settings screen

`SettingViewModel` caches what each entry displays and refreshes only the row
whose dialog is closed.  The result of a dialog is stored before the row is
read again, so a value that cannot be read back is already in the preferences
when the reading fails, and it is still there at the next launch.
-/

set_option autoImplicit false

namespace RaptorMark

open Lib Lib.Kotlin Lib.Transition SettingOptions

structure SettingViewModel where
  /-- `data.value` of the row of each entry. -/
  settingItems : SettingOptions → String
  /-- The entry whose dialog is open. -/
  dialogContent : Option SettingOptions := none

/-- The constructor: every row reads its value. -/
def SettingViewModel.create (uri : JavaNetUri) (prefs : SettingSharedPrefs) :
    Except JavaException SettingViewModel := do
  let rows ← SettingOptions.values.mapM fun option => do
    return (option, ← getValue uri prefs option)
  return { settingItems := fun option => (rows.lookup option).getD "" }

/-- The preferences together with the view model of the screen. -/
structure SettingScreen where
  prefs : SettingSharedPrefs
  viewModel : SettingViewModel

/-- A dialog that is closed: its entry, its result if it was not dismissed, and
the file system at that moment. -/
structure DialogClosed where
  option : SettingOptions
  result : Option String
  fileSystem : FileSystem

namespace SettingScreen

variable (uri : JavaNetUri)

/-- The first statement of `closeDialog`. -/
def storeResult (prefs : SettingSharedPrefs) (closed : DialogClosed) : SettingSharedPrefs :=
  match closed.result with
  | some result => setDialogResult closed.fileSystem prefs result closed.option
  | none => prefs

/-- `closeDialog`.  When `getValue` throws, the result is stored, the row keeps
its old text and `dialogContent` is not reset. -/
def closeDialog (screen : SettingScreen) (closed : DialogClosed) :
    SettingScreen × Except JavaException Unit :=
  let prefs := storeResult screen.prefs closed
  match getValue uri prefs closed.option with
  | .ok value =>
      let settingItems := Function.update screen.viewModel.settingItems closed.option value
      ({ prefs, viewModel := { settingItems, dialogContent := none } }, .ok ())
  | .error exception => ({ screen with prefs }, .error exception)

/-- One dialog, from the moment it is shown to the end of `closeDialog`. -/
def step (screen : SettingScreen) (closed : DialogClosed) : Option SettingScreen :=
  let shown := { screen.viewModel with dialogContent := some closed.option }
  some (closeDialog uri { screen with viewModel := shown } closed).1

/-- The first launch: no preference is stored. -/
def start (appFilesDir : FilesDir) : Except JavaException SettingScreen :=
  (SettingViewModel.create uri { appFilesDir }).map fun viewModel =>
    { prefs := { appFilesDir }, viewModel }

/-- The screen works and so does the next launch: every entry can be read and
its row shows what it reads, no dialog is left open, and a new view model can
be constructed from the stored preferences. -/
structure Usable (screen : SettingScreen) : Prop where
  rows : ∀ option, getValue uri screen.prefs option = .ok (screen.viewModel.settingItems option)
  closed : screen.viewModel.dialogContent = none
  relaunch : ∃ viewModel, SettingViewModel.create uri screen.prefs = .ok viewModel

/-- A directory accepted as target path is a URI reference with a path. -/
def AcceptsHierarchical (closed : DialogClosed) : Prop :=
  closed.option = .targetPath → ∀ path ∈ closed.result,
    closed.fileSystem.isDirectory path = true → UriReference.hierarchical path.toList = true

theorem create_ok (prefs : SettingSharedPrefs) (rows : SettingOptions → String)
    (read : ∀ option, getValue uri prefs option = .ok (rows option)) :
    SettingViewModel.create uri prefs = .ok { settingItems := rows } := by
  unfold SettingViewModel.create
  simp only [SettingOptions.values, List.mapM_cons, List.mapM_nil, read, bind, Except.bind, pure,
    Except.pure, Except.ok.injEq, SettingViewModel.mk.injEq, and_true]
  funext option
  cases option <;> rfl

theorem filesDir_hierarchical (dir : FilesDir) :
    UriReference.hierarchical dir.absolutePath.toList = true := by
  rw [FilesDir.absolutePath, String.toList_ofList]
  exact UriReference.hierarchical_of_plain_path dir.segments dir.plain

/-- After a target path is set, its entry can be read exactly if the path was no
directory, and the default is used, or is a URI reference with a path. -/
theorem targetPath_readable_iff (fileSystem : FileSystem) (prefs : SettingSharedPrefs)
    (path : String) :
    (∃ value, getValue uri (setTargetPath fileSystem prefs path) .targetPath = .ok value) ↔
      (fileSystem.isDirectory path = true → UriReference.hierarchical path.toList = true) := by
  simp only [getValue, targetPathValue_ok_iff]
  by_cases directory : fileSystem.isDirectory path = true
  · rw [getTestDirPath_setTargetPath fileSystem prefs path directory]
    simp [directory]
  · rw [setTargetPath, if_neg directory, SettingSharedPrefs.getTestDirPath_setTestDirPath,
      if_pos rfl]
    simp only [SettingSharedPrefs.getDefaultDirPath, filesDir_hierarchical, directory,
      Bool.false_eq_true, false_imp_iff]

theorem closed_row_readable_iff (prefs : SettingSharedPrefs) (closed : DialogClosed)
    (before : ∃ value, getValue uri prefs closed.option = .ok value) :
    (∃ value, getValue uri (storeResult prefs closed) closed.option = .ok value) ↔
      AcceptsHierarchical closed := by
  obtain ⟨option, result, fileSystem⟩ := closed
  cases result with
  | none => exact ⟨fun _ _ _ dismissed => (nomatch dismissed), fun _ => before⟩
  | some path =>
      by_cases target : option = .targetPath
      · subst target
        simp only [storeResult, setDialogResult, targetPath_readable_iff uri fileSystem prefs path]
        simp [AcceptsHierarchical]
      · exact ⟨fun _ same => absurd same target, fun _ => getValue_ok uri _ option target⟩

theorem other_row_unchanged (prefs : SettingSharedPrefs) (closed : DialogClosed)
    (other : SettingOptions) (different : other ≠ closed.option) :
    getValue uri (storeResult prefs closed) other = getValue uri prefs other := by
  unfold storeResult
  split
  · exact getValue_setDialogResult_other uri _ _ _ _ other different
  · rfl

theorem usable_step_iff (screen next : SettingScreen) (closed : DialogClosed)
    (usable : Usable uri screen) (taken : screen.step uri closed = some next) :
    AcceptsHierarchical closed ↔ Usable uri next := by
  rw [← closed_row_readable_iff uri screen.prefs closed ⟨_, usable.rows closed.option⟩]
  cases taken
  unfold closeDialog
  dsimp only
  cases read : getValue uri (storeResult screen.prefs closed) closed.option with
  | ok value =>
      refine ⟨fun _ => ?_, fun _ => ⟨value, rfl⟩⟩
      have rows : ∀ option, getValue uri (storeResult screen.prefs closed) option =
          .ok (Function.update screen.viewModel.settingItems closed.option value option) := by
        intro option
        by_cases same : option = closed.option
        · rw [same, read, Function.update_self]
        · rw [other_row_unchanged uri screen.prefs closed option same, Function.update_of_ne same]
          exact usable.rows option
      exact ⟨rows, rfl, _, create_ok uri _ _ rows⟩
  | error exception =>
      refine ⟨fun readable => ?_, fun broken => ?_⟩
      · obtain ⟨value, ⟨⟩⟩ := readable
      · have row := broken.rows closed.option
        rw [read] at row
        cases row

theorem start_prefs (appFilesDir : FilesDir) (first : SettingScreen)
    (started : start uri appFilesDir = .ok first) : first.prefs = { appFilesDir } := by
  unfold start at started
  cases created : SettingViewModel.create uri { appFilesDir } with
  | error exception =>
      rw [created] at started
      cases started
  | ok viewModel =>
      rw [created] at started
      cases started
      rfl

theorem start_usable (appFilesDir : FilesDir) :
    ∃ first, start uri appFilesDir = .ok first ∧ Usable uri first := by
  have readable : ∀ option, ∃ value, getValue uri { appFilesDir } option = .ok value := by
    intro option
    by_cases target : option = .targetPath
    · subst target
      rw [getValue, targetPathValue_ok_iff, SettingSharedPrefs.getTestDirPath_fresh]
      exact filesDir_hierarchical appFilesDir
    · exact getValue_ok uri _ option target
  choose rows read using readable
  have created := create_ok uri _ rows read
  refine ⟨⟨{ appFilesDir }, { settingItems := rows }⟩, ?_, read, rfl, _, created⟩
  unfold start
  rw [created]
  rfl

/-- From the first launch on, the settings screen and every later launch keep
working exactly if each directory that is accepted as target path is a URI
reference with a path. -/
theorem usable_throughout_iff (appFilesDir : FilesDir) :
    ∃ first, start uri appFilesDir = .ok first ∧ ∀ dialogs,
      (Throughout (step uri) (Usable uri) first dialogs ↔
        ∀ closed ∈ dialogs, AcceptsHierarchical closed) := by
  obtain ⟨first, started, usable⟩ := start_usable uri appFilesDir
  refine ⟨first, started, fun dialogs => ?_⟩
  rw [← along_iff_forall_mem (step uri) (fun _ _ => rfl) dialogs first]
  apply throughout_iff_along (step uri) (fun _ => True)
  · exact fun _ _ _ _ _ => trivial
  · intro screen closed next _ usable taken
    exact usable_step_iff uri screen next closed usable taken
  · trivial
  · exact usable

/-! ## A directory name with a space -/

def spacedDirectory : DialogClosed :=
  ⟨.targetPath, some "/sdcard/My Files", oneDirectory "/sdcard/My Files" (by decide)⟩

/-- The directory is accepted and stored; the row cannot be read, the dialog
stays open, and the view model of the next launch cannot be constructed. -/
theorem space_in_directory_breaks_settings :
    ∃ first, start plainUri sampleFilesDir = .ok first ∧
      let shown := { first with viewModel.dialogContent := some .targetPath }
      let (broken, outcome) := closeDialog plainUri shown spacedDirectory
      outcome = .error .uriSyntaxException ∧
      broken.prefs.getTestDirPath = "/sdcard/My Files" ∧
      broken.viewModel.dialogContent = some .targetPath ∧
      (SettingViewModel.create plainUri broken.prefs).isOk = false ∧
      ¬Throughout (step plainUri) (Usable plainUri) first [spacedDirectory] := by
  obtain ⟨first, started, usable⟩ := start_usable plainUri sampleFilesDir
  have fresh := start_prefs plainUri sampleFilesDir first started
  have read : getValue plainUri (storeResult { appFilesDir := sampleFilesDir } spacedDirectory)
      .targetPath = .error .uriSyntaxException := by
    decide +kernel
  have outcome : closeDialog plainUri
      { first with viewModel.dialogContent := some .targetPath } spacedDirectory =
        (⟨storeResult { appFilesDir := sampleFilesDir } spacedDirectory,
          { first.viewModel with dialogContent := some .targetPath }⟩,
        .error .uriSyntaxException) := by
    unfold closeDialog
    dsimp only
    rw [fresh]
    have option : spacedDirectory.option = .targetPath := rfl
    rw [option, read]
  refine ⟨first, started, ?_⟩
  dsimp only
  rw [outcome]
  have stored : (storeResult { appFilesDir := sampleFilesDir }
      spacedDirectory).getTestDirPath = "/sdcard/My Files" := by
    decide +kernel
  have relaunch : (SettingViewModel.create plainUri
      (storeResult { appFilesDir := sampleFilesDir } spacedDirectory)).isOk = false := by
    decide +kernel
  refine ⟨rfl, stored, rfl, relaunch, fun throughout => ?_⟩
  have row := (throughout.2 _ rfl).rows .targetPath
  rw [show spacedDirectory.option = .targetPath from rfl, outcome, read] at row
  cases row

end SettingScreen

end RaptorMark
