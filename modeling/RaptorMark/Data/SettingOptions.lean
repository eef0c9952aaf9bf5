import Mathlib.Logic.Function.Basic
import RaptorMark.Data.TestCase
import RaptorMark.Lib.Kotlin
import RaptorMark.Lib.UriReference

/-!
# Settings

`SettingSharedPrefs` and the data side of `SettingOptions`: what each entry
reads from the preferences and what the result of its dialog stores there.
`java.net.URI`, the file system and the app's files directory are platform
code; they enter with what the platform documents about them.
-/

set_option autoImplicit false

namespace RaptorMark

open Lib Lib.Kotlin

/-- `Context.filesDir`: an absolute path of plain names, such as
`/data/user/0/io.github.devriesl.raptormark/files`. -/
structure FilesDir where
  segments : List Char
  plain : ∀ c ∈ segments, c = '/' ∨ UriReference.isUnreserved c = true

def FilesDir.absolutePath (dir : FilesDir) : String := String.ofList ('/' :: dir.segments)

def sampleFilesDir : FilesDir where
  segments := "data/user/0/io.github.devriesl.raptormark/files".toList
  plain := by
    have every : "data/user/0/io.github.devriesl.raptormark/files".toList.all
        (fun c => c == '/' || UriReference.isUnreserved c) = true := by
      decide +kernel
    simpa only [List.all_eq_true, Bool.or_eq_true, beq_iff_eq] using every

/-- `java.io.File`: the empty path is no directory. -/
structure FileSystem where
  isDirectory : String → Bool
  empty : isDirectory "" = false

/-- A file system with one directory. -/
def oneDirectory (directory : String) (nonempty : directory ≠ "") : FileSystem where
  isDirectory := fun path => path == directory
  empty := by simpa using nonempty.symm

/-- `URI(text).path` of `java.net.URI`: the constructor throws exactly outside
the grammar of URI references, and exactly an opaque URI has a null path. -/
structure JavaNetUri where
  path : String → Except JavaException (Option String)
  throws_iff : ∀ text, (∃ exception, path text = .error exception) ↔
    UriReference.uriReference text.toList = false
  null_iff : ∀ text, path text = .ok none ↔ UriReference.opaqueUri text.toList = true

theorem JavaNetUri.path_iff (uri : JavaNetUri) (text : String) :
    (∃ path, uri.path text = .ok (some path)) ↔
      UriReference.hierarchical text.toList = true := by
  have throws := uri.throws_iff text
  have null := uri.null_iff text
  unfold UriReference.hierarchical
  cases read : uri.path text with
  | error exception =>
      have outside := throws.mp ⟨exception, read⟩
      simp [outside]
  | ok path =>
      have inside : UriReference.uriReference text.toList = true := by
        rw [← Bool.not_eq_false, ← throws, read]
        rintro ⟨exception, ⟨⟩⟩
      cases path with
      | none => simp [null.mp read]
      | some path =>
          have notOpaque : UriReference.opaqueUri text.toList = false := by
            rw [Bool.eq_false_iff, ne_eq, ← null, read]
            rintro ⟨⟩
          simp [inside, notOpaque]

/-- `java.net.URI` on texts whose path is the whole text. -/
def plainUri : JavaNetUri where
  path := fun text =>
    if UriReference.uriReference text.toList then
      if UriReference.opaqueUri text.toList then .ok none else .ok (some text)
    else .error .uriSyntaxException
  throws_iff := by
    intro text
    cases UriReference.uriReference text.toList <;> cases UriReference.opaqueUri text.toList <;>
      simp
  null_iff := by
    intro text
    unfold UriReference.opaqueUri
    cases UriReference.uriReference text.toList <;> simp

/-! ## Shared preferences -/

structure SettingSharedPrefs where
  sharedPrefs : String → Option String := fun _ => none
  appFilesDir : FilesDir

namespace SettingSharedPrefs

def testDirPathKey : String := "test_dir_path"

def getConfig (prefs : SettingSharedPrefs) (key defValue : String) : String :=
  (prefs.sharedPrefs key).getD defValue

def setConfig (prefs : SettingSharedPrefs) (key value : String) : SettingSharedPrefs :=
  { prefs with sharedPrefs := Function.update prefs.sharedPrefs key (some value) }

def getDefaultDirPath (prefs : SettingSharedPrefs) : String := prefs.appFilesDir.absolutePath

def getTestDirPath (prefs : SettingSharedPrefs) : String :=
  let value := prefs.getConfig testDirPathKey prefs.getDefaultDirPath
  if value = "" then prefs.appFilesDir.absolutePath else value

def setTestDirPath (prefs : SettingSharedPrefs) (path : String) : SettingSharedPrefs :=
  prefs.setConfig testDirPathKey path

@[simp] theorem getConfig_setConfig_same (prefs : SettingSharedPrefs)
    (key value defValue : String) : (prefs.setConfig key value).getConfig key defValue = value := by
  simp [getConfig, setConfig]

theorem getTestDirPath_fresh (appFilesDir : FilesDir) :
    ({ appFilesDir } : SettingSharedPrefs).getTestDirPath = appFilesDir.absolutePath := by
  unfold getTestDirPath
  exact ite_self _

theorem getTestDirPath_setTestDirPath (prefs : SettingSharedPrefs) (path : String) :
    (prefs.setTestDirPath path).getTestDirPath =
      if path = "" then prefs.getDefaultDirPath else path := by
  unfold getTestDirPath setTestDirPath
  rw [getConfig_setConfig_same]
  rfl

end SettingSharedPrefs

/-! ## The entries of the settings screen -/

inductive SettingOptions where
  | targetPath
  | runtimeLimit
  | seqBlockSize
  | randBlockSize
  | ioSize
  | ioEngine
  | aboutInfo
  deriving DecidableEq, Repr

namespace SettingOptions

open Constants SettingSharedPrefs

def values : List SettingOptions :=
  [targetPath, runtimeLimit, seqBlockSize, randBlockSize, ioSize, ioEngine, aboutInfo]

def name : SettingOptions → String
  | targetPath => "TARGET_PATH"
  | runtimeLimit => "RUNTIME_LIMIT"
  | seqBlockSize => "SEQ_BLOCK_SIZE"
  | randBlockSize => "RAND_BLOCK_SIZE"
  | ioSize => "IO_SIZE"
  | ioEngine => "IO_ENGINE"
  | aboutInfo => "ABOUT_INFO"

/-- `BuildConfig.VERSION_NAME`, from the build file. -/
def versionName : String := "2.1.1"

/-- `TARGET_PATH.getValue`.  Only the cutting of the path is inside the `try`;
the parsing of the URI and the null check of its path are outside. -/
def targetPathValue (uri : JavaNetUri) (prefs : SettingSharedPrefs) :
    Except JavaException String := do
  match ← uri.path prefs.getTestDirPath with
  | none => .error .nullPointerException
  | some path =>
      match substring path (indexOf path '/' 0) (indexOf path '/' 1) with
      | .ok shortened => .ok shortened
      | .error _ => .ok path

def getValue (uri : JavaNetUri) (prefs : SettingSharedPrefs) :
    SettingOptions → Except JavaException String
  | targetPath => targetPathValue uri prefs
  | runtimeLimit => .ok (prefs.getConfig runtimeLimit.name defaultRuntimeLimitValue)
  | seqBlockSize => .ok (prefs.getConfig seqBlockSize.name defaultSeqBlockSizeValue)
  | randBlockSize => .ok (prefs.getConfig randBlockSize.name defaultRandBlockSizeValue)
  | ioSize => .ok (prefs.getConfig ioSize.name defaultIoSizeValue)
  | ioEngine => .ok (prefs.getConfig ioEngine.name defaultIoEngineValue)
  | aboutInfo => .ok versionName

/-- `TARGET_PATH.setDialogResult`. -/
def setTargetPath (fileSystem : FileSystem) (prefs : SettingSharedPrefs) (result : String) :
    SettingSharedPrefs :=
  if fileSystem.isDirectory result then
    prefs.setTestDirPath result
  else
    prefs.setTestDirPath ""

def setDialogResult (fileSystem : FileSystem) (prefs : SettingSharedPrefs) (result : String) :
    SettingOptions → SettingSharedPrefs
  | targetPath => setTargetPath fileSystem prefs result
  | runtimeLimit => prefs.setConfig runtimeLimit.name result
  | seqBlockSize => prefs.setConfig seqBlockSize.name result
  | randBlockSize => prefs.setConfig randBlockSize.name result
  | ioSize => prefs.setConfig ioSize.name result
  | ioEngine => prefs.setConfig ioEngine.name result
  | aboutInfo => prefs

theorem getTestDirPath_setTargetPath (fileSystem : FileSystem) (prefs : SettingSharedPrefs)
    (path : String) (directory : fileSystem.isDirectory path = true) :
    (setTargetPath fileSystem prefs path).getTestDirPath = path := by
  have nonempty : path ≠ "" := by
    rintro rfl
    rw [fileSystem.empty] at directory
    cases directory
  rw [setTargetPath, if_pos directory, getTestDirPath_setTestDirPath, if_neg nonempty]

theorem targetPathValue_ok_iff (uri : JavaNetUri) (prefs : SettingSharedPrefs) :
    (∃ value, targetPathValue uri prefs = .ok value) ↔
      UriReference.hierarchical prefs.getTestDirPath.toList = true := by
  rw [← uri.path_iff]
  unfold targetPathValue
  cases uri.path prefs.getTestDirPath with
  | error exception => simp [bind, Except.bind]
  | ok path =>
      cases path with
      | none => simp [bind, Except.bind]
      | some path =>
          simp only [bind, Except.bind, Except.ok.injEq, Option.some.injEq, exists_eq', iff_true]
          split
          · exact ⟨_, rfl⟩
          · exact ⟨_, rfl⟩

/-- Only the target path can fail to be read. -/
theorem getValue_ok (uri : JavaNetUri) (prefs : SettingSharedPrefs) (option : SettingOptions)
    (other : option ≠ targetPath) : ∃ value, getValue uri prefs option = .ok value := by
  cases option with
  | targetPath => exact absurd rfl other
  | _ => exact ⟨_, rfl⟩

/-- The preference an entry reads and writes. -/
def key : SettingOptions → String
  | targetPath => testDirPathKey
  | option => option.name

theorem key_injective (option other : SettingOptions) (same : key option = key other) :
    option = other := by
  cases option <;> cases other <;> first | rfl | exact absurd same (by decide)

theorem setDialogResult_appFilesDir (fileSystem : FileSystem) (prefs : SettingSharedPrefs)
    (result : String) (option : SettingOptions) :
    (setDialogResult fileSystem prefs result option).appFilesDir = prefs.appFilesDir := by
  cases option with
  | targetPath =>
      simp only [setDialogResult, setTargetPath]
      split <;> rfl
  | _ => rfl

theorem setDialogResult_sharedPrefs (fileSystem : FileSystem) (prefs : SettingSharedPrefs)
    (result : String) (option : SettingOptions) (other : String) (different : other ≠ key option) :
    (setDialogResult fileSystem prefs result option).sharedPrefs other =
      prefs.sharedPrefs other := by
  cases option with
  | targetPath =>
      simp only [setDialogResult, setTargetPath]
      split <;> exact Function.update_of_ne different ..
  | aboutInfo => rfl
  | _ => exact Function.update_of_ne different ..

theorem getValue_congr (uri : JavaNetUri) (prefs others : SettingSharedPrefs)
    (option : SettingOptions) (sameDir : others.appFilesDir = prefs.appFilesDir)
    (sameValue : others.sharedPrefs (key option) = prefs.sharedPrefs (key option)) :
    getValue uri others option = getValue uri prefs option := by
  cases option with
  | targetPath =>
      have sameStored : others.sharedPrefs testDirPathKey = prefs.sharedPrefs testDirPathKey :=
        sameValue
      have samePath : others.getTestDirPath = prefs.getTestDirPath := by
        unfold getTestDirPath getDefaultDirPath getConfig
        rw [sameDir, sameStored]
      simp only [getValue, targetPathValue, samePath]
  | aboutInfo => rfl
  | _ => exact congrArg (fun stored => Except.ok (Option.getD stored _)) sameValue

/-- A dialog result changes what its own entry reads, and no other. -/
theorem getValue_setDialogResult_other (uri : JavaNetUri) (fileSystem : FileSystem)
    (prefs : SettingSharedPrefs) (result : String) (option other : SettingOptions)
    (different : other ≠ option) :
    getValue uri (setDialogResult fileSystem prefs result option) other =
      getValue uri prefs other := by
  apply getValue_congr
  · exact setDialogResult_appFilesDir fileSystem prefs result option
  · apply setDialogResult_sharedPrefs
    exact fun same => different (key_injective other option same)

end SettingOptions

end RaptorMark
