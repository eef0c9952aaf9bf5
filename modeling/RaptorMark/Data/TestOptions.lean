import RaptorMark.Data.SettingOptions

/-!
# The command of a test

`getRandomFilePath` and `testOptionsBuilder` of `BenchmarkTest`: where a test
keeps its file, and the options its fio job is started with, in order.
-/

set_option autoImplicit false

namespace RaptorMark

open Lib Lib.Kotlin Constants

namespace BenchmarkTest

def fileSuffixLength : Nat := 8

/-- The random part of a file name, drawn from `a..z`, `A..Z` and `0..9`. -/
structure RandomSuffix where
  chars : List Char
  length : chars.length = fileSuffixLength
  alphanumeric : ∀ c ∈ chars, c.isAlphanum = true

def sampleSuffix : RandomSuffix where
  chars := "abcdefgh".toList
  length := rfl
  alphanumeric := List.all_eq_true.mp (by decide)

def getRandomFilePath (prefs : SettingSharedPrefs) (testCase : TestCase)
    (randomSuffix : RandomSuffix) : String :=
  prefs.getTestDirPath ++ "/" ++ testCase.name ++ String.ofList randomSuffix.chars

/-- The JSON object of one option; `put` with a null value stores nothing. -/
structure JobOption where
  name : String
  value : Option String
  deriving DecidableEq, Repr

def createOption (name : String) (value : Option String := none) : JobOption := ⟨name, value⟩

/-- The array `options` of the command, whose `shortopts` is false. -/
def testOptionsBuilder (uri : JavaNetUri) (prefs : SettingSharedPrefs) (testCase : TestCase)
    (filePath : String) : Except JavaException (List JobOption) := do
  let runtime ← SettingOptions.getValue uri prefs .runtimeLimit
  let blockSize ←
    if testCase.isSeqRw then
      SettingOptions.getValue uri prefs .seqBlockSize
    else
      SettingOptions.getValue uri prefs .randBlockSize
  let ioSize ← SettingOptions.getValue uri prefs .ioSize
  let ioEngine ← SettingOptions.getValue uri prefs .ioEngine
  let rwMixWrite := testCase.rwMixWrite.toList.map fun share =>
    createOption rwMixWriteOptName (some (toString share))
  return [
    createOption newJobOptName (some testCase.name),
    createOption filePathOptName (some filePath),
    createOption ioTypeOptName (some testCase.type),
    createOption ioDepthOptName (some (toString testCase.ioDepth)),
    createOption runtimeOptName (some runtime),
    createOption blockSizeOptName (some blockSize),
    createOption ioSizeOptName (some ioSize),
    createOption directIoOptName (some constantDirectIoValue),
    createOption ioEngineOptName (some ioEngine),
    createOption numThreadsOptName (some (toString testCase.numJobs))] ++
    rwMixWrite ++ [
    createOption etaPrintOptName (some constantEtaPrintValue),
    createOption outputFormatOptName (some constantOutputFormatValue)]

/-- The values of all options of one name. -/
def optionValues (name : String) (options : List JobOption) : List String :=
  (options.filter fun option => option.name = name).filterMap JobOption.value

/-- The options for given values of the settings. -/
def jobOptions (testCase : TestCase) (filePath runtime blockSize ioSize ioEngine : String) :
    List JobOption :=
  [⟨newJobOptName, some testCase.name⟩, ⟨filePathOptName, some filePath⟩,
    ⟨ioTypeOptName, some testCase.type⟩, ⟨ioDepthOptName, some (toString testCase.ioDepth)⟩,
    ⟨runtimeOptName, some runtime⟩, ⟨blockSizeOptName, some blockSize⟩,
    ⟨ioSizeOptName, some ioSize⟩, ⟨directIoOptName, some constantDirectIoValue⟩,
    ⟨ioEngineOptName, some ioEngine⟩, ⟨numThreadsOptName, some (toString testCase.numJobs)⟩] ++
  (testCase.rwMixWrite.toList.map fun share => ⟨rwMixWriteOptName, some (toString share)⟩) ++
  [⟨etaPrintOptName, some constantEtaPrintValue⟩,
    ⟨outputFormatOptName, some constantOutputFormatValue⟩]

/-- The block size that a test case reads. -/
def blockSizeOption (testCase : TestCase) : SettingOptions :=
  if testCase.isSeqRw then .seqBlockSize else .randBlockSize

theorem testOptionsBuilder_eq (uri : JavaNetUri) (prefs : SettingSharedPrefs)
    (testCase : TestCase) (filePath : String) (rows : SettingOptions → String)
    (read : ∀ option ≠ .targetPath, SettingOptions.getValue uri prefs option = .ok (rows option)) :
    testOptionsBuilder uri prefs testCase filePath =
      .ok (jobOptions testCase filePath (rows .runtimeLimit) (rows (blockSizeOption testCase))
        (rows .ioSize) (rows .ioEngine)) := by
  unfold testOptionsBuilder blockSizeOption
  rw [read .runtimeLimit (by decide), read .seqBlockSize (by decide),
    read .randBlockSize (by decide), read .ioSize (by decide), read .ioEngine (by decide)]
  cases testCase.isSeqRw <;> rfl

theorem optionValues_jobOptions (testCase : TestCase)
    (filePath runtime blockSize ioSize ioEngine : String) :
    let options := jobOptions testCase filePath runtime blockSize ioSize ioEngine
    optionValues filePathOptName options = [filePath] ∧
      optionValues runtimeOptName options = [runtime] ∧
      optionValues blockSizeOptName options = [blockSize] ∧
      optionValues ioSizeOptName options = [ioSize] ∧
      optionValues ioEngineOptName options = [ioEngine] := by
  unfold jobOptions
  cases testCase.rwMixWrite with
  | none => exact ⟨rfl, rfl, rfl, rfl, rfl⟩
  | some share => exact ⟨rfl, rfl, rfl, rfl, rfl⟩

/-- The command always can be built, and it names one file. -/
theorem testOptionsBuilder_filename (uri : JavaNetUri) (prefs : SettingSharedPrefs)
    (testCase : TestCase) (filePath : String) :
    ∃ options, testOptionsBuilder uri prefs testCase filePath = .ok options ∧
      optionValues filePathOptName options = [filePath] := by
  choose! rows read using SettingOptions.getValue_ok uri prefs
  exact ⟨_, testOptionsBuilder_eq uri prefs testCase filePath rows read,
    (optionValues_jobOptions testCase filePath _ _ _ _).1⟩

end BenchmarkTest

end RaptorMark
