import RaptorMark.Native.Json2Options
import RaptorMark.ViewModels.SettingDialogs

/-!
# The room in an argv slot

`json2Options` allocates 256 bytes for each argument and formats into them
without a bound.  How many bytes an argument takes is decided by the settings:
the directory that the test object was created with, and the texts that are
read when the command is built.
-/

set_option autoImplicit false

namespace RaptorMark.Native

open Lib Lib.ModifiedUtf8 Lib.Transition CJson BenchmarkTest Constants SettingOptions

def argvOptionMaxLength : Nat := 256

/-- The command of a test, as the native side receives it. -/
def commandBytes (options : List JobOption) : List UInt8 :=
  encode (TextOption.printCommand false (options.map TextOption.ofJobOption))

/-- Every argument of the test's command, its terminating NUL included, stays
inside its slot. -/
def ArgvFits (uri : JavaNetUri) (strtod : Strtod) (getprogname : List UInt8)
    (prefs : SettingSharedPrefs) (testCase : TestCase) (filePath : String) : Prop :=
  ∃ options argc argv, testOptionsBuilder uri prefs testCase filePath = .ok options ∧
    json2Options strtod getprogname (commandBytes options) = some (argc, argv) ∧
    ∀ argument ∈ argv, argument.length + 1 ≤ argvOptionMaxLength

/-- The bytes of a text on the native side, up to its first U+0000. -/
def textBytes (text : String) : Nat := (cText (decode (ofString text))).length

/-! ## Counting bytes -/

theorem ofString_nulFree (text : String) (nulFree : '\x00' ∉ text.toList) : 0 ∉ ofString text := by
  intro member
  obtain ⟨c, inside, zero⟩ := List.mem_flatMap.mp member
  have valid : c.toNat < 0xD800 ∨ 0xDFFF < c.toNat ∧ c.toNat < 0x110000 := c.valid
  unfold charUnits at zero
  split at zero
  · rename_i small
    rw [List.mem_singleton] at zero
    have code := congrArg UInt16.toNat zero
    rw [UInt16.toNat_ofNat', Nat.mod_eq_of_lt small] at code
    have isNul : c = '\x00' := Char.toNat_inj.mp code.symm
    exact nulFree (isNul ▸ inside)
  · rename_i large
    simp only [List.mem_cons, List.not_mem_nil, or_false] at zero
    rcases zero with zero | zero
    all_goals
      have code := congrArg UInt16.toNat zero
      rw [UInt16.toNat_ofNat', Nat.mod_eq_of_lt (by omega)] at code
      change 0 = _ at code
      omega

theorem textBytes_append (first second : String) (nulFree : '\x00' ∉ first.toList) :
    textBytes (first ++ second) = textBytes first + textBytes second := by
  have free := ofString_nulFree first nulFree
  have whole := cText_decode (ofString first) free
  have nonzero : ∀ b ∈ decode (ofString first), b ≠ 0 := by
    intro b member zero
    rw [decode_eq_encode _ free] at member
    exact encode_nulFree _ (zero ▸ member)
  unfold textBytes
  rw [ofString_append, decode, List.flatMap_append]
  change (cText (decode (ofString first) ++ decode (ofString second))).length = _
  rw [cText, List.takeWhile_append_of_pos (by simpa using nonzero), List.length_append, whole,
    decode_eq_encode _ free]
  rfl

def isAsciiText (c : Char) : Bool := c ≠ '\x00' && c.toNat < 0x80

theorem encode_charUnits_ascii (c : Char) (ascii : isAsciiText c = true) :
    encode (charUnits c) = [byte c] := by
  simp only [isAsciiText, Bool.and_eq_true, decide_eq_true_eq] at ascii
  have units : charUnits c = [.ofNat c.toNat] := if_pos (by omega)
  have code : (UInt16.ofNat c.toNat).toNat = c.toNat := by
    rw [UInt16.toNat_ofNat']
    exact Nat.mod_eq_of_lt (by omega)
  have nonzero : UInt16.ofNat c.toNat ≠ 0 := by
    intro zero
    rw [zero] at code
    exact ascii.1 (Char.toNat_inj.mp code.symm)
  rw [units, encode_cons, encodeUnit_ascii _ nonzero (by omega), code]
  rfl

/-- An ASCII text reaches the native side byte for byte. -/
theorem cText_ascii (text : String) (ascii : ∀ c ∈ text.toList, isAsciiText c = true) :
    cText (decode (ofString text)) = bytes text := by
  have nulFree : '\x00' ∉ text.toList := fun member => absurd (ascii _ member) (by decide)
  have encoded : ∀ chars : List Char, (∀ c ∈ chars, isAsciiText c = true) →
      encode (chars.flatMap charUnits) = chars.map byte := by
    intro chars
    induction chars with
    | nil => exact fun _ => rfl
    | cons c rest ih =>
        intro every
        rw [List.forall_mem_cons] at every
        rw [List.flatMap_cons, encode_append, encode_charUnits_ascii c every.1, ih every.2]
        rfl
  rw [cText_decode _ (ofString_nulFree text nulFree)]
  exact encoded text.toList ascii

theorem textBytes_ascii (text : String) (ascii : ∀ c ∈ text.toList, isAsciiText c = true) :
    textBytes text = text.toList.length := by
  unfold textBytes
  rw [cText_ascii text ascii, bytes, List.length_map]

theorem isAsciiText_of_isAlphanum (c : Char) (alphanumeric : c.isAlphanum = true) :
    isAsciiText c = true := by
  have ranges : ((decide (65 ≤ c.val ∧ c.val ≤ 90) ||
      (decide (97 ≤ c.val) && decide (c.val ≤ 122))) ||
        (decide (48 ≤ c.val) && decide (c.val ≤ 57))) = true := alphanumeric
  have code : 48 ≤ c.toNat ∧ c.toNat ≤ 122 := by
    change 48 ≤ c.val.toNat ∧ c.val.toNat ≤ 122
    simp only [Bool.or_eq_true, Bool.and_eq_true, decide_eq_true_eq, UInt32.le_iff_toNat_le,
      UInt32.reduceToNat] at ranges
    omega
  have nonzero : c ≠ '\x00' := by
    rintro rfl
    exact absurd code.1 (by decide)
  simp only [isAsciiText, Bool.and_eq_true, decide_eq_true_eq]
  exact ⟨nonzero, by omega⟩

theorem testCase_name_ascii (testCase : TestCase) :
    ∀ c ∈ testCase.name.toList, isAsciiText c = true := by
  rw [← List.all_eq_true]
  cases testCase <;> decide

/-- The file of a test, by the directory it was created with. -/
theorem textBytes_getRandomFilePath (prefs : SettingSharedPrefs) (testCase : TestCase)
    (randomSuffix : RandomSuffix) (nulFree : '\x00' ∉ prefs.getTestDirPath.toList) :
    textBytes (getRandomFilePath prefs testCase randomSuffix) =
      textBytes prefs.getTestDirPath + testCase.name.length + 9 := by
  have fileName : textBytes ("/" ++ (testCase.name ++ String.ofList randomSuffix.chars)) =
      1 + (testCase.name.length + 8) := by
    rw [textBytes_ascii]
    · simp only [String.toList_append, String.toList_ofList, List.length_append,
        randomSuffix.length, String.length_toList]
      rfl
    · intro c member
      simp only [String.toList_append, String.toList_ofList, List.mem_append] at member
      rcases member with slash | name | suffix
      · rw [List.mem_singleton.mp slash]
        decide
      · exact testCase_name_ascii testCase c name
      · exact isAsciiText_of_isAlphanum c (randomSuffix.alphanumeric c suffix)
  unfold getRandomFilePath
  rw [String.append_assoc, String.append_assoc, textBytes_append _ _ nulFree, fileName]
  omega

/-! ## What the dialogs let through -/

/-- The values in effect; the entry of the target path stands for the directory
itself. -/
def configured (prefs : SettingSharedPrefs) : SettingOptions → String
  | targetPath => prefs.getTestDirPath
  | runtimeLimit => prefs.getConfig runtimeLimit.name defaultRuntimeLimitValue
  | seqBlockSize => prefs.getConfig seqBlockSize.name defaultSeqBlockSizeValue
  | randBlockSize => prefs.getConfig randBlockSize.name defaultRandBlockSizeValue
  | ioSize => prefs.getConfig ioSize.name defaultIoSizeValue
  | ioEngine => prefs.getConfig ioEngine.name defaultIoEngineValue
  | aboutInfo => versionName

/-- Preferences that the dialogs of a device can leave: the engine is one of
the list, and a path with a NUL is no directory. -/
structure AcceptedByDialogs (device : Device) (prefs : SettingSharedPrefs) : Prop where
  engine : ∀ engine ∈ prefs.sharedPrefs ioEngine.name, engine ∈ device.engineList
  directory : '\x00' ∉ prefs.getTestDirPath.toList

/-- `File.isDirectory` is false for a path with a NUL, which `java.io.File`
calls invalid. -/
def RejectsNul (fileSystem : FileSystem) : Prop :=
  ∀ path, fileSystem.isDirectory path = true → '\x00' ∉ path.toList

def OnRealFiles : DialogEvent → Prop
  | .openDialog _ => True
  | .apply _ fileSystem => RejectsNul fileSystem
  | .dismiss fileSystem => RejectsNul fileSystem

theorem filesDir_nulFree (dir : FilesDir) : '\x00' ∉ dir.absolutePath.toList := by
  rw [FilesDir.absolutePath, String.toList_ofList, List.mem_cons, not_or]
  refine ⟨by decide, fun member => ?_⟩
  rcases dir.plain _ member with slash | unreserved
  · exact absurd slash (by decide)
  · exact absurd unreserved (by decide)

theorem directory_storeResult (prefs : SettingSharedPrefs) (closed : DialogClosed)
    (real : RejectsNul closed.fileSystem) (free : '\x00' ∉ prefs.getTestDirPath.toList) :
    '\x00' ∉ (SettingScreen.storeResult prefs closed).getTestDirPath.toList := by
  obtain ⟨option, result, fileSystem⟩ := closed
  cases result with
  | none => exact free
  | some path =>
      by_cases target : option = .targetPath
      · subst target
        simp only [SettingScreen.storeResult, setDialogResult]
        by_cases directory : fileSystem.isDirectory path = true
        · rw [getTestDirPath_setTargetPath fileSystem prefs path directory]
          exact real path directory
        · rw [setTargetPath, if_neg directory, SettingSharedPrefs.getTestDirPath_setTestDirPath,
            if_pos rfl]
          exact filesDir_nulFree prefs.appFilesDir
      · have sameStored := setDialogResult_sharedPrefs fileSystem prefs path option
          SettingSharedPrefs.testDirPathKey (by revert target; cases option <;> decide)
        have sameDir := setDialogResult_appFilesDir fileSystem prefs path option
        have same : (setDialogResult fileSystem prefs path option).getTestDirPath =
            prefs.getTestDirPath := by
          unfold SettingSharedPrefs.getTestDirPath SettingSharedPrefs.getDefaultDirPath
            SettingSharedPrefs.getConfig
          rw [sameStored, sameDir]
        simp only [SettingScreen.storeResult]
        rw [same]
        exact free

theorem directory_dialogStep (uri : JavaNetUri) (device : Device) (screen next : SettingScreen)
    (event : DialogEvent) (real : OnRealFiles event)
    (free : '\x00' ∉ screen.prefs.getTestDirPath.toList)
    (taken : screen.dialogStep uri device event = some next) :
    '\x00' ∉ next.prefs.getTestDirPath.toList := by
  cases SettingScreen.dialogStep_taken uri device screen next event taken with
  | openDialog option =>
      unfold SettingScreen.openDialog
      split
      · exact free
      · exact free
  | apply input fileSystem option result _ shown given closed =>
      obtain ⟨value, _, rfl⟩ := SettingScreen.closeReturning_some uri screen next _ closed
      exact directory_storeResult screen.prefs _ real free
  | dismiss fileSystem option _ shown closed =>
      obtain ⟨value, _, rfl⟩ := SettingScreen.closeReturning_some uri screen next _ closed
      exact free

/-- Every run of dialogs on real files leaves accepted preferences. -/
theorem accepted_of_dialogs (uri : JavaNetUri) (device : Device) (appFilesDir : FilesDir)
    (first final : SettingScreen) (events : List DialogEvent)
    (started : SettingScreen.start uri appFilesDir = .ok first)
    (real : ∀ event ∈ events, OnRealFiles event)
    (run : runEvents (SettingScreen.dialogStep uri device) first events = some final) :
    AcceptedByDialogs device final.prefs := by
  obtain ⟨initial, sameStart, consistent⟩ :=
    SettingScreen.start_consistent uri device appFilesDir
  obtain rfl : first = initial := Except.ok.inj (started.symm.trans sameStart)
  have fresh := SettingScreen.start_prefs uri appFilesDir first started
  have free : '\x00' ∉ first.prefs.getTestDirPath.toList := by
    rw [fresh, SettingSharedPrefs.getTestDirPath_fresh]
    exact filesDir_nulFree appFilesDir
  have kept := runEvents_invariant (SettingScreen.dialogStep uri device)
    (fun screen => SettingScreen.Consistent uri device screen ∧
      '\x00' ∉ screen.prefs.getTestDirPath.toList)
    (fun _ => OnRealFiles)
    (fun screen event next holds allowed taken =>
      ⟨SettingScreen.consistent_step uri device screen next event holds.1 taken,
        directory_dialogStep uri device screen next event allowed holds.2 taken⟩)
    events first final ⟨consistent, free⟩ (along_of_forall_mem _ events first real) run
  exact ⟨kept.1.engine, kept.2⟩

theorem engine_short (device : Device) (prefs : SettingSharedPrefs)
    (accepted : AcceptedByDialogs device prefs) : textBytes (configured prefs ioEngine) ≤ 8 := by
  have short : ∀ engine, engine ∈ device.engineList → textBytes engine ≤ 8 := by
    intro engine member
    have available := (List.mem_filter.mp member).2
    rw [Device.checkEngineAvailability_iff] at available
    simp only [List.mem_cons, List.not_mem_nil, or_false] at available
    rcases available with (rfl | rfl | rfl) | ⟨rfl, _⟩
    all_goals decide
  unfold configured SettingSharedPrefs.getConfig
  dsimp only
  cases stored : prefs.sharedPrefs ioEngine.name with
  | none => decide
  | some engine => exact short engine (accepted.engine engine stored)

theorem testCase_texts_short (testCase : TestCase) :
    textBytes testCase.name ≤ 13 ∧ textBytes testCase.type ≤ 9 ∧
      textBytes (toString testCase.ioDepth) ≤ 1 ∧ textBytes (toString testCase.numJobs) ≤ 1 ∧
      ∀ share ∈ testCase.rwMixWrite, textBytes (toString share) ≤ 2 := by
  cases testCase <;> decide +kernel

/-! ## The arguments -/

def argumentOf (option : JobOption) : List UInt8 :=
  writeArgument false (decode (ofString option.name)) (option.value.map (decode ∘ ofString))

theorem argumentOf_length (name value : String) :
    (argumentOf ⟨name, some value⟩).length = textBytes name + textBytes value + 3 := by
  unfold argumentOf writeArgument textBytes
  simp [bytes]
  omega

/-- The arguments that a command turns into. -/
theorem json2Options_commandBytes (strtod : Strtod) (getprogname : List UInt8)
    (options : List JobOption) :
    json2Options strtod getprogname (commandBytes options) =
      some (options.length + 1, getprogname :: options.map argumentOf) := by
  have slots : ((fun option : TextOption => writeArgument false (decode option.name)
      (option.value.map decode)) ∘ TextOption.ofJobOption) = argumentOf := by
    funext option
    simp [argumentOf, TextOption.ofJobOption]
  rw [commandBytes, json2Options_command, List.length_map, List.map_map, slots]

theorem testOptionsBuilder_configured (uri : JavaNetUri) (prefs : SettingSharedPrefs)
    (testCase : TestCase) (filePath : String) :
    testOptionsBuilder uri prefs testCase filePath =
      .ok (jobOptions testCase filePath (configured prefs runtimeLimit)
        (configured prefs (blockSizeOption testCase)) (configured prefs ioSize)
        (configured prefs ioEngine)) := by
  apply testOptionsBuilder_eq uri prefs testCase filePath (configured prefs)
  intro option other
  cases option with
  | targetPath => exact absurd rfl other
  | _ => rfl

theorem argvFits_iff_options (uri : JavaNetUri) (strtod : Strtod) (getprogname : List UInt8)
    (prefs : SettingSharedPrefs) (testCase : TestCase) (filePath : String)
    (program : getprogname.length < argvOptionMaxLength) :
    ArgvFits uri strtod getprogname prefs testCase filePath ↔
      ∀ option ∈ jobOptions testCase filePath (configured prefs runtimeLimit)
          (configured prefs (blockSizeOption testCase)) (configured prefs ioSize)
          (configured prefs ioEngine), (argumentOf option).length + 1 ≤ argvOptionMaxLength := by
  have built := testOptionsBuilder_configured uri prefs testCase filePath
  have decoded := json2Options_commandBytes strtod getprogname
  have programFits : getprogname.length + 1 ≤ argvOptionMaxLength := program
  constructor
  · rintro ⟨options, argc, argv, command, arguments, fits⟩ option member
    obtain rfl := Except.ok.inj (built.symm.trans command)
    obtain ⟨rfl, rfl⟩ := Prod.mk.inj (Option.some.inj ((decoded _).symm.trans arguments))
    exact fits _ (List.mem_cons_of_mem _ (List.mem_map_of_mem member))
  · intro fits
    refine ⟨_, _, _, built, decoded _, fun argument member => ?_⟩
    rcases List.mem_cons.mp member with rfl | member
    · exact programFits
    · obtain ⟨option, inside, rfl⟩ := List.mem_map.mp member
      exact fits option inside

/-- The settings leave room for the fixed part of every argument. -/
structure SettingsFit (creation prefs : SettingSharedPrefs) (testCase : TestCase) : Prop where
  directory : textBytes (configured creation targetPath) + testCase.name.length + 21 ≤
    argvOptionMaxLength
  runtime : textBytes (configured prefs runtimeLimit) + 11 ≤ argvOptionMaxLength
  blockSize : textBytes (configured prefs (blockSizeOption testCase)) + 13 ≤ argvOptionMaxLength
  ioSize : textBytes (configured prefs ioSize) + 8 ≤ argvOptionMaxLength

/-- The arguments of a test stay inside their slots exactly if the directory of
its file and the texts of its settings are short enough. -/
theorem argv_fits_iff (uri : JavaNetUri) (strtod : Strtod) (getprogname : List UInt8)
    (device : Device) (creation prefs : SettingSharedPrefs) (testCase : TestCase)
    (randomSuffix : RandomSuffix) (program : getprogname.length < argvOptionMaxLength)
    (created : AcceptedByDialogs device creation) (accepted : AcceptedByDialogs device prefs) :
    ArgvFits uri strtod getprogname prefs testCase
        (getRandomFilePath creation testCase randomSuffix) ↔
      SettingsFit creation prefs testCase := by
  have path : textBytes (getRandomFilePath creation testCase randomSuffix) =
      textBytes (configured creation targetPath) + testCase.name.length + 9 :=
    textBytes_getRandomFilePath creation testCase randomSuffix created.directory
  have engine := engine_short device prefs accepted
  obtain ⟨name, type, depth, jobs, mix⟩ := testCase_texts_short testCase
  rw [argvFits_iff_options uri strtod getprogname prefs testCase _ program]
  have keys : textBytes newJobOptName = 4 ∧ textBytes filePathOptName = 8 ∧
      textBytes ioTypeOptName = 9 ∧ textBytes ioDepthOptName = 7 ∧ textBytes runtimeOptName = 7 ∧
      textBytes blockSizeOptName = 9 ∧ textBytes ioSizeOptName = 4 ∧
      textBytes directIoOptName = 6 ∧ textBytes ioEngineOptName = 8 ∧
      textBytes numThreadsOptName = 7 ∧ textBytes rwMixWriteOptName = 10 ∧
      textBytes etaPrintOptName = 3 ∧ textBytes outputFormatOptName = 13 := by
    decide
  have constants : textBytes constantDirectIoValue = 1 ∧ textBytes constantEtaPrintValue = 6 ∧
      textBytes constantOutputFormatValue = 4 := by
    decide
  have mixFits : ∀ option ∈ testCase.rwMixWrite.toList.map (fun share =>
      (⟨rwMixWriteOptName, some (toString share)⟩ : JobOption)),
      (argumentOf option).length + 1 ≤ argvOptionMaxLength := by
    intro option member
    obtain ⟨share, given, rfl⟩ := List.mem_map.mp member
    have short := mix share (Option.mem_toList.mp given)
    rw [argumentOf_length]
    unfold argvOptionMaxLength
    omega
  unfold jobOptions
  simp only [List.forall_mem_append, List.forall_mem_cons, List.not_mem_nil, argumentOf_length,
    false_imp_iff, implies_true, and_true]
  unfold argvOptionMaxLength
  constructor
  · rintro ⟨⟨fixed, _⟩, _⟩
    constructor
    all_goals
      unfold argvOptionMaxLength
      omega
  · rintro ⟨directory, runtime, blockSize, size⟩
    unfold argvOptionMaxLength at directory runtime blockSize size
    refine ⟨⟨?_, mixFits⟩, ?_⟩ <;> omega

theorem sampleFileSystem_rejectsNul : RejectsNul SettingScreen.sampleFileSystem := by
  intro path found
  rw [show path = "/sdcard" by simpa [SettingScreen.sampleFileSystem, oneDirectory] using found]
  decide

/-- After some ordinary changes of the settings a command fits. -/
theorem sample_settings_fit :
    ∃ first final, SettingScreen.start plainUri sampleFilesDir = .ok first ∧
      runEvents (SettingScreen.dialogStep plainUri SettingScreen.sampleDevice) first
        SettingScreen.sampleDialogs = some final ∧
      ArgvFits plainUri integerStrtod (bytes "app_process64") final.prefs .q1t1Mix9r1w
        (getRandomFilePath first.prefs .q1t1Mix9r1w sampleSuffix) := by
  obtain ⟨first, started, _⟩ := SettingScreen.start_usable plainUri sampleFilesDir
  have fresh := SettingScreen.start_prefs plainUri sampleFilesDir first started
  have evaluated : ((SettingScreen.start plainUri sampleFilesDir).toOption.bind fun first =>
      runEvents (SettingScreen.dialogStep plainUri SettingScreen.sampleDevice) first
        SettingScreen.sampleDialogs).map (fun final =>
          (textBytes (configured final.prefs runtimeLimit),
            textBytes (configured final.prefs randBlockSize),
            textBytes (configured final.prefs ioSize))) = some (2, 2, 4) := by
    decide +kernel
  rw [started] at evaluated
  obtain ⟨final, run, facts⟩ := Option.map_eq_some_iff.mp evaluated
  simp only [Prod.mk.injEq] at facts
  obtain ⟨runtime, blockSize, size⟩ := facts
  have real : ∀ event ∈ SettingScreen.sampleDialogs, OnRealFiles event := by
    simp [SettingScreen.sampleDialogs, OnRealFiles, sampleFileSystem_rejectsNul]
  have created := accepted_of_dialogs plainUri SettingScreen.sampleDevice sampleFilesDir first
    first [] started (fun _ => (nomatch ·)) rfl
  have accepted := accepted_of_dialogs plainUri SettingScreen.sampleDevice sampleFilesDir first
    final SettingScreen.sampleDialogs started real run
  refine ⟨first, final, started, run, (argv_fits_iff plainUri integerStrtod _
    SettingScreen.sampleDevice first.prefs final.prefs .q1t1Mix9r1w sampleSuffix (by decide)
    created accepted).mpr ⟨?_, ?_, ?_, ?_⟩⟩
  · rw [fresh]
    decide +kernel
  · rw [runtime]
    decide
  · rw [show blockSizeOption .q1t1Mix9r1w = randBlockSize by decide, blockSize]
    decide
  · rw [size]
    decide

/-- A runtime of three hundred digits. -/
def longRuntime : List DialogEvent :=
  [.openDialog .runtimeLimit,
    .apply (.textField (String.ofList (List.replicate 300 '1'))) SettingScreen.sampleFileSystem]

/-- The dialog stores the digits, and the argument needs 311 bytes. -/
theorem long_runtime_overflows :
    ∃ first final, SettingScreen.start plainUri sampleFilesDir = .ok first ∧
      runEvents (SettingScreen.dialogStep plainUri SettingScreen.sampleDevice) first longRuntime =
        some final ∧
      ¬ArgvFits plainUri integerStrtod (bytes "app_process64") final.prefs .q8t8SeqRd
        (getRandomFilePath first.prefs .q8t8SeqRd sampleSuffix) := by
  obtain ⟨first, started, _⟩ := SettingScreen.start_usable plainUri sampleFilesDir
  have evaluated : ((SettingScreen.start plainUri sampleFilesDir).toOption.bind fun first =>
      runEvents (SettingScreen.dialogStep plainUri SettingScreen.sampleDevice) first
        longRuntime).map (fun final => configured final.prefs runtimeLimit) =
      some (String.ofList (List.replicate 300 '1')) := by
    decide +kernel
  rw [started] at evaluated
  obtain ⟨final, run, stored⟩ := Option.map_eq_some_iff.mp evaluated
  have long : textBytes (configured final.prefs runtimeLimit) = 300 := by
    rw [stored, textBytes_ascii, String.toList_ofList, List.length_replicate]
    intro c member
    rw [String.toList_ofList] at member
    rw [List.eq_of_mem_replicate member]
    decide
  refine ⟨first, final, started, run, fun fits => ?_⟩
  rw [argvFits_iff_options _ _ _ _ _ _ (by decide)] at fits
  have argument := fits ⟨runtimeOptName, some (configured final.prefs runtimeLimit)⟩
    (by simp [jobOptions])
  rw [argumentOf_length, long] at argument
  revert argument
  decide

end RaptorMark.Native
