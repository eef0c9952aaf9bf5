import RaptorMark.Fio.CommandOutcome
import RaptorMark.Native.ArgvCapacity

/-!
# Settings that end the process

`native_FIOTest` calls `fio` on the command of a test inside the process of the
app.  The texts of the settings reach fio's option parser as the dialogs stored
them, and what it rejects ends in `exit`.
-/

set_option autoImplicit false

namespace RaptorMark.Native

open Lib Lib.ModifiedUtf8 Lib.Transition Lib.CNumber CJson Fio BenchmarkTest Constants
open SettingOptions

/-- A text of the app as the C string that fio sees. -/
def nativeText (text : String) : List UInt8 := cText (decode (ofString text))

theorem nativeText_ascii (text : String) (ascii : text.toList.all isAsciiText = true) :
    nativeText text = asciiText text :=
  cText_ascii text (List.all_eq_true.mp ascii)

/-- What `fio(argc, argv)` makes of the command line of a test. -/
def fioCmdLine (uri : JavaNetUri) (strtod : Strtod) (getprogname : List UInt8) (host : Host)
    (prefs : SettingSharedPrefs) (testCase : TestCase) (filePath : String) : Option CmdLine :=
  match testOptionsBuilder uri prefs testCase filePath with
  | .error _ => none
  | .ok options =>
      (json2Options strtod getprogname (commandBytes options)).map fun command =>
        parseCmdLine host command.2

/-! ## The arguments of a job -/

theorem argumentOf_eq (name value : String) (plain : nativeText name = asciiText name) :
    argumentOf ⟨name, some value⟩ = argument (asciiText name) (nativeText value) := by
  have dashes : bytes "--" = asciiText "--" := by decide
  have equals : bytes "=" = [ascii '='] := by decide
  unfold nativeText at plain
  simp only [argumentOf, writeArgument, argument, nativeText, Option.map_some, Function.comp_apply,
    plain, Bool.false_eq_true, if_false, dashes, equals]
  simp

/-- The options of the job between its name and the options of the process. -/
def jobValues (testCase : TestCase) (filePath runtime blockSize ioSize ioEngine : String) :
    List (List UInt8 × List UInt8) :=
  [(filePathOptName, filePath), (ioTypeOptName, testCase.type),
    (ioDepthOptName, toString testCase.ioDepth), (runtimeOptName, runtime),
    (blockSizeOptName, blockSize), (ioSizeOptName, ioSize),
    (directIoOptName, constantDirectIoValue), (ioEngineOptName, ioEngine),
    (numThreadsOptName, toString testCase.numJobs)].map
      (fun entry => (asciiText entry.1, nativeText entry.2)) ++
  testCase.rwMixWrite.toList.map fun share =>
    (asciiText rwMixWriteOptName, nativeText (toString share))

def jobOptionNames : List String :=
  [filePathOptName, ioTypeOptName, ioDepthOptName, runtimeOptName, blockSizeOptName, ioSizeOptName,
    directIoOptName, ioEngineOptName, numThreadsOptName, rwMixWriteOptName]

theorem isJobOption_of_name (name : String) (member : name ∈ jobOptionNames) :
    IsJobOption (asciiText name) := by
  have names : ∀ name ∈ jobOptionNames, ascii '=' ∉ asciiText name ∧
      asciiText name ≠ asciiText "eta" ∧ asciiText name ≠ asciiText "output-format" ∧
      (findOption (asciiText name)).isSome = true ∧
      startsWith "name" (asciiText name) = false := by
    decide
  obtain ⟨plain, notEta, notFormat, known, notName⟩ := names name member
  exact ⟨plain, notEta, notFormat, known, notName⟩

theorem jobValues_isJobOption (testCase : TestCase)
    (filePath runtime blockSize ioSize ioEngine : String) :
    ∀ value ∈ jobValues testCase filePath runtime blockSize ioSize ioEngine,
      IsJobOption value.1 := by
  intro value member
  rcases List.mem_append.mp member with fixed | share
  · obtain ⟨entry, listed, rfl⟩ := List.mem_map.mp fixed
    apply isJobOption_of_name
    simp only [jobOptionNames, List.mem_cons, List.not_mem_nil, or_false] at listed ⊢
    rcases listed with rfl | rfl | rfl | rfl | rfl | rfl | rfl | rfl | rfl <;> simp
  · obtain ⟨_, _, rfl⟩ := List.mem_map.mp share
    exact isJobOption_of_name _ (by simp [jobOptionNames])

theorem jobOptions_arguments (testCase : TestCase)
    (filePath runtime blockSize ioSize ioEngine : String) :
    (jobOptions testCase filePath runtime blockSize ioSize ioEngine).map argumentOf =
      argument (asciiText "name") (nativeText testCase.name) ::
        ((jobValues testCase filePath runtime blockSize ioSize ioEngine).map fun value =>
          argument value.1 value.2) ++
        [argument (asciiText "eta") (asciiText "always"),
          argument (asciiText "output-format") (asciiText "json")] := by
  have written : ∀ name ∈ newJobOptName :: etaPrintOptName :: outputFormatOptName ::
      jobOptionNames, ∀ value,
      argumentOf ⟨name, some value⟩ = argument (asciiText name) (nativeText value) := by
    intro name member value
    apply argumentOf_eq
    apply nativeText_ascii
    revert name
    decide
  unfold jobOptionNames at written
  simp only [List.forall_mem_cons, List.not_mem_nil, false_imp_iff, implies_true, and_true]
    at written
  obtain ⟨name, eta, format, filename, type, depth, time, block, size, direct, engine, jobs, mix⟩ :=
    written
  have always : nativeText constantEtaPrintValue = asciiText "always" := by decide
  have json : nativeText constantOutputFormatValue = asciiText "json" := by decide
  unfold jobOptions jobValues
  simp only [List.map_append, List.map_cons, List.map_nil, List.map_map, name, filename, type,
    depth, time, block, size, direct, engine, jobs, eta, format, always, json,
    Function.comp_def, mix, List.cons_append, List.nil_append]
  rfl

/-! ## The fixed values -/

theorem numbersRead_single (option : NumberOption) (staleErange : Nat → Bool) (text : String)
    (number : UInt64)
    (reads : text.toList.all isAsciiText = true ∧ pieces (asciiText text) = [asciiText text] ∧
      ∀ stale, readPiece option 1024 stale (asciiText text) = some number) :
    numbersRead option staleErange (nativeText text) = [some number] := by
  obtain ⟨ascii, single, read⟩ := reads
  unfold numbersRead
  rw [nativeText_ascii text ascii, single]
  simp only [readPieces, read]

theorem numbersRead_ioDepth (staleErange : Nat → Bool) (testCase : TestCase) :
    numbersRead iodepthOption staleErange (nativeText (toString testCase.ioDepth)) =
      [some (.ofNat testCase.ioDepth)] := by
  have depths : testCase.ioDepth ∈ [1, 2, 4, 8] := by cases testCase <;> decide
  apply numbersRead_single
  generalize testCase.ioDepth = depth at depths
  revert depth
  decide +kernel

theorem numbersRead_numJobs (staleErange : Nat → Bool) (testCase : TestCase) :
    numbersRead numjobsOption staleErange (nativeText (toString testCase.numJobs)) =
      [some (.ofNat testCase.numJobs)] := by
  have counts : testCase.numJobs ∈ [1, 4, 8] := by cases testCase <;> decide
  apply numbersRead_single
  generalize testCase.numJobs = count at counts
  revert count
  decide +kernel

theorem numbersRead_rwMixWrite (staleErange : Nat → Bool) (testCase : TestCase) (share : Nat)
    (given : share ∈ testCase.rwMixWrite) :
    numbersRead rwmixwriteOption staleErange (nativeText (toString share)) =
      [some (.ofNat share)] := by
  have shares : share ∈ [10, 30, 50] := by
    revert share
    cases testCase <;> decide
  clear given
  apply numbersRead_single
  revert share
  decide +kernel

theorem type_known (testCase : TestCase) :
    ∃ value ∈ rwValues, nativeText testCase.type = asciiText value.1 := by
  have types : ∃ value ∈ rwValues, testCase.type = value.1 := by
    cases testCase <;> decide
  have texts : ∀ value ∈ rwValues, value.1.toList.all isAsciiText = true := by decide
  obtain ⟨value, known, same⟩ := types
  rw [same]
  exact ⟨value, known, nativeText_ascii value.1 (texts value known)⟩

theorem parses_rwMixWrite (host : Host) (testCase : TestCase) (before : Checked)
    (base : before.kbBase = 1024) :
    Parses host (testCase.rwMixWrite.toList.map fun share =>
      (asciiText rwMixWriteOptName, nativeText (toString share))) before before := by
  cases given : testCase.rwMixWrite with
  | none => exact parses_nil host before
  | some share =>
      exact parses_rwmixwrite host _ before (.ofNat share) base
        (numbersRead_rwMixWrite _ testCase share given)

/-! ## The settings -/

/-- The block sizes and the size that fio reads in the texts; the directions
that a text leaves out keep the default. -/
def blockSizesRead (host : Host) (blockSize : List UInt8) : PerDdir :=
  blockSizes (numbersRead blocksizeOption (host.staleErange (asciiText "blocksize")) blockSize)
    ⟨4096, 4096, 4096⟩

def ioSizeRead (host : Host) (ioSize : List UInt8) : UInt64 :=
  sizeGiven (numbersRead sizeOption (host.staleErange (asciiText "size")) ioSize) 0

def smallestBlock (bs : PerDdir) : UInt64 := min bs.trim (min bs.read bs.write)

/-- A piece of each text is a number that fio's option parser takes, and the size
is open or holds a block. -/
structure SettingsAccepted (host : Host) (runtime blockSize ioSize : List UInt8) : Prop where
  runtimeAccepted : ∃ curr piece, Visits runtime curr piece ∧
    NumberInFront (host.staleErange (asciiText "runtime") curr) piece
  blockSizeAccepted : ∃ curr piece, Visits blockSize curr piece ∧
    NumberInFront (host.staleErange (asciiText "blocksize") curr) piece ∧
    strToDecimal (.bytes 1024) (host.staleErange (asciiText "blocksize") curr) (tmpText piece) ≠
      some 0
  ioSizeAccepted : ∃ curr piece, Visits ioSize curr piece ∧
    (NumberInFront (host.staleErange (asciiText "size") curr) piece ∨ CountsZones piece)
  largeEnough : ioSizeRead host ioSize = 0 ∨
    smallestBlock (blockSizesRead host blockSize) ≤ ioSizeRead host ioSize

/-- What the device contributes: engines, memory for the jobs, a path of an
ordinary length. -/
structure HostReady (host : Host) (testCase : TestCase) (filePath ioEngine : List UInt8) :
    Prop where
  defaultEngine : host.loadIoengine (asciiText "psync") = true
  engineNamed : ioEngine ≠ []
  engine : host.loadIoengine ioEngine = true
  memory : ∀ job < testCase.numJobs, host.newJob job = true
  filename : FilenameFits filePath

variable (host : Host) (testCase : TestCase) (filePath runtime blockSize ioSize ioEngine : String)

theorem parses_jobValues (before : Checked) (base : before.kbBase = 1024)
    (filename : FilenameFits (nativeText filePath))
    (engine : nativeText ioEngine ≠ [] ∧ host.loadIoengine (nativeText ioEngine) = true)
    (runtimeAccepted :
      Accepts runtimeOption (host.staleErange (asciiText "runtime")) (nativeText runtime))
    (blockSizeAccepted :
      Accepts blocksizeOption (host.staleErange (asciiText "blocksize")) (nativeText blockSize))
    (ioSizeAccepted : Accepts sizeOption (host.staleErange (asciiText "size")) (nativeText ioSize)) :
    Parses host (jobValues testCase filePath runtime blockSize ioSize ioEngine) before
      { before with
        bs := blockSizes (numbersRead blocksizeOption (host.staleErange (asciiText "blocksize"))
          (nativeText blockSize)) before.bs
        size := sizeGiven (numbersRead sizeOption (host.staleErange (asciiText "size"))
          (nativeText ioSize)) before.size
        ioengine := nativeText ioEngine
        numjobs := (UInt64.ofNat testCase.numJobs).toUInt32 } := by
  obtain ⟨value, known, sameType⟩ := type_known testCase
  have direct : nativeText constantDirectIoValue = asciiText "1" := by decide
  unfold jobValues
  simp only [List.map_cons, List.map_nil, sameType, direct, filePathOptName, ioTypeOptName,
    ioDepthOptName, runtimeOptName, blockSizeOptName, ioSizeOptName, directIoOptName,
    ioEngineOptName, numThreadsOptName]
  refine parses_append ?_ (parses_rwMixWrite host testCase _ ?_)
  rotate_left
  · exact base
  apply parses_cons (parses_filename host _ before filename)
  apply parses_cons (parses_readwrite host before value known)
  apply parses_cons (parses_iodepth host _ before _ base (numbersRead_ioDepth _ testCase))
  apply parses_cons (parses_runtime host _ before base runtimeAccepted)
  apply parses_cons (parses_blocksize host _ before base blockSizeAccepted)
  refine parses_cons (parses_size host _ _ (by exact base) ioSizeAccepted) ?_
  refine parses_cons (parses_direct host _) ?_
  refine parses_cons (parses_ioengine host _ _ engine.1 engine.2) ?_
  refine parses_cons (parses_numjobs host _ _ _ (by exact base) (numbersRead_numJobs _ testCase)) ?_
  dsimp only
  exact parses_nil host _

/-- A job that is parsed has accepted every text of the settings. -/
theorem accepted_of_parsed (name : List UInt8) (final : ThreadOptions)
    (parsed : parseValues host (jobValues testCase filePath runtime blockSize ioSize ioEngine)
      { name } = some final) :
    FilenameFits (nativeText filePath) ∧
      (nativeText ioEngine ≠ [] ∧ host.loadIoengine (nativeText ioEngine) = true) ∧
      Accepts runtimeOption (host.staleErange (asciiText "runtime")) (nativeText runtime) ∧
      Accepts blocksizeOption (host.staleErange (asciiText "blocksize")) (nativeText blockSize) ∧
      Accepts sizeOption (host.staleErange (asciiText "size")) (nativeText ioSize) := by
  have each := parseValues_some_mem host { name } _ final rfl parsed
  unfold jobValues at each
  rw [List.forall_mem_append] at each
  simp only [List.map_cons, List.map_nil, List.forall_mem_cons] at each
  obtain ⟨⟨file, _, _, time, block, size, _, engine, _⟩, _⟩ := each
  refine ⟨?_, ?_, ?_, ?_, ?_⟩
  · obtain ⟨before, after, _, success⟩ := file
    exact filenameFits_of_parseValue host _ before after success
  · obtain ⟨before, after, _, success⟩ := engine
    exact ioengine_of_parseValue host _ before after success
  · obtain ⟨before, after, base, success⟩ := time
    exact accepts_of_parseValue host _ _ runtimeOption before after rfl (by decide) base success
  · obtain ⟨before, after, base, success⟩ := block
    exact accepts_of_parseValue host _ _ blocksizeOption before after rfl (by decide) base success
  · obtain ⟨before, after, base, success⟩ := size
    exact accepts_of_parseValue host _ _ sizeOption before after rfl (by decide) base success

/-! ## The job -/

theorem fixupOptions_iff (o : ThreadOptions) (open_ : o.minBs = ⟨0, 0, 0⟩) :
    (fixupOptions o).1 = true ↔ o.size = 0 ∨ smallestBlock o.bs ≤ o.size := by
  have filled : tdMinBs (fixupOptions o).2 = smallestBlock o.bs := by
    simp only [fixupOptions, tdMinBs, smallestBlock, open_, fillMinBs, if_true]
  change (!(decide (o.size ≠ 0) && decide (o.size < tdMinBs (fixupOptions o).2))) = true ↔ _
  rw [filled]
  simp only [Bool.not_eq_true', Bool.and_eq_false_iff, decide_eq_false_iff_not, not_not, UInt64.not_lt]

theorem newJob_iff (testCase : TestCase) :
    (∀ job < testCase.numJobs, host.newJob job = true) ↔
      host.newJob 0 = true ∧
        ∀ copy < ((UInt64.ofNat testCase.numJobs).toUInt32 - 1).toNat,
          host.newJob (1 + copy) = true := by
  have copies : ((UInt64.ofNat testCase.numJobs).toUInt32 - 1).toNat + 1 = testCase.numJobs := by
    cases testCase <;> decide
  generalize ((UInt64.ofNat testCase.numJobs).toUInt32 - 1).toNat = others at copies ⊢
  rw [← copies, Nat.forall_lt_succ_left]
  simp only [Nat.add_comm]

/-- What `add_job` finds in the parsed job. -/
structure JobParsed (o : ThreadOptions) : Prop where
  bs : o.bs = blockSizesRead host (nativeText blockSize)
  minBs : o.minBs = ⟨0, 0, 0⟩
  size : o.size = ioSizeRead host (nativeText ioSize)
  ioengine : o.ioengine = nativeText ioEngine
  numjobs : o.numjobs = (UInt64.ofNat testCase.numJobs).toUInt32

theorem addJob_parsed (o : ThreadOptions)
    (parsed : JobParsed host testCase blockSize ioSize ioEngine o) :
    host.newJob 0 = true ∧ (addJob host 1 ⟨false, o⟩).isSome = true ↔
      host.loadIoengine (nativeText ioEngine) = true ∧
        (ioSizeRead host (nativeText ioSize) = 0 ∨
          smallestBlock (blockSizesRead host (nativeText blockSize)) ≤
            ioSizeRead host (nativeText ioSize)) ∧
        ∀ job < testCase.numJobs, host.newJob job = true := by
  rw [addJob_isSome_iff, fixupOptions_iff o parsed.minBs, newJob_iff, parsed.bs, parsed.size,
    parsed.ioengine, parsed.numjobs]
  constructor
  · rintro ⟨first, loaded, large, others⟩
    exact ⟨loaded, large, first, others⟩
  · rintro ⟨loaded, large, first, others⟩
    exact ⟨first, loaded, large, others⟩

/-! ## The outcome -/

/-- The command line of a test comes down to its job. -/
theorem fioCmdLine_eq (uri : JavaNetUri) (strtod : Strtod) (getprogname : List UInt8)
    (prefs : SettingSharedPrefs) :
    fioCmdLine uri strtod getprogname host prefs testCase filePath =
      some (if host.loadIoengine (asciiText "psync") && host.newJob 0 then
        match parseValues host (jobValues testCase filePath (configured prefs runtimeLimit)
          (configured prefs (blockSizeOption testCase)) (configured prefs SettingOptions.ioSize)
          (configured prefs SettingOptions.ioEngine)) { name := nativeText testCase.name } with
        | none => .exited 1
        | some o => if (addJob host 1 ⟨false, o⟩).isSome then .returned else .exited 1
      else
        .exited 1) := by
  have names : nativeText testCase.name = asciiText testCase.name ∧
      asciiText testCase.name ≠ [] ∧ startsWith "global" (asciiText testCase.name) = false := by
    refine ⟨nativeText_ascii _ (List.all_eq_true.mpr (testCase_name_ascii testCase)), ?_⟩
    cases testCase <;> decide
  obtain ⟨plain, named, notGlobal⟩ := names
  unfold fioCmdLine
  rw [testOptionsBuilder_configured]
  dsimp only
  rw [json2Options_commandBytes, jobOptions_arguments, Option.map_some, plain]
  congr 1
  exact parseCmdLine_job host getprogname (asciiText testCase.name) (asciiText "always")
    (asciiText "json") _ named notGlobal (jobValues_isJobOption testCase filePath _ _ _ _)
    (by decide)

theorem jobParsed_of_accepted (name : List UInt8) (filename : FilenameFits (nativeText filePath))
    (engine : nativeText ioEngine ≠ [] ∧ host.loadIoengine (nativeText ioEngine) = true)
    (runtimeAccepted :
      Accepts runtimeOption (host.staleErange (asciiText "runtime")) (nativeText runtime))
    (blockSizeAccepted :
      Accepts blocksizeOption (host.staleErange (asciiText "blocksize")) (nativeText blockSize))
    (ioSizeAccepted : Accepts sizeOption (host.staleErange (asciiText "size")) (nativeText ioSize)) :
    ∃ o, parseValues host (jobValues testCase filePath runtime blockSize ioSize ioEngine)
        { name } = some o ∧ JobParsed host testCase blockSize ioSize ioEngine o := by
  obtain ⟨o, parsed, checked⟩ := parses_jobValues host testCase filePath runtime blockSize ioSize
    ioEngine _ rfl filename engine runtimeAccepted blockSizeAccepted ioSizeAccepted { name } rfl
  simp only [ThreadOptions.checked, Checked.mk.injEq] at checked
  obtain ⟨_, bs, minBs, size, ioengine, numjobs⟩ := checked
  exact ⟨o, parsed, bs, minBs, size, ioengine, numjobs⟩

variable (uri : JavaNetUri) (strtod : Strtod) (getprogname : List UInt8)
variable (prefs : SettingSharedPrefs)

theorem fioCmdLine_returned_or_exited :
    fioCmdLine uri strtod getprogname host prefs testCase filePath = some .returned ∨
      fioCmdLine uri strtod getprogname host prefs testCase filePath = some (.exited 1) := by
  rw [fioCmdLine_eq]
  split
  · split
    · exact Or.inr rfl
    · split
      · exact Or.inl rfl
      · exact Or.inr rfl
  · exact Or.inr rfl

/-- The device is ready for the test, and fio accepts the texts of its settings. -/
def CommandAccepted : Prop :=
  HostReady host testCase (nativeText filePath)
      (nativeText (configured prefs SettingOptions.ioEngine)) ∧
    SettingsAccepted host (nativeText (configured prefs runtimeLimit))
      (nativeText (configured prefs (blockSizeOption testCase)))
      (nativeText (configured prefs SettingOptions.ioSize))

theorem fioCmdLine_returned_of_accepted (accepted : CommandAccepted host testCase filePath prefs) :
    fioCmdLine uri strtod getprogname host prefs testCase filePath = some .returned := by
  obtain ⟨ready, settings⟩ := accepted
  obtain ⟨o, parsed, fields⟩ := jobParsed_of_accepted host testCase filePath _ _ _ _
    (nativeText testCase.name) ready.filename ⟨ready.engineNamed, ready.engine⟩
    ((accepts_runtime_iff _ _).mpr settings.runtimeAccepted)
    ((accepts_blocksize_iff _ _).mpr settings.blockSizeAccepted)
    ((accepts_size_iff _ _).mpr settings.ioSizeAccepted)
  obtain ⟨memory, added⟩ := (addJob_parsed host testCase _ _ _ o fields).mpr
    ⟨ready.engine, settings.largeEnough, ready.memory⟩
  rw [fioCmdLine_eq]
  simp only [ready.defaultEngine, memory, parsed, added, Bool.and_self, if_true]

theorem accepted_of_fioCmdLine_returned
    (returned :
      fioCmdLine uri strtod getprogname host prefs testCase filePath = some .returned) :
    CommandAccepted host testCase filePath prefs := by
  rw [fioCmdLine_eq, Option.some.injEq] at returned
  split at returned
  · rename_i started
    rw [Bool.and_eq_true] at started
    split at returned
    · cases returned
    · rename_i o parsed
      split at returned
      · rename_i added
        obtain ⟨filename, engine, runtime, blockSize, ioSize⟩ :=
          accepted_of_parsed host testCase filePath _ _ _ _ _ o parsed
        obtain ⟨same, again, fields⟩ := jobParsed_of_accepted host testCase filePath _ _ _ _
          (nativeText testCase.name) filename engine runtime blockSize ioSize
        obtain rfl : o = same := Option.some.inj (parsed.symm.trans again)
        obtain ⟨_, largeEnough, memory⟩ :=
          (addJob_parsed host testCase _ _ _ o fields).mp ⟨started.2, added⟩
        exact ⟨⟨started.1, engine.1, engine.2, memory, filename⟩,
          ⟨(accepts_runtime_iff _ _).mp runtime, (accepts_blocksize_iff _ _).mp blockSize,
            (accepts_size_iff _ _).mp ioSize, largeEnough⟩⟩
      · cases returned
  · cases returned

theorem fioCmdLine_exited_of_rejected (rejected : ¬CommandAccepted host testCase filePath prefs) :
    fioCmdLine uri strtod getprogname host prefs testCase filePath = some (.exited 1) := by
  rcases fioCmdLine_returned_or_exited host testCase filePath uri strtod getprogname prefs with
    returned | exited
  · exact absurd (accepted_of_fioCmdLine_returned host testCase filePath uri strtod getprogname
      prefs returned) rejected
  · exact exited

/-- A test returns from fio exactly if its command is accepted; otherwise the app
ends with exit status 1. -/
theorem fio_returns_iff_settings_accepted :
    (fioCmdLine uri strtod getprogname host prefs testCase filePath = some .returned ↔
      CommandAccepted host testCase filePath prefs) ∧
    (fioCmdLine uri strtod getprogname host prefs testCase filePath ≠ some .returned →
      fioCmdLine uri strtod getprogname host prefs testCase filePath = some (.exited 1)) := by
  refine ⟨⟨?_, ?_⟩, ?_⟩
  · exact accepted_of_fioCmdLine_returned host testCase filePath uri strtod getprogname prefs
  · exact fioCmdLine_returned_of_accepted host testCase filePath uri strtod getprogname prefs
  · exact (fioCmdLine_returned_or_exited host testCase filePath uri strtod getprogname
      prefs).resolve_left

/-! ## Two settings that end the app -/

/-- A device with two engines and enough memory. -/
def sampleHost : Host where
  newJob := fun _ => true
  loadIoengine := fun name => name = asciiText "libaio" || name = asciiText "psync"
  staleErange := fun _ _ => false

def wordRuntime : List DialogEvent :=
  [.openDialog .runtimeLimit, .apply (.textField "abc") SettingScreen.sampleFileSystem]

def smallIoSize : List DialogEvent :=
  [.openDialog .ioSize, .apply (.textField "1k") SettingScreen.sampleFileSystem]

theorem sampleHost_ready (first : SettingScreen) (testCase : TestCase)
    (started : SettingScreen.start plainUri sampleFilesDir = .ok first) :
    HostReady sampleHost testCase
      (nativeText (getRandomFilePath first.prefs testCase sampleSuffix))
      (nativeText defaultIoEngineValue) := by
  have fresh := SettingScreen.start_prefs plainUri sampleFilesDir first started
  have files : (nativeText (getRandomFilePath first.prefs testCase sampleSuffix)).length =
      textBytes first.prefs.getTestDirPath + testCase.name.length + 9 := by
    apply textBytes_getRandomFilePath
    rw [fresh, SettingSharedPrefs.getTestDirPath_fresh]
    exact filesDir_nulFree sampleFilesDir
  have directory : textBytes first.prefs.getTestDirPath ≤ 100 := by
    rw [fresh]
    decide +kernel
  have names : testCase.name.length ≤ 13 := by cases testCase <;> decide
  constructor
  · decide
  · decide
  · decide
  · exact fun _ _ => rfl
  · constructor
    · intro empty
      rw [empty] at files
      simp at files
    · rw [files]
      unfold pathMax
      omega

/-- From a fresh app the dialogs take the events, and then the test ends the app
although the device is ready for it. -/
def EndsTheApp (events : List DialogEvent) (testCase : TestCase) : Prop :=
  ∃ first final, SettingScreen.start plainUri sampleFilesDir = .ok first ∧
    runEvents (SettingScreen.dialogStep plainUri SettingScreen.sampleDevice) first events =
      some final ∧
    HostReady sampleHost testCase (nativeText (getRandomFilePath first.prefs testCase sampleSuffix))
      (nativeText (configured final.prefs SettingOptions.ioEngine)) ∧
    fioCmdLine plainUri integerStrtod (bytes "app_process64") sampleHost final.prefs testCase
      (getRandomFilePath first.prefs testCase sampleSuffix) = some (.exited 1)

theorem wordRuntime_endsTheApp : EndsTheApp wordRuntime .q8t8SeqRd := by
  obtain ⟨first, started, _⟩ := SettingScreen.start_usable plainUri sampleFilesDir
  have evaluated : ((SettingScreen.start plainUri sampleFilesDir).toOption.bind fun first =>
      runEvents (SettingScreen.dialogStep plainUri SettingScreen.sampleDevice) first
        wordRuntime).map (fun final => (configured final.prefs runtimeLimit,
          configured final.prefs SettingOptions.ioEngine)) =
      some ("abc", defaultIoEngineValue) := by
    decide +kernel
  rw [started] at evaluated
  obtain ⟨final, run, stored⟩ := Option.map_eq_some_iff.mp evaluated
  obtain ⟨runtime, engine⟩ := Prod.mk.inj stored
  refine ⟨first, final, started, run, ?_, ?_⟩
  · rw [engine]
    exact sampleHost_ready first .q8t8SeqRd started
  · apply fioCmdLine_exited_of_rejected
    rintro ⟨_, settings⟩
    obtain ⟨number, member⟩ := (accepts_runtime_iff _ _).mpr settings.runtimeAccepted
    have unread : numbersRead runtimeOption (sampleHost.staleErange (asciiText "runtime"))
        (nativeText "abc") = [none] := by
      decide
    rw [runtime, unread] at member
    simp at member

theorem smallIoSize_endsTheApp : EndsTheApp smallIoSize .q1t1RandRd := by
  obtain ⟨first, started, _⟩ := SettingScreen.start_usable plainUri sampleFilesDir
  have evaluated : ((SettingScreen.start plainUri sampleFilesDir).toOption.bind fun first =>
      runEvents (SettingScreen.dialogStep plainUri SettingScreen.sampleDevice) first
        smallIoSize).map (fun final => (configured final.prefs SettingOptions.ioSize,
          configured final.prefs randBlockSize, configured final.prefs SettingOptions.ioEngine)) =
      some ("1k", defaultRandBlockSizeValue, defaultIoEngineValue) := by
    decide +kernel
  rw [started] at evaluated
  obtain ⟨final, run, stored⟩ := Option.map_eq_some_iff.mp evaluated
  simp only [Prod.mk.injEq] at stored
  obtain ⟨size, blockSize, engine⟩ := stored
  refine ⟨first, final, started, run, ?_, ?_⟩
  · rw [engine]
    exact sampleHost_ready first .q1t1RandRd started
  · apply fioCmdLine_exited_of_rejected
    rintro ⟨_, settings⟩
    have large := settings.largeEnough
    rw [size, show blockSizeOption .q1t1RandRd = randBlockSize by decide, blockSize] at large
    revert large
    decide

/-- A runtime that is no number ends the app, and so does a size below the block
size. -/
theorem settings_end_the_app :
    EndsTheApp wordRuntime .q8t8SeqRd ∧ EndsTheApp smallIoSize .q1t1RandRd :=
  ⟨wordRuntime_endsTheApp, smallIoSize_endsTheApp⟩

end RaptorMark.Native
