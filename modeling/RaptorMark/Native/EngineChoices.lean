import RaptorMark.Native.EngineListText
import RaptorMark.ViewModels.SettingDialogs

/-!
# The choices of the IO engine dialog

The dialog offers the registered engines that the availability check accepts,
in their order.  The check knows four names; the version it compares for the
fourth is what the scan of the release string left behind: the first two numbers
of the release, or the default 3.10 where it does not start with a number.
-/

set_option autoImplicit false

namespace RaptorMark.Native

open Lib Lib.ModifiedUtf8 Lib.Kotlin Lib.CNumber Lib.CScanf Lib.LongestRun CJson

variable (java : JavaLang) (printNumber : ℚ → List UInt8) (version : KernelVersion)

/-! ## The loop of the dialog -/

theorem getString_readMembersOf (name : List UInt8) :
    ReadValue.getString java (readMembersOf version name) "name" = .ok (name.map unitOf) := by
  have entry : ReadValue.get (readMembersOf version name) "name" =
      .ok (.string (name.map unitOf)) := by
    simp [ReadValue.get, readMembersOf]
  rw [ReadValue.getString, entry]
  rfl

theorem getBoolean_readMembersOf (name : List UInt8) :
    ReadValue.getBoolean (readMembersOf version name) "available" =
      .ok (checkEngineAvailability version name) := by
  have different : (ofString "available" == ofString "name") = false := by decide
  have entry : ReadValue.get (readMembersOf version name) "available" =
      .ok (.boolean (checkEngineAvailability version name)) := by
    simp [ReadValue.get, readMembersOf, List.lookup_cons, different]
  rw [ReadValue.getBoolean, entry]
  rfl

theorem addEngine_readEngine (engineList : List JavaText) (name : List UInt8) :
    addEngine java engineList (readEngine version name) =
      .ok (if checkEngineAvailability version name then engineList ++ [name.map unitOf]
        else engineList) := by
  change (ReadValue.getString java (readMembersOf version name) "name" >>= fun engineItem =>
    ReadValue.getBoolean (readMembersOf version name) "available" >>= fun engineAvailable =>
      pure (if engineAvailable then engineList ++ [engineItem] else engineList)) = _
  rw [getString_readMembersOf, getBoolean_readMembersOf]
  rfl

/-- The loop keeps the available engines, in order. -/
theorem addEngines_filter (names : List (List UInt8)) (engineList : List JavaText) :
    (names.map (readEngine version)).foldlM (addEngine java) engineList =
      .ok (engineList ++
        (names.filter (checkEngineAvailability version)).map (List.map unitOf)) := by
  induction names generalizing engineList with
  | nil => simp [pure, Except.pure]
  | cons name rest ih =>
      rw [List.map_cons, List.foldlM_cons, addEngine_readEngine]
      change (rest.map (readEngine version)).foldlM (addEngine java) _ = _
      rw [ih]
      cases available : checkEngineAvailability version name <;> simp [available]

theorem choiceList_printed (names : List (List UInt8)) (nulFree : ∀ name ∈ names, 0 ∉ name) :
    choiceList java ((printValue printNumber (engineRoot version names)).map unitOf) =
      .ok ((names.filter (checkEngineAvailability version)).map (List.map unitOf)) := by
  have engines : ReadValue.getJSONArray
      [(ofString "engines", .array (names.map (readEngine version)))] "engines" =
      .ok (names.map (readEngine version)) := by
    have entry : ReadValue.get [(ofString "engines", .array (names.map (readEngine version)))]
        "engines" = .ok (.array (names.map (readEngine version))) := by
      simp [ReadValue.get]
    rw [ReadValue.getJSONArray, entry]
    rfl
  have loop := addEngines_filter java version names []
  unfold choiceList
  rw [jsonObject_printed java printNumber version names nulFree]
  simp only [bind, Except.bind, engines, loop, List.nil_append]

/-! ## Registered names -/

/-- The name an engine is registered under: a C string of ASCII characters. -/
structure EngineName where
  text : String
  ascii : ∀ c ∈ text.toList, c ≠ '\x00' ∧ c.toNat < 0x80

def EngineName.bytes (name : EngineName) : List UInt8 := CJson.bytes name.text

theorem byte_toNat (c : Char) (ascii : c.toNat < 0x80) : (byte c).toNat = c.toNat :=
  toNat_ofNat_byte c.toNat (by omega)

theorem EngineName.bytes_ascii (name : EngineName) : AllAscii name.bytes := by
  intro b member
  obtain ⟨c, inText, rfl⟩ := List.mem_map.mp member
  have small := (name.ascii c inText).2
  rw [UInt8.lt_iff_toNat_lt, byte_toNat c small]
  exact small

theorem EngineName.bytes_nulFree (name : EngineName) : 0 ∉ name.bytes := by
  intro member
  obtain ⟨c, inText, zero⟩ := List.mem_map.mp member
  obtain ⟨nonzero, small⟩ := name.ascii c inText
  apply nonzero
  rw [← Char.toNat_inj, ← byte_toNat c small, zero]
  rfl

/-- The Java text of a name is the name. -/
theorem EngineName.units (name : EngineName) : name.bytes.map unitOf = ofString name.text := by
  have unit (c : Char) (small : c.toNat < 0x80) : charUnits c = [unitOf (byte c)] := by
    rw [unitOf, byte_toNat c small]
    exact if_pos (by omega)
  have every := name.ascii
  unfold EngineName.bytes CJson.bytes ofString
  generalize name.text.toList = chars at every ⊢
  induction chars with
  | nil => rfl
  | cons c rest ih =>
      rw [List.forall_mem_cons] at every
      rw [List.flatMap_cons, unit c every.1.2, List.map_cons, List.map_cons, ih every.2]
      rfl

/-- Two ASCII texts with the same bytes are the same. -/
theorem EngineName.bytes_eq_iff (name : EngineName) (key : String)
    (ascii : ∀ c ∈ key.toList, c.toNat < 0x80) :
    CJson.bytes key = name.bytes ↔ name.text = key := by
  have chars (text : String) (small : ∀ c ∈ text.toList, c.toNat < 0x80) :
      (CJson.bytes text).map (fun b => Char.ofNat b.toNat) = text.toList := by
    rw [CJson.bytes, List.map_map]
    conv_rhs => rw [← List.map_id text.toList]
    apply List.map_congr_left
    intro c member
    rw [Function.comp_apply, byte_toNat c (small c member), Char.ofNat_toNat]
    rfl
  constructor
  · intro same
    have lists := congrArg (List.map fun b => Char.ofNat b.toNat) same
    rw [chars key ascii, EngineName.bytes,
      chars name.text fun c member => (name.ascii c member).2] at lists
    exact (String.toList_inj.mp lists).symm
  · intro same
    rw [EngineName.bytes, same]

theorem unitOf_injective : Function.Injective unitOf := by
  have toNat (b : UInt8) : (unitOf b).toNat = b.toNat :=
    UInt16.toNat_ofNat_of_lt' (by have := b.toNat_lt; simp only [UInt16.size]; omega)
  intro first second same
  rw [← UInt8.toNat_inj, ← toNat first, ← toNat second, same]

/-- Two names with the same Java text are the same. -/
theorem EngineName.ofString_inj (name other : EngineName)
    (same : ofString name.text = ofString other.text) : name.text = other.text := by
  rw [← name.units, ← other.units] at same
  have bytes : other.bytes = name.bytes :=
    (List.map_injective_iff.mpr unitOf_injective same).symm
  exact (name.bytes_eq_iff other.text fun c member => (other.ascii c member).2).mp bytes

/-! ## Availability by name -/

theorem getKeyFromStr_engineLut (name : EngineName) :
    getKeyFromStr name.bytes engineLut engineMax =
      if name.text = "mmap" then engineMmap
      else if name.text = "psync" then enginePsync
      else if name.text = "libaio" then engineLibaio
      else if name.text = "io_uring" then engineIoUring
      else engineMax := by
  have known (key : String) (ascii : key.toList.all fun c => c.toNat < 0x80) :
      CJson.bytes key = name.bytes ↔ name.text = key :=
    name.bytes_eq_iff key (List.all_iff_forall_prop.mp ascii)
  change (engineLut.find? fun pair => pair.1 = name.bytes).elim engineMax Prod.snd = _
  simp only [engineLut, List.find?_cons, List.find?_nil, known "mmap" (by decide),
    known "psync" (by decide), known "libaio" (by decide), known "io_uring" (by decide)]
  split_ifs <;> simp [*]

/-- The engines and the kernel as the settings screen knows them. -/
def deviceOf (names : List EngineName) : Device :=
  ⟨names.map EngineName.text, version.kernelMajorVersion.toInt,
    version.kernelMinorVersion.toInt⟩

theorem checkEngineAvailability_device (names : List EngineName) (name : EngineName) :
    checkEngineAvailability version name.bytes =
      (deviceOf version names).checkEngineAvailability name.text := by
  have majorBound : ioUringKernelVersionMajor.toInt = 5 := rfl
  have minorBound : ioUringKernelVersionMinor.toInt = 4 := rfl
  rw [Bool.eq_iff_iff, Device.checkEngineAvailability_iff, Prod.Lex.toLex_le_toLex,
    checkEngineAvailability, getKeyFromStr_engineLut]
  by_cases ring : name.text = "io_uring"
  · simp [ring, deviceOf, engineMmap, enginePsync, engineLibaio, engineIoUring,
      Int32.lt_iff_toInt_lt, Int32.le_iff_toInt_le, ← Int32.toInt_inj, majorBound, minorBound,
      @eq_comm ℤ 5]
  · split_ifs <;> simp_all [engineMmap, enginePsync, engineLibaio, engineIoUring, engineMax]

/-- What the dialog offers after the way through JSON is what the settings
screen takes it to be. -/
theorem engineChoices_device (uname : Option Release) (names : List EngineName)
    (few : names.length ≤ maxEngineNum) :
    engineChoices java printNumber uname (names.map EngineName.bytes) =
      some (.ok ((deviceOf (helperInit uname) names).engineList.map ofString)) := by
  have sent := nativeListEngines_text printNumber (helperInit uname) (names.map EngineName.bytes)
    (by rwa [List.length_map]) (List.forall_mem_map.mpr fun name _ => name.bytes_ascii)
  have read := choiceList_printed java printNumber (helperInit uname) (names.map EngineName.bytes)
    (List.forall_mem_map.mpr fun name _ => name.bytes_nulFree)
  have same : checkEngineAvailability (helperInit uname) ∘ EngineName.bytes =
      (deviceOf (helperInit uname) names).checkEngineAvailability ∘ EngineName.text :=
    funext fun name => checkEngineAvailability_device (helperInit uname) names name
  have units : List.map unitOf ∘ EngineName.bytes = ofString ∘ EngineName.text :=
    funext EngineName.units
  have engines : (deviceOf (helperInit uname) names).ioengines = names.map EngineName.text := rfl
  rw [engineChoices, sent, Option.map_some, read, Device.engineList, engines, List.filter_map,
    List.filter_map, same, List.map_map, List.map_map, units]

/-! ## The version -/

/-- Two decimal numbers with a dot between them, each of which fits an `int`;
what follows is anything that does not continue the second. -/
def StartsWithVersion (text : List UInt8) (major minor : Nat) : Prop :=
  ∃ majorDigits minorDigits rest, IsDecimal [] [] majorDigits ∧ IsDecimal [] [] minorDigits ∧
    Stops isdigit rest ∧ text = majorDigits ++ (ascii '.' :: (minorDigits ++ rest)) ∧
    decimalValue majorDigits = major ∧ decimalValue minorDigits = minor ∧
    (major : ℤ) ≤ intMax ∧ (minor : ℤ) ≤ intMax

/-- The first character that is not blank, if there is one, is neither a digit
nor a sign. -/
def StartsWithoutNumber (text : List UInt8) : Prop :=
  Stops (fun b => isdigit b || b == ascii '+' || b == ascii '-') (text.dropWhile isspace)

theorem sscanf_int_digits (format : List Directive) (digits rest : List UInt8)
    (decimal : IsDecimal [] [] digits) (stops : Stops isdigit rest) :
    sscanf (.int :: format) (digits ++ rest) =
      .int (.ofInt (decimalValue digits)) :: sscanf format rest := by
  have scanned := scanInteger_decimal decimal stops
  rw [List.nil_append, List.nil_append] at scanned
  rw [sscanf, scanned]
  rfl

theorem helperInit_version (release : Release) (major minor : Nat)
    (starts : StartsWithVersion release.text major minor) :
    helperInit (some release) = ⟨.ofInt major, .ofInt minor⟩ := by
  obtain ⟨majorDigits, minorDigits, rest, isMajor, isMinor, stops, text, rfl, rfl, _, _⟩ := starts
  have stored : ∃ extra, sscanf versionFormat release.text =
      .int (.ofInt (decimalValue majorDigits)) :: .int (.ofInt (decimalValue minorDigits)) ::
        extra := by
    rw [text, versionFormat, sscanf_int_digits _ _ _ isMajor (stops_dot _), sscanf_literal,
      sscanf_int_digits _ _ _ isMinor stops]
    exact ⟨_, rfl⟩
  obtain ⟨extra, stored⟩ := stored
  simp only [helperInit, getKernelVersion, stored]

/-- The defaults stay in place. -/
theorem helperInit_default (release : Release) (starts : StartsWithoutNumber release.text) :
    helperInit (some release) = ⟨3, 10⟩ := by
  have unsigned : splitSign (release.text.dropWhile isspace) =
      ([], release.text.dropWhile isspace) := by
    cases start : release.text.dropWhile isspace with
    | nil => rfl
    | cons head rest =>
        have outside := starts head (by simp [start])
        simp only [Bool.or_eq_false_iff, beq_eq_false_iff_ne] at outside
        rw [splitSign, if_neg (by simp [outside])]
  have noDigits : (release.text.dropWhile isspace).takeWhile isdigit = [] := by
    apply takeWhile_stops
    intro head member
    have outside := starts head member
    simp only [Bool.or_eq_false_iff] at outside
    exact outside.1.1
  have unscanned : scanInteger 10 release.text = none := by
    rw [scanInteger_ten, unsigned, if_pos noDigits]
  have stored : sscanf versionFormat release.text = [] := by
    rw [versionFormat, sscanf, unscanned]
  simp only [helperInit, getKernelVersion, stored]
  rfl

/-! ## The choices -/

theorem toInt_ofInt_nat (value : Nat) (fits : (value : ℤ) ≤ intMax) :
    (Int32.ofInt value).toInt = value := by
  unfold intMax at fits
  exact Int32.toInt_ofInt_of_le (by omega) (by omega)

def ioUring : EngineName := ⟨"io_uring", List.all_iff_forall_prop.mp (by decide)⟩

/-- On a kernel whose release starts with its version, the dialog offers the
registered engines among mmap, psync and libaio, and io_uring from 5.4 on, in
their order; on one whose release starts without a number, it does not offer
io_uring. -/
theorem engine_choices_exact (names : List EngineName) (few : names.length ≤ maxEngineNum) :
    (∀ (release : Release) (major minor : Nat), StartsWithVersion release.text major minor →
      engineChoices java printNumber (some release) (names.map EngineName.bytes) =
        some (.ok (((names.map EngineName.text).filter fun engine =>
          engine ∈ ["mmap", "psync", "libaio"] ∨
            engine = "io_uring" ∧ toLex (5, 4) ≤ toLex (major, minor)).map ofString))) ∧
      ∀ release : Release, StartsWithoutNumber release.text →
        ∃ choices, engineChoices java printNumber (some release) (names.map EngineName.bytes) =
          some (.ok choices) ∧ ofString "io_uring" ∉ choices := by
  constructor
  · intro release major minor starts
    have version := helperInit_version release major minor starts
    obtain ⟨_, _, _, _, _, _, _, _, _, majorFits, minorFits⟩ := starts
    rw [engineChoices_device java printNumber (some release) names few, version]
    congr 3
    rw [Device.engineList]
    apply List.filter_congr
    intro engine _
    rw [Bool.eq_iff_iff, Device.checkEngineAvailability_iff, decide_eq_true_iff,
      Prod.Lex.toLex_le_toLex, Prod.Lex.toLex_le_toLex]
    simp only [deviceOf, toInt_ofInt_nat major majorFits, toInt_ofInt_nat minor minorFits]
    norm_cast
  · intro release starts
    refine ⟨_, engineChoices_device java printNumber (some release) names few, ?_⟩
    rw [helperInit_default release starts]
    intro offered
    obtain ⟨engine, member, same⟩ := List.mem_map.mp offered
    obtain ⟨registered, available⟩ := List.mem_filter.mp member
    obtain ⟨name, _, rfl⟩ := List.mem_map.mp registered
    rw [EngineName.ofString_inj name ioUring same, ← checkEngineAvailability_device] at available
    exact absurd available (by decide)

/-- A Java library that knows the literals of unsigned integers. -/
def integerJava : JavaLang where
  isDouble text := !text.isEmpty && text.all ("0123456789".toList.map asciiUnit).contains
  isFinite _ := true
  otherDigit _ := none
  valueOf value := match value with
    | .boolean value => ofString (toString value)
    | .long value => ofString (toString value)
    | .double literal => literal
    | .string value => value
    | _ => ofString "null"

def integerText (value : ℚ) : List UInt8 := CJson.bytes (toString value.num)

def registeredEngines : List EngineName :=
  [⟨"libaio", List.all_iff_forall_prop.mp (by decide)⟩, ioUring,
    ⟨"null", List.all_iff_forall_prop.mp (by decide)⟩,
    ⟨"mmap", List.all_iff_forall_prop.mp (by decide)⟩]

theorem androidRelease_starts : StartsWithVersion androidRelease.text 5 10 := by
  refine ⟨asciiText "5", asciiText "10",
    asciiText ".101-android12-9-00005-g6c1a1d4a0c6e-ab8943873", ?_, ?_, ?_, ?_, ?_, ?_, ?_, ?_⟩
  · exact ⟨nofun, Or.inl rfl, List.all_eq_true.mp (by decide), by decide⟩
  · exact ⟨nofun, Or.inl rfl, List.all_eq_true.mp (by decide), by decide⟩
  · exact stops_dot _
  all_goals decide +kernel

/-- The release of a build that puts its name before the version. -/
def namedRelease : Release :=
  ⟨asciiText " custom-5.10", by decide +kernel, by decide +kernel⟩

theorem namedRelease_starts : StartsWithoutNumber namedRelease.text := by
  have start : namedRelease.text.dropWhile isspace = asciiText "custom-5.10" := by decide +kernel
  rw [StartsWithoutNumber, start]
  exact stops_cons _ _ _ (by decide)

theorem registeredEngines_choices :
    registeredEngines.length ≤ maxEngineNum ∧
      StartsWithVersion androidRelease.text 5 10 ∧ StartsWithoutNumber namedRelease.text ∧
      engineChoices integerJava integerText (some androidRelease)
          (registeredEngines.map EngineName.bytes) =
        some (.ok (["libaio", "io_uring", "mmap"].map ofString)) ∧
      ∃ choices, engineChoices integerJava integerText (some namedRelease)
          (registeredEngines.map EngineName.bytes) = some (.ok choices) ∧
        ofString "io_uring" ∉ choices := by
  have few : registeredEngines.length ≤ maxEngineNum := by decide
  obtain ⟨numbered, unnumbered⟩ :=
    engine_choices_exact integerJava integerText registeredEngines few
  refine ⟨few, androidRelease_starts, namedRelease_starts, ?_, ?_⟩
  · rw [numbered androidRelease 5 10 androidRelease_starts]
    decide +kernel
  · exact unnumbered namedRelease namedRelease_starts

end RaptorMark.Native
