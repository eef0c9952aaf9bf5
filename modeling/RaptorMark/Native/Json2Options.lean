import RaptorMark.Native.CJsonReading

/-!
# From the command text to argv

`json2Options` of `helper.cpp`, and what it makes of a command that the app
encoded.
-/

set_option autoImplicit false

namespace RaptorMark.Native

open Lib Lib.ModifiedUtf8 Lib.Separated CJson

/-- The two `sprintf` calls on one slot. -/
def writeArgument (isShortOpts : Bool) (name : List UInt8) (value : Option (List UInt8)) :
    List UInt8 :=
  let written := bytes (if isShortOpts then "-" else "--") ++ cText name
  match value with
  | some value => written ++ bytes (if isShortOpts then "" else "=") ++ cText value
  | none => written

/-- `json2Options`: `*argc` and the texts that are written into the slots of
`*argv`.  There is no result where a name is missing and a null pointer would be
formatted.  A command has fewer characters than `int` has values, so the count
of its options is a plain number. -/
def json2Options (strtod : Strtod) (getprogname jsonStr : List UInt8) :
    Option (Nat × List (List UInt8)) := do
  let root := CJson.parse strtod jsonStr
  let isShortOpts := CJson.isTrue (getObjectItem root "shortopts")
  let options := children (getObjectItem root "options")
  let slots ← options.mapM fun option => do
    let name ← valuestring (getObjectItem (some option) "name")
    return writeArgument isShortOpts name (valuestring (getObjectItem (some option) "value"))
  return (options.length + 1, getprogname :: slots)

/-- What is read for one option of a command. -/
def readOption (option : TextOption) : CJson :=
  .object ((bytes "name", .string (decode option.name)) ::
    option.value.toList.map fun value => (bytes "value", .string (decode value)))

theorem reads_option (strtod : Strtod) (depth : Nat) (option : TextOption)
    (shallow : depth < nestingLimit) :
    Reads strtod 5 depth option.print (readOption option) := by
  have nameKey : decode (ofString "name") = bytes "name" := by decide
  have valueKey : decode (ofString "value") = bytes "value" := by decide
  have reads := reads_object strtod 1 depth
    ⟨"name", JSONStringer.string option.name, .string (decode option.name)⟩
    (option.value.toList.map fun value =>
      ⟨"value", JSONStringer.string value, .string (decode value)⟩) shallow
  obtain ⟨name, value⟩ := option
  cases value with
  | none =>
      have one := reads fun other member => by
        rw [List.mem_singleton.mp member]
        exact reads_string strtod _ _
      simp only [List.map_cons, Member.read, nameKey] at one
      exact one.mono (by simp)
  | some value =>
      have two := reads fun other member => by
        rcases List.mem_cons.mp member with rfl | member
        · exact reads_string strtod _ _
        · rw [List.mem_singleton.mp member]
          exact reads_string strtod _ _
      simp only [List.map_cons, Option.toList_some, Member.read, nameKey, valueKey] at two
      exact two.mono (by simp)

def readCommand (shortopts : Bool) (options : List TextOption) : CJson :=
  .object [(bytes "shortopts", .bool shortopts),
    (bytes "options", .array (options.map readOption))]

theorem reads_command (strtod : Strtod) (shortopts : Bool) (options : List TextOption) :
    Reads strtod (options.length + 11) 0 (TextOption.printCommand shortopts options)
      (readCommand shortopts options) := by
  have shortoptsKey : decode (ofString "shortopts") = bytes "shortopts" := by decide
  have optionsKey : decode (ofString "options") = bytes "options" := by decide
  have array := reads_array strtod 5 1 (options.map fun option => (option.print, readOption option))
    (by decide) fun value member => by
      obtain ⟨option, _, rfl⟩ := List.mem_map.mp member
      exact reads_option strtod 2 option (by decide)
  rw [List.map_map, List.map_map, List.length_map] at array
  have object := reads_object strtod (options.length + 7) 0
    ⟨"shortopts", JSONStringer.boolean shortopts, .bool shortopts⟩
    [⟨"options", JSONStringer.array (options.map TextOption.print),
      .array (options.map readOption)⟩] (by decide) fun other member => by
      rcases List.mem_cons.mp member with rfl | member
      · exact (reads_boolean strtod 1 shortopts).mono (by omega)
      · rw [List.mem_singleton.mp member]
        exact array.mono (by omega)
  simp only [List.map_cons, List.map_nil, Member.read, shortoptsKey, optionsKey] at object
  exact object.mono (by simp)

theorem encode_intercalate_length (options : List TextOption) :
    options.length ≤
      (encode ([asciiUnit ','].intercalate (options.map TextOption.print))).length := by
  have bound := length_le_intercalate [byte ','] ((options.map TextOption.print).map encode)
    (by
      rw [List.map_map, List.forall_mem_map]
      exact fun option _ => List.cons_ne_nil _ _)
  rwa [List.length_map, List.length_map, ← encode_intercalate] at bound

theorem printCommand_length (shortopts : Bool) (options : List TextOption) :
    options.length + 11 ≤ 3 * (encode (TextOption.printCommand shortopts options)).length := by
  have texts := encode_intercalate_length options
  have key : 4 ≤ (encode (JSONStringer.member "shortopts"
      (JSONStringer.boolean shortopts))).length := by
    cases shortopts <;> decide
  have longer : (encode (JSONStringer.member "shortopts"
        (JSONStringer.boolean shortopts))).length +
      (encode ([asciiUnit ','].intercalate (options.map TextOption.print))).length ≤
        (encode (TextOption.printCommand shortopts options)).length := by
    unfold TextOption.printCommand JSONStringer.object JSONStringer.array
    simp only [List.intercalate_cons_cons, List.intercalate_singleton, encode_append,
      List.length_append, JSONStringer.member]
    omega
  omega

theorem parse_printCommand (strtod : Strtod) (shortopts : Bool) (options : List TextOption) :
    CJson.parse strtod (encode (TextOption.printCommand shortopts options)) =
      some (readCommand shortopts options) := by
  have reads := reads_command strtod shortopts options
  obtain ⟨b, rest, starts, solid, _⟩ := reads.solid
  have whole : cText (encode (TextOption.printCommand shortopts options)) =
      encode (TextOption.printCommand shortopts options) := by
    apply List.takeWhile_eq_self_iff.mpr
    intro b member
    have nonzero : b ≠ 0 := fun zero => encode_nulFree _ (zero ▸ member)
    simpa using nonzero
  have noBom : skipUtf8Bom (encode (TextOption.printCommand shortopts options) ++ [0]) =
      encode (TextOption.printCommand shortopts options) ++ [0] := by
    apply if_neg
    rintro ⟨_, bom⟩
    have first := (List.cons_prefix_cons.mp bom).1
    revert first
    decide
  have bound := printCommand_length shortopts options
  unfold CJson.parse
  dsimp only
  rw [whole, noBom, bufferSkipWhitespace_reads strtod reads, reads.parsed _ (by simp; omega)]
  rfl

theorem getObjectItem_name (option : TextOption) :
    valuestring (getObjectItem (some (readOption option)) "name") = some (decode option.name) := by
  have found : (cText (bytes "name")).map tolower = (bytes "name").map tolower := by decide
  simp [readOption, getObjectItem, found, valuestring]

theorem getObjectItem_value (option : TextOption) :
    valuestring (getObjectItem (some (readOption option)) "value") = option.value.map decode := by
  have other : (cText (bytes "name")).map tolower ≠ (bytes "value").map tolower := by decide
  have found : (cText (bytes "value")).map tolower = (bytes "value").map tolower := by decide
  cases value : option.value with
  | none => simp [readOption, getObjectItem, other, value, valuestring]
  | some text => simp [readOption, getObjectItem, other, found, value, valuestring]

theorem slots_command (isShortOpts : Bool) (options : List TextOption) :
    ((options.map readOption).mapM fun option => do
        let name ← valuestring (getObjectItem (some option) "name")
        return writeArgument isShortOpts name
          (valuestring (getObjectItem (some option) "value"))) =
      some (options.map fun option =>
        writeArgument isShortOpts (decode option.name) (option.value.map decode)) := by
  induction options with
  | nil => rfl
  | cons option rest ih =>
      rw [List.map_cons, List.mapM_cons, ih, getObjectItem_name, getObjectItem_value]
      rfl

/-- Any command, with or without U+0000 in its texts. -/
theorem json2Options_command (strtod : Strtod) (getprogname : List UInt8) (shortopts : Bool)
    (options : List TextOption) :
    json2Options strtod getprogname (encode (TextOption.printCommand shortopts options)) =
      some (options.length + 1, getprogname :: options.map fun option =>
        writeArgument shortopts (decode option.name) (option.value.map decode)) := by
  have short : CJson.isTrue (getObjectItem (some (readCommand shortopts options)) "shortopts") =
      shortopts := by
    have found : (cText (bytes "shortopts")).map tolower = (bytes "shortopts").map tolower := by
      decide
    simp [readCommand, getObjectItem, found, CJson.isTrue]
  have list : children (getObjectItem (some (readCommand shortopts options)) "options") =
      options.map readOption := by
    have other : (cText (bytes "shortopts")).map tolower ≠ (bytes "options").map tolower := by
      decide
    have found : (cText (bytes "options")).map tolower = (bytes "options").map tolower := by decide
    simp [readCommand, getObjectItem, other, found, children]
  unfold json2Options
  dsimp only
  rw [parse_printCommand, short, list, slots_command]
  simp

/-! ## The encoder and the decoder agree -/

/-- The argument that an option stands for. -/
def optionArgument (shortopts : Bool) (option : TextOption) : JavaText :=
  ofString (if shortopts then "-" else "--") ++ option.name ++
    option.value.elim [] fun value => ofString (if shortopts then "" else "=") ++ value

theorem cText_decode (text : JavaText) (nulFree : 0 ∉ text) : cText (decode text) = encode text := by
  rw [decode_eq_encode text nulFree]
  apply List.takeWhile_eq_self_iff.mpr
  intro b member
  have nonzero : b ≠ 0 := fun zero => encode_nulFree text (zero ▸ member)
  simpa using nonzero

theorem writeArgument_decode (shortopts : Bool) (option : TextOption) (nameFree : 0 ∉ option.name)
    (valueFree : ∀ value ∈ option.value, 0 ∉ value) :
    writeArgument shortopts (decode option.name) (option.value.map decode) =
      encode (optionArgument shortopts option) := by
  have dashes : bytes (if shortopts then "-" else "--") =
      encode (ofString (if shortopts then "-" else "--")) := by
    cases shortopts <;> decide
  have equals : bytes (if shortopts then "" else "=") =
      encode (ofString (if shortopts then "" else "=")) := by
    cases shortopts <;> decide
  cases value : option.value with
  | none =>
      simp only [writeArgument, optionArgument, value, Option.map_none, Option.elim_none,
        List.append_nil, encode_append, cText_decode _ nameFree, dashes]
  | some text =>
      have textFree := valueFree text value
      simp only [writeArgument, optionArgument, value, Option.map_some, Option.elim_some,
        encode_append, List.append_assoc, cText_decode _ nameFree, cText_decode _ textFree, dashes,
        equals]

/-- Every list of options comes out of the native side as it went in: one
argument for each option after the program name, in order, in Modified UTF-8. -/
theorem command_round_trip (strtod : Strtod) (getprogname : List UInt8) (shortopts : Bool)
    (options : List TextOption)
    (nulFree : ∀ option ∈ options, 0 ∉ option.name ∧ ∀ value ∈ option.value, 0 ∉ value) :
    json2Options strtod getprogname (encode (TextOption.printCommand shortopts options)) =
      some (options.length + 1,
        getprogname :: options.map fun option => encode (optionArgument shortopts option)) := by
  have slots : (options.map fun option =>
        writeArgument shortopts (decode option.name) (option.value.map decode)) =
      options.map fun option => encode (optionArgument shortopts option) := by
    apply List.map_congr_left
    intro option member
    obtain ⟨nameFree, valueFree⟩ := nulFree option member
    exact writeArgument_decode shortopts option nameFree valueFree
  rw [json2Options_command, slots]

/-- `strtod` on the digits of an integer. -/
def integerStrtod : Strtod := fun text =>
  let digits := text.takeWhile fun b => byte '0' ≤ b && b ≤ byte '9'
  if digits = [] then none
  else some (digits.foldl (fun value b => 10 * value + (b.toNat - 48 : Nat)) 0, digits.length)

/-- A quote, a control character, a lone surrogate and an absent value. -/
theorem escaped_command_round_trip :
    json2Options integerStrtod (bytes "app_process64")
        (encode (TextOption.printCommand false
          [⟨ofString "name", some (ofString "a\"\x01/")⟩, ⟨ofString "dir", some [0xD800]⟩,
            ⟨ofString "thread", none⟩])) =
      some (4, [bytes "app_process64", bytes "--name=a\"\x01/",
        bytes "--dir=" ++ [0xED, 0xA0, 0x80], bytes "--thread"]) := by
  rw [command_round_trip integerStrtod _ false _ (by decide)]
  decide

end RaptorMark.Native
