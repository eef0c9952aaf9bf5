import Mathlib.Data.Bool.AllAny
import RaptorMark.Data.JSONReading
import RaptorMark.Native.ListEngines

/-!
# The text of the engine list

`native_ListEngines` prints the engines with cJSON, `NewStringUTF` takes the
bytes over and `org.json` reads them.  For ASCII names that are C strings the
reader gets back, engine for engine, what was printed.
-/

set_option autoImplicit false

namespace RaptorMark.Native

open Lib Lib.ModifiedUtf8 Lib.CScanf Lib.Separated CJson JSONTokener

variable (java : JavaLang)

/-! ## A printed string -/

/-- The unit that `NewStringUTF` makes of an ASCII byte. -/
def unitOf (b : UInt8) : UInt16 := .ofNat b.toNat

theorem stringBody_plain (fuel : Nat) (c : UInt16) (rest : JavaText)
    (notQuote : c ≠ asciiUnit '"') (notBackslash : c ≠ asciiUnit '\\') :
    stringBody java (asciiUnit '"') (fuel + 1) (c :: rest) =
      (stringBody java (asciiUnit '"') fuel rest).map fun (value, left) => (c :: value, left) := by
  rw [stringBody, if_neg notQuote, if_neg notBackslash]
  cases stringBody java (asciiUnit '"') fuel rest <;> rfl

theorem stringBody_escaped (fuel : Nat) (text rest : JavaText) (unit : UInt16)
    (escape : readEscapeCharacter java text = some (unit, rest)) :
    stringBody java (asciiUnit '"') (fuel + 1) (asciiUnit '\\' :: text) =
      (stringBody java (asciiUnit '"') fuel rest).map fun (value, left) =>
        (unit :: value, left) := by
  rw [stringBody, if_neg (by decide), if_pos rfl, escape]
  cases found : stringBody java (asciiUnit '"') fuel rest with
  | none => simp [found]
  | some pair => simp [found]

theorem unitOf_plain : ∀ b, b > 31 ∧ b ≠ byte '"' ∧ b ≠ byte '\\' →
    unitOf b ≠ asciiUnit '"' ∧ unitOf b ≠ asciiUnit '\\' :=
  forall_byte (by decide +kernel)

/-- Backslash escapes of one letter. -/
theorem escapeByte_short (b : UInt8) (short : b ∈ [byte '\\', byte '"', 8, 12, 10, 13, 9]) :
    ∃ selector, escapeByte b = [byte '\\', selector] ∧
      ∀ rest, readEscapeCharacter java (unitOf selector :: rest) = some (unitOf b, rest) := by
  simp only [List.mem_cons, List.not_mem_nil, or_false] at short
  rcases short with rfl | rfl | rfl | rfl | rfl | rfl | rfl <;> exact ⟨_, rfl, fun _ => rfl⟩

theorem escapeByte_cases (b : UInt8) :
    (escapeByte b = [b] ∧ b > 31 ∧ b ≠ byte '"' ∧ b ≠ byte '\\') ∨
      b ∈ [byte '\\', byte '"', 8, 12, 10, 13, 9] ∨
      (b.toNat < 32 ∧ escapeByte b = [byte '\\', byte 'u', byte '0', byte '0',
        hexDigitByte (b.toNat / 16), hexDigitByte (b.toNat % 16)]) := by
  by_cases plain : b > 31 ∧ b ≠ byte '"' ∧ b ≠ byte '\\'
  · exact Or.inl ⟨if_pos plain, plain⟩
  · by_cases short : b ∈ [byte '\\', byte '"', 8, 12, 10, 13, 9]
    · exact Or.inr (Or.inl short)
    · simp only [List.mem_cons, List.not_mem_nil, or_false, not_or] at short
      obtain ⟨notBackslash, notQuote, notB, notF, notN, notR, notT⟩ := short
      refine Or.inr (Or.inr ⟨?_, ?_⟩)
      · by_contra high
        exact plain ⟨UInt8.lt_iff_toNat_lt.mpr (by simp; omega), notQuote, notBackslash⟩
      · rw [escapeByte, if_neg plain, if_neg notBackslash, if_neg notQuote, if_neg notB,
          if_neg notF, if_neg notN, if_neg notR, if_neg notT]

theorem hexDigit_printed (digit : Nat) (small : digit < 16) :
    JSONTokener.hexDigit java (unitOf (hexDigitByte digit)) = some digit := by
  have table : ∀ digit < 16, unitOf (hexDigitByte digit) < 0x80 ∧
      asciiHexDigit (unitOf (hexDigitByte digit)) = some digit := by
    decide
  rw [JSONTokener.hexDigit, if_pos (table digit small).1, (table digit small).2]

theorem parseHex_control (code : Nat) (control : code < 32) :
    parseHex java [unitOf (byte '0'), unitOf (byte '0'), unitOf (hexDigitByte (code / 16)),
      unitOf (hexDigitByte (code % 16))] = some (.ofNat code) := by
  have zero : JSONTokener.hexDigit java (unitOf (byte '0')) = some 0 :=
    hexDigit_printed java 0 (by decide)
  have digits : [unitOf (byte '0'), unitOf (byte '0'), unitOf (hexDigitByte (code / 16)),
      unitOf (hexDigitByte (code % 16))].mapM (JSONTokener.hexDigit java) =
        some [0, 0, code / 16, code % 16] := by
    simp [zero, hexDigit_printed java (code / 16) (by omega),
      hexDigit_printed java (code % 16) (by omega)]
  have value : [0, 0, code / 16, code % 16].foldl (fun value digit => 16 * value + digit) 0 =
      code := by
    simp only [List.foldl_cons, List.foldl_nil]
    omega
  unfold parseHex
  dsimp only
  rw [List.head?_cons, if_neg (by decide), digits, Option.bind_eq_bind, Option.bind_some, value,
    if_neg (by decide)]
  rfl

/-- What the printer makes of a byte the reader takes back. -/
theorem stringBody_escapeByte (b : UInt8) (fuel : Nat) (rest : JavaText) :
    stringBody java (asciiUnit '"') (fuel + 1) ((escapeByte b).map unitOf ++ rest) =
      (stringBody java (asciiUnit '"') fuel rest).map fun (value, left) =>
        (unitOf b :: value, left) := by
  rcases escapeByte_cases b with ⟨printed, plain⟩ | short | ⟨control, printed⟩
  · obtain ⟨notQuote, notBackslash⟩ := unitOf_plain b plain
    rw [printed]
    exact stringBody_plain java fuel _ rest notQuote notBackslash
  · obtain ⟨selector, printed, selects⟩ := escapeByte_short java b short
    rw [printed]
    exact stringBody_escaped java fuel _ rest _ (selects rest)
  · have escape : readEscapeCharacter java
        (asciiUnit 'u' :: [unitOf (byte '0'), unitOf (byte '0'),
          unitOf (hexDigitByte (b.toNat / 16)), unitOf (hexDigitByte (b.toNat % 16))] ++ rest) =
        some (unitOf b, rest) := by
      rw [List.cons_append, readEscapeCharacter.eq_def]
      dsimp only
      rw [if_pos rfl, if_neg (by simp)]
      exact congrArg (Option.map fun unit => (unit, rest)) (parseHex_control java b.toNat control)
    rw [printed]
    exact stringBody_escaped java fuel _ rest _ escape

theorem stringBody_printed (name : List UInt8) (fuel : Nat) (rest : JavaText)
    (enough : name.length < fuel) :
    stringBody java (asciiUnit '"') fuel
        ((name.flatMap escapeByte).map unitOf ++ asciiUnit '"' :: rest) =
      some (name.map unitOf, rest) := by
  induction name generalizing fuel with
  | nil =>
      obtain ⟨less, rfl⟩ : ∃ less, fuel = less + 1 := ⟨fuel - 1, by omega⟩
      exact if_pos rfl
  | cons b others ih =>
      obtain ⟨less, rfl⟩ : ∃ less, fuel = less + 1 := ⟨fuel - 1, by omega⟩
      rw [List.length_cons] at enough
      rw [List.flatMap_cons, List.map_append, List.append_assoc, stringBody_escapeByte,
        ih less (by omega)]
      rfl

theorem escapeByte_ne_nil : ∀ b, escapeByte b ≠ [] := forall_byte (by decide +kernel)

theorem length_le_printed (name : List UInt8) :
    name.length ≤ (name.flatMap escapeByte).length := by
  induction name with
  | nil => exact Nat.le_refl _
  | cons b others ih =>
      have some := List.length_pos_of_ne_nil (escapeByte_ne_nil b)
      rw [List.flatMap_cons, List.length_append, List.length_cons]
      omega

/-- A printed C string is read as the units of its bytes. -/
theorem reads_printedString (name : List UInt8) (nulFree : 0 ∉ name) :
    Reads java 1 ((printStringPtr name).map unitOf) (.string (name.map unitOf)) := by
  have whole : cText name = name := by
    apply List.takeWhile_eq_self_iff.mpr
    intro b member
    have nonzero : b ≠ 0 := fun zero => nulFree (zero ▸ member)
    simpa using nonzero
  have printed : (printStringPtr name).map unitOf =
      asciiUnit '"' :: ((name.flatMap escapeByte).map unitOf ++ [asciiUnit '"']) := by
    simp only [printStringPtr, whole, List.map_append, List.append_assoc]
    rfl
  rw [printed]
  apply reads_quoted
  intro rest fuel enough
  have shorter := length_le_printed name
  rw [List.length_map] at enough
  exact stringBody_printed java name fuel rest (by omega)

/-! ## The printed list -/

variable (printNumber : ℚ → List UInt8) (version : KernelVersion)

theorem map_intercalate_comma (pieces : List (List UInt8)) :
    ([byte ','].intercalate pieces).map unitOf =
      [asciiUnit ','].intercalate (pieces.map (List.map unitOf)) :=
  map_intercalate [byte ','] unitOf pieces

/-- A member of a printed object, with what its value is read as. -/
structure PrintedMember where
  name : List UInt8
  item : CJson
  value : ReadValue

namespace PrintedMember

def printed (entry : PrintedMember) : List UInt8 × CJson := (entry.name, entry.item)

def read (entry : PrintedMember) : JavaText × ReadValue := (entry.name.map unitOf, entry.value)

def member (entry : PrintedMember) : JSONTokener.Member where
  nameText := (printStringPtr entry.name).map unitOf
  name := entry.name.map unitOf
  valueText := (printValue printNumber entry.item).map unitOf
  value := entry.value

structure Readable (need : Nat) (entry : PrintedMember) : Prop where
  nulFree : 0 ∉ entry.name
  value : Reads java (need + 1) ((printValue printNumber entry.item).map unitOf) entry.value
  notDouble : ∀ literal, entry.value ≠ .double literal

end PrintedMember

theorem printMembers_units (entries : List PrintedMember) :
    (printMembers printNumber (entries.map PrintedMember.printed)).map (List.map unitOf) =
      (entries.map (PrintedMember.member printNumber)).map JSONTokener.Member.text := by
  induction entries with
  | nil => rfl
  | cons entry rest ih =>
      simp only [List.map_cons, PrintedMember.printed, printMembers, ih]
      congr 1
      simp only [List.map_append, List.append_assoc]
      rfl

theorem reads_printedObject (need : Nat) (entry : PrintedMember) (entries : List PrintedMember)
    (readable : ∀ other ∈ entry :: entries, other.Readable java printNumber need)
    (distinct : ((entry :: entries).map fun other => other.name.map unitOf).Nodup) :
    Reads java (need + entries.length + 4)
      ((printValue printNumber
        (.object ((entry :: entries).map PrintedMember.printed))).map unitOf)
      (.object ((entry :: entries).map PrintedMember.read)) := by
  have object := reads_object java (need + 1) (entry.member printNumber)
    (entries.map (PrintedMember.member printNumber))
    (by
      rw [← List.map_cons, List.forall_mem_map]
      intro other member
      have name := reads_printedString java other.name (readable other member).nulFree
      exact ⟨⟨name.opens, fun fuel rest enough => name.reads fuel rest (by omega)⟩,
        (readable other member).value, (readable other member).notDouble⟩)
    (by
      rw [← List.map_cons, List.map_map]
      exact distinct)
  rw [← List.map_cons, ← printMembers_units, ← map_intercalate_comma, List.map_map,
    List.length_map] at object
  rw [printValue, List.map_append, List.map_append]
  have enough : need + 1 + entries.length + 3 = need + entries.length + 4 := by omega
  rw [enough] at object
  exact object

theorem reads_printedArray (need : Nat) (entries : List (CJson × ReadValue))
    (reads : ∀ entry ∈ entries,
      Reads java need ((printValue printNumber entry.1).map unitOf) entry.2) :
    Reads java (need + entries.length + 2)
      ((printValue printNumber (.array (entries.map Prod.fst))).map unitOf)
      (.array (entries.map Prod.snd)) := by
  have array := reads_array java need
    (entries.map fun entry => ((printValue printNumber entry.1).map unitOf, entry.2))
    (by
      rw [List.forall_mem_map]
      exact reads)
  simp only [List.map_map, List.length_map] at array
  rw [printValue, printElements_eq_map, List.map_append, List.map_append, map_intercalate_comma,
    List.map_map, List.map_map]
  exact array

/-- What `org.json` makes of the object of one engine. -/
def readMembersOf (name : List UInt8) : List (JavaText × ReadValue) :=
  [(ofString "name", .string (name.map unitOf)),
    (ofString "available", .boolean (checkEngineAvailability version name))]

def readEngine (name : List UInt8) : ReadValue := .object (readMembersOf version name)

theorem reads_engineItem (name : List UInt8) (nulFree : 0 ∉ name) :
    Reads java 5 ((printValue printNumber (engineItem version name)).map unitOf)
      (readEngine version name) := by
  have string := reads_printedString java name nulFree
  have boolean := reads_boolean java (checkEngineAvailability version name)
  have printedBoolean :
      (printValue printNumber (.bool (checkEngineAvailability version name))).map unitOf =
        ofString (if checkEngineAvailability version name then "true" else "false") := by
    cases checkEngineAvailability version name <;> rfl
  rw [← printedBoolean] at boolean
  refine reads_printedObject java printNumber 0 ⟨bytes "name", .string name, _⟩
    [⟨bytes "available", .bool (checkEngineAvailability version name), _⟩] ?_ ?_
  · rw [List.forall_mem_cons, List.forall_mem_singleton]
    exact ⟨⟨(by decide : 0 ∉ bytes "name"), string, nofun⟩,
      ⟨(by decide : 0 ∉ bytes "available"), boolean, nofun⟩⟩
  · change [(bytes "name").map unitOf, (bytes "available").map unitOf].Nodup
    decide

theorem reads_engineRoot (names : List (List UInt8)) (nulFree : ∀ name ∈ names, 0 ∉ name) :
    Reads java (names.length + 10)
      ((printValue printNumber (engineRoot version names)).map unitOf)
      (.object [(ofString "engines", .array (names.map (readEngine version)))]) := by
  have array := reads_printedArray java printNumber 5
    (names.map fun name => (engineItem version name, readEngine version name))
    (by
      rw [List.forall_mem_map]
      exact fun name member => reads_engineItem java printNumber version name (nulFree name member))
  simp only [List.map_map, List.length_map] at array
  have root := reads_printedObject java printNumber (names.length + 6)
    ⟨bytes "engines", .array (names.map (engineItem version)),
      .array (names.map (readEngine version))⟩ []
    (by
      rw [List.forall_mem_singleton]
      refine ⟨(by decide : 0 ∉ bytes "engines"), ?_, nofun⟩
      have enough : 5 + names.length + 2 = names.length + 6 + 1 := by omega
      rw [enough] at array
      exact array)
    (by simp)
  exact root

/-! ## The text on its way -/

def AllAscii (text : List UInt8) : Prop := ∀ b ∈ text, b < 0x80

instance (text : List UInt8) : Decidable (AllAscii text) :=
  decidable_of_iff (text.all (· < 0x80)) List.all_iff_forall_prop

theorem allAscii_append {first second : List UInt8} (left : AllAscii first)
    (right : AllAscii second) : AllAscii (first ++ second) :=
  List.forall_mem_append.mpr ⟨left, right⟩

theorem allAscii_intercalate {pieces : List (List UInt8)}
    (every : ∀ piece ∈ pieces, AllAscii piece) : AllAscii ([byte ','].intercalate pieces) := by
  intro b member
  rcases mem_intercalate _ pieces b member with comma | ⟨piece, isPiece, inPiece⟩
  · rw [List.mem_singleton.mp comma]
    decide
  · exact every piece isPiece b inPiece

theorem escapeByte_ascii : ∀ b, b < 0x80 → AllAscii (escapeByte b) :=
  forall_byte (by decide +kernel)

theorem printStringPtr_ascii (name : List UInt8) (ascii : AllAscii name) :
    AllAscii (printStringPtr name) := by
  have quote : AllAscii [byte '"'] := List.forall_mem_singleton.mpr (by decide)
  refine allAscii_append (allAscii_append quote fun b member => ?_) quote
  obtain ⟨source, isSource, isPrinted⟩ := List.mem_flatMap.mp member
  exact escapeByte_ascii source (ascii source ((List.takeWhile_prefix _).subset isSource)) b
    isPrinted

theorem engineItem_ascii (name : List UInt8) (ascii : AllAscii name) :
    AllAscii (printValue printNumber (engineItem version name)) := by
  have fixed (text : String) (plain : AllAscii (bytes text)) :
      AllAscii (printStringPtr (bytes text) ++ [byte ':']) :=
    allAscii_append (printStringPtr_ascii _ plain) (List.forall_mem_singleton.mpr (by decide))
  have boolean : AllAscii
      (printValue printNumber (.bool (checkEngineAvailability version name))) := by
    rw [printValue]
    cases checkEngineAvailability version name <;> decide
  rw [engineItem, printValue]
  refine allAscii_append (allAscii_append (List.forall_mem_singleton.mpr (by decide)) ?_)
    (List.forall_mem_singleton.mpr (by decide))
  apply allAscii_intercalate
  simp only [printMembers, List.forall_mem_cons, List.not_mem_nil, false_imp_iff, implies_true,
    and_true]
  refine ⟨allAscii_append (fixed "name" (by decide)) ?_,
    allAscii_append (fixed "available" (by decide)) boolean⟩
  rw [printValue]
  exact printStringPtr_ascii name ascii

theorem engineRoot_printed (names : List (List UInt8)) :
    printValue printNumber (engineRoot version names) =
      bytes "\x7b\"engines\":[" ++
        [byte ','].intercalate (names.map fun name =>
          printValue printNumber (engineItem version name)) ++ bytes "]\x7d" := by
  have start : bytes "\x7b\"engines\":[" =
      [byte '\x7b'] ++ printStringPtr (bytes "engines") ++ [byte ':'] ++ [byte '['] := by decide
  have stop : bytes "]\x7d" = [byte ']'] ++ [byte '\x7d'] := rfl
  rw [engineRoot, printValue, start, stop]
  simp only [printMembers, printValue, printElements_eq_map, List.intercalate_singleton,
    List.map_map, List.append_assoc]
  rfl

theorem nativeListEngines_text (names : List (List UInt8)) (few : names.length ≤ maxEngineNum)
    (ascii : ∀ name ∈ names, AllAscii name) :
    nativeListEngines printNumber version names =
      some ((printValue printNumber (engineRoot version names)).map unitOf) := by
  have printed : AllAscii (printValue printNumber (engineRoot version names)) := by
    rw [engineRoot_printed]
    have start : AllAscii (bytes "\x7b\"engines\":[") := by decide
    have stop : AllAscii (bytes "]\x7d") := by decide
    refine allAscii_append (allAscii_append start (allAscii_intercalate ?_)) stop
    rw [List.forall_mem_map]
    exact fun name member => engineItem_ascii printNumber version name (ascii name member)
  have decoded : newStringUtf (printValue printNumber (engineRoot version names)) =
      some ((printValue printNumber (engineRoot version names)).map unitOf) :=
    newStringUtf_ascii _ printed
  rw [nativeListEngines, fioListIoengines, if_pos few, Option.bind_eq_bind, Option.bind_some,
    printUnformatted, decoded]

theorem jsonObject_printed (names : List (List UInt8)) (nulFree : ∀ name ∈ names, 0 ∉ name) :
    ReadValue.jsonObject java ((printValue printNumber (engineRoot version names)).map unitOf) =
      .ok [(ofString "engines", .array (names.map (readEngine version)))] := by
  have reads := reads_engineRoot java printNumber version names nulFree
  have solid : ∀ piece ∈ names.map (fun name => printValue printNumber (engineItem version name)),
      piece ≠ [] := by
    rw [List.forall_mem_map]
    intro name _
    rw [engineItem, printValue]
    simp
  have long : names.length + 12 ≤
      (printValue printNumber (engineRoot version names)).length := by
    have start : (bytes "\x7b\"engines\":[").length = 12 := by decide
    have pieces := length_le_intercalate [byte ','] _ solid
    rw [List.length_map] at pieces
    rw [engineRoot_printed, List.length_append, List.length_append]
    omega
  have noMark : ((printValue printNumber (engineRoot version names)).map unitOf).head? ≠
      some 0xFEFF := by
    rw [engineRoot_printed]
    simp [bytes]
    decide
  have read := reads.reads
    (3 * ((printValue printNumber (engineRoot version names)).map unitOf).length + 3) []
    (by rw [List.length_map]; omega) (fun _ => nofun)
  rw [List.append_nil] at read
  unfold ReadValue.jsonObject
  dsimp only
  rw [if_neg noMark, read]

end RaptorMark.Native
