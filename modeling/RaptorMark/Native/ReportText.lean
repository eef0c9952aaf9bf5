import RaptorMark.Data.JSONBlanks
import RaptorMark.Fio.JsonOutput
import RaptorMark.Native.NumberWords

/-!
# The text of a report

fio builds its report as a tree, prints it, `NewStringUTF` takes the bytes over
and `org.json` reads them.  Whatever objects, arrays, strings and numbers are
added, and however they are nested, the reader gets them back: less the empty
strings, which fio does not add, and with the last value where a name is added
twice to one object.  The names must do without quotes and backslashes, since
fio does not escape them.
-/

set_option autoImplicit false

namespace RaptorMark.Native

open Lib Lib.ModifiedUtf8 Lib.CNumber Lib.Separated Fio.Json JSONTokener

variable {Double : Type}

/-! ## Documents -/

/-- What a caller of fio's functions has in mind: texts, numbers, and objects
and arrays filled in order. -/
inductive Document (Double : Type) where
  | string (text : JavaText)
  | integer (number : Int64)
  | float (number : Double)
  | object (fields : List (JavaText × Document Double))
  | array (items : List (Document Double))

mutual

/-- The argument for the functions that add a value, with everything added to
it first. -/
def Document.arg : Document Double → Value Double
  | .string text => .string (encode text)
  | .integer number => .integer number
  | .float number => .float number
  | .object fields => .object (addFields [] fields)
  | .array items => .array (addItems [] items)

def addFields (pairs : List (List UInt8 × Value Double)) :
    List (JavaText × Document Double) → List (List UInt8 × Value Double)
  | [] => pairs
  | (name, document) :: rest =>
      addFields (jsonObjectAddValueType pairs (encode name) document.arg).1 rest

def addItems (values : List (Value Double)) : List (Document Double) → List (Value Double)
  | [] => values
  | document :: rest => addItems (jsonArrayAddValueType values document.arg).1 rest

end

def Document.isEmptyString : Document Double → Bool
  | .string text => text.isEmpty
  | _ => false

variable (java : JavaLang) (printDouble : Double → List UInt8)

mutual

/-- What the reader is to make of a document. -/
def Document.read : Document Double → ReadValue
  | .string text => .string text
  | .integer number => .long number
  | .float number => wordRead java ((printDouble number).map unitOf)
  | .object fields => .object (readFields [] fields)
  | .array items => .array (readItems items)

def readFields (members : List (JavaText × ReadValue)) :
    List (JavaText × Document Double) → List (JavaText × ReadValue)
  | [] => members
  | (name, document) :: rest =>
      readFields (if document.isEmptyString then members else store members name document.read) rest

def readItems : List (Document Double) → List ReadValue
  | [] => []
  | document :: rest =>
      if document.isEmptyString then readItems rest else document.read :: readItems rest

end

mutual

/-- The names of pairs at every depth. -/
def Document.names : Document Double → List JavaText
  | .string _ => []
  | .integer _ => []
  | .float _ => []
  | .object fields => fieldNames fields
  | .array items => itemNames items

def fieldNames : List (JavaText × Document Double) → List JavaText
  | [] => []
  | (name, document) :: rest => name :: (document.names ++ fieldNames rest)

def itemNames : List (Document Double) → List JavaText
  | [] => []
  | document :: rest => document.names ++ itemNames rest

end

/-- Without the characters that stand for themselves only when escaped. -/
def PlainName (name : JavaText) : Prop :=
  ∀ unit ∈ name, unit ≠ asciiUnit '"' ∧ unit ≠ asciiUnit '\\'

/-- What the round trip asks of the libraries: `printf` writes a `double` with
digits, sign and point or as `nan` or `inf`, and Java takes what it writes for no
infinite number. -/
structure NumberWords : Prop where
  written : ∀ number, printDouble number ≠ [] ∧
    ∀ b ∈ printDouble number, b ∈ numberBytes
  finite : ∀ number, java.isDouble ((printDouble number).map unitOf) = true →
    java.isFinite ((printDouble number).map unitOf) = true

/-! ## Strings -/

def escapeUnit (unit : UInt16) : JavaText :=
  if unit = asciiUnit '\\' ∨ unit = asciiUnit '"' then [asciiUnit '\\', unit] else [unit]

theorem flatMap_escapeByte_high (bytes : List UInt8) (high : ∀ b ∈ bytes, 0x80 ≤ b.toNat) :
    bytes.flatMap Fio.Json.escapeByte = bytes := by
  induction bytes with
  | nil => rfl
  | cons b rest ih =>
      have first := high b (List.mem_cons_self ..)
      have plain : ¬(b = ascii '\\' ∨ b = ascii '"') := by
        rintro (rfl | rfl)
        · exact absurd first (by decide)
        · exact absurd first (by decide)
      rw [List.flatMap_cons, Fio.Json.escapeByte, if_neg plain,
        ih fun other member => high other (List.mem_cons_of_mem _ member)]
      rfl

/-- Escaping the units of a text escapes its bytes: no byte of a unit outside
ASCII is a quote or a backslash. -/
theorem encode_escapeUnit (unit : UInt16) :
    encode (escapeUnit unit) = (encodeUnit unit).flatMap Fio.Json.escapeByte := by
  by_cases special : unit = asciiUnit '\\' ∨ unit = asciiUnit '"'
  · rcases special with rfl | rfl <;> rfl
  · rw [escapeUnit, if_neg special, encode_cons, encode_nil, List.append_nil]
    by_cases zero : unit = 0
    · rw [zero]
      rfl
    · by_cases small : unit.toNat < 0x80
      · have plain : ¬(UInt8.ofNat unit.toNat = ascii '\\' ∨
            UInt8.ofNat unit.toNat = ascii '"') := by
          rintro (same | same)
          · refine special (Or.inl (UInt16.toNat_inj.mp ?_))
            rw [← toNat_ofNat_byte unit.toNat (by omega), same]
            rfl
          · refine special (Or.inr (UInt16.toNat_inj.mp ?_))
            rw [← toNat_ofNat_byte unit.toNat (by omega), same]
            rfl
        rw [encodeUnit_ascii unit zero small, List.flatMap_cons, Fio.Json.escapeByte,
          if_neg plain, List.flatMap_nil, List.append_nil]
      · exact (flatMap_escapeByte_high _ (encodeUnit_high unit (by omega))).symm

theorem encode_escaped (text : JavaText) :
    encode (text.flatMap escapeUnit) = (encode text).flatMap Fio.Json.escapeByte := by
  induction text with
  | nil => rfl
  | cons unit rest ih =>
      rw [List.flatMap_cons, encode_append, encode_escapeUnit, ih, encode_cons,
        List.flatMap_append]

theorem stringBody_escapeUnit (unit : UInt16) (fuel : Nat) (rest : JavaText) :
    stringBody java (asciiUnit '"') (fuel + 1) (escapeUnit unit ++ rest) =
      (stringBody java (asciiUnit '"') fuel rest).map fun (value, left) =>
        (unit :: value, left) := by
  by_cases special : unit = asciiUnit '\\' ∨ unit = asciiUnit '"'
  · rw [escapeUnit, if_pos special]
    refine stringBody_escaped java fuel (unit :: rest) rest unit ?_
    rcases special with rfl | rfl <;> rfl
  · rw [escapeUnit, if_neg special]
    exact stringBody_plain java fuel unit rest (fun same => special (Or.inr same))
      fun same => special (Or.inl same)

theorem length_le_escaped (text : JavaText) :
    text.length ≤ (text.flatMap escapeUnit).length := by
  induction text with
  | nil => exact Nat.le_refl _
  | cons unit rest ih =>
      have some : 1 ≤ (escapeUnit unit).length := by
        rw [escapeUnit]
        split <;> simp
      rw [List.flatMap_cons, List.length_append, List.length_cons]
      omega

theorem stringBody_escapedText (text : JavaText) (fuel : Nat) (rest : JavaText)
    (enough : text.length < fuel) :
    stringBody java (asciiUnit '"') fuel (text.flatMap escapeUnit ++ asciiUnit '"' :: rest) =
      some (text, rest) := by
  induction text generalizing fuel with
  | nil =>
      obtain ⟨less, rfl⟩ : ∃ less, fuel = less + 1 := ⟨fuel - 1, by omega⟩
      exact if_pos rfl
  | cons unit others ih =>
      obtain ⟨less, rfl⟩ : ∃ less, fuel = less + 1 := ⟨fuel - 1, by omega⟩
      simp only [List.length_cons] at enough
      rw [List.flatMap_cons, List.append_assoc, stringBody_escapeUnit, ih less (by omega)]
      rfl

theorem reads_escaped (text written : JavaText)
    (isWritten : written = asciiUnit '"' :: (text.flatMap escapeUnit ++ [asciiUnit '"'])) :
    Reads java (3 * written.length) written (.string text) := by
  have quoted := reads_quoted java (text.flatMap escapeUnit) text fun rest fuel enough =>
    stringBody_escapedText java text fuel rest (by have := length_le_escaped text; omega)
  rw [isWritten]
  exact quoted.mono java (by simp only [List.length_cons, List.length_append]; omega)

theorem escaped_plain (name : JavaText) (plain : PlainName name) :
    name.flatMap escapeUnit = name := by
  induction name with
  | nil => rfl
  | cons unit rest ih =>
      obtain ⟨notQuote, notBackslash⟩ := plain unit (List.mem_cons_self ..)
      rw [List.flatMap_cons, escapeUnit, if_neg (by rintro (same | same) <;> contradiction),
        ih fun other member => plain other (List.mem_cons_of_mem _ member)]
      rfl

/-! ## Adding in order -/

theorem addFields_append (pairs : List (List UInt8 × Value Double))
    (fields : List (JavaText × Document Double)) :
    addFields pairs fields = pairs ++ addFields [] fields := by
  induction fields generalizing pairs with
  | nil => rw [addFields, addFields, List.append_nil]
  | cons field rest ih =>
      obtain ⟨name, document⟩ := field
      rw [addFields, addFields, jsonObjectAddValueType, jsonObjectAddValueType]
      cases jsonCreateValue document.arg with
      | none => exact ih pairs
      | some value =>
          change addFields (pairs ++ [(encode name, value)]) rest =
            pairs ++ addFields ([] ++ [(encode name, value)]) rest
          rw [ih, ih ([] ++ [_]), List.nil_append, List.append_assoc]

theorem addItems_append (values : List (Value Double)) (items : List (Document Double)) :
    addItems values items = values ++ addItems [] items := by
  induction items generalizing values with
  | nil => rw [addItems, addItems, List.append_nil]
  | cons document rest ih =>
      rw [addItems, addItems, jsonArrayAddValueType, jsonArrayAddValueType]
      cases jsonCreateValue document.arg with
      | none => exact ih values
      | some value =>
          change addItems (values ++ [value]) rest = values ++ addItems ([] ++ [value]) rest
          rw [ih, ih ([] ++ [_]), List.nil_append, List.append_assoc]

theorem jsonCreateValue_empty (document : Document Double) (empty : document.isEmptyString = true) :
    jsonCreateValue document.arg = none := by
  cases document with
  | string text =>
      rw [Document.isEmptyString, List.isEmpty_iff] at empty
      rw [empty]
      rfl
  | integer _ => cases empty
  | float _ => cases empty
  | object _ => cases empty
  | array _ => cases empty

theorem addFields_empty (name : JavaText) (document : Document Double)
    (rest : List (JavaText × Document Double)) (empty : document.isEmptyString = true) :
    addFields [] ((name, document) :: rest) = addFields [] rest := by
  rw [addFields, jsonObjectAddValueType, jsonCreateValue_empty document empty]

theorem addFields_some (name : JavaText) (document : Document Double)
    (rest : List (JavaText × Document Double)) (value : Value Double)
    (created : jsonCreateValue document.arg = some value) :
    addFields [] ((name, document) :: rest) = (encode name, value) :: addFields [] rest := by
  rw [addFields, jsonObjectAddValueType, created]
  exact addFields_append _ rest

theorem addItems_empty (document : Document Double) (rest : List (Document Double))
    (empty : document.isEmptyString = true) :
    addItems [] (document :: rest) = addItems [] rest := by
  rw [addItems, jsonArrayAddValueType, jsonCreateValue_empty document empty]

theorem addItems_some (document : Document Double) (rest : List (Document Double))
    (value : Value Double) (created : jsonCreateValue document.arg = some value) :
    addItems [] (document :: rest) = value :: addItems [] rest := by
  rw [addItems, jsonArrayAddValueType, created]
  exact addItems_append _ rest

/-! ## Lines and indentation -/

def lineEnd : JavaText := [asciiUnit '\n']

def blankUnit : JavaText := [asciiUnit ' ']

def levelUnits (level : Nat) : JavaText := (List.replicate level (ofString "  ")).flatten

theorem lineEnd_blank : AllBlank lineEnd := by
  intro unit member
  rw [List.mem_singleton.mp member]
  decide

theorem blankUnit_blank : AllBlank blankUnit := by
  intro unit member
  rw [List.mem_singleton.mp member]
  decide

theorem levelUnits_blank (level : Nat) : AllBlank (levelUnits level) := by
  intro unit member
  obtain ⟨piece, inPieces, inPiece⟩ := List.mem_flatten.mp member
  have table : (ofString "  ").all isBlank = true := by decide
  rw [List.eq_of_mem_replicate inPieces] at inPiece
  exact List.all_eq_true.mp table unit inPiece

theorem encode_levelUnits (level : Nat) : encode (levelUnits level) = jsonPrintLevel level := by
  induction level with
  | zero => rfl
  | succ less ih =>
      rw [levelUnits, List.replicate_succ, List.flatten_cons, encode_append, ← levelUnits, ih,
        jsonPrintLevel, jsonPrintLevel, List.replicate_succ, List.flatten_cons]
      rfl

def blockText (opening closing : Char) (level : Nat) (texts : List JavaText) : JavaText :=
  asciiUnit opening :: (lineEnd ++ ((asciiUnit ',' :: lineEnd).intercalate texts ++
    ((lineEnd ++ levelUnits level) ++ [asciiUnit closing])))

theorem encode_blockText (opening closing : Char) (level : Nat) (texts : List JavaText)
    (opens : encodeUnit (asciiUnit opening) = [ascii opening])
    (closes : encodeUnit (asciiUnit closing) = [ascii closing]) :
    encode (blockText opening closing level texts) =
      printBlock opening closing level (texts.map encode) := by
  have joined : encode ((asciiUnit ',' :: lineEnd).intercalate texts) =
      (asciiText ",\n").intercalate (texts.map encode) :=
    flatMap_intercalate (asciiUnit ',' :: lineEnd) encodeUnit texts
  have line : encode lineEnd = [ascii '\n'] := by decide
  rw [blockText, printBlock]
  simp only [encode_cons, encode_append, encode_nil, joined, line, opens, closes,
    encode_levelUnits, List.append_nil, List.append_assoc, List.cons_append, List.nil_append]

/-! ## The round trip -/

/-- The bytes of this text are printed for the value, and it is read as said. -/
structure Printed (level : Nat) (value : Value Double) (read : ReadValue) (text : JavaText) :
    Prop where
  bytes : jsonPrintValue printDouble level value = encode text
  reads : Reads java (3 * text.length) text read
  storable : Storable java read

variable {java printDouble}

theorem string_printed (text : JavaText) (level : Nat) :
    Printed java printDouble level (.string ((encode text).flatMap Fio.Json.escapeByte))
      (.string text) (asciiUnit '"' :: (text.flatMap escapeUnit ++ [asciiUnit '"'])) where
  bytes := by
    rw [jsonPrintValue, encode_cons, encode_append, encode_escaped]
    rfl
  reads := reads_escaped java text _ rfl
  storable := by
    intro literal same
    cases same

theorem integer_printed (number : Int64) (level : Nat) :
    Printed java printDouble level (.integer number) (.long number)
      ((printLld number).map unitOf) where
  bytes := by
    rw [jsonPrintValue, encode_word _ (printLld_word number)]
  reads := by
    have read := reads_numberWord java _ (printLld_digits number).1 (printLld_word number)
    rwa [wordRead, longOf_printLld java number] at read
  storable := by
    intro literal same
    cases same

theorem float_printed (words : NumberWords java printDouble) (number : Double) (level : Nat) :
    Printed java printDouble level (.float number)
      (wordRead java ((printDouble number).map unitOf)) ((printDouble number).map unitOf) where
  bytes := by
    rw [jsonPrintValue, encode_word _ (words.written number).2]
  reads := reads_numberWord java _ (words.written number).1 (words.written number).2
  storable := by
    intro literal same
    rw [wordRead] at same
    split at same
    · cases same
    · split at same
      · cases same
        exact words.finite number ‹_›
      · cases same

mutual

/-- Every document but an empty string becomes a value that is printed and read
back.  The recursion is over the document, with the fields of objects and the
items of arrays beside it. -/
theorem document_printed (words : NumberWords java printDouble) (document : Document Double)
    (level : Nat) (plain : ∀ name ∈ document.names, PlainName name)
    (solid : document.isEmptyString = false) :
    ∃ value text, jsonCreateValue document.arg = some value ∧
      Printed java printDouble level value (document.read java printDouble) text := by
  cases document with
  | string text =>
      have nonempty : encode text ≠ [] := by
        rw [Document.isEmptyString, List.isEmpty_eq_false_iff] at solid
        intro nothing
        have back := newStringUtf_encode text
        rw [nothing] at back
        cases back
        exact solid rfl
      refine ⟨_, _, ?_, string_printed text level⟩
      rw [Document.arg, jsonCreateValue, strdupEscape, if_neg nonempty]
      rfl
  | integer number => exact ⟨_, _, rfl, integer_printed number level⟩
  | float number => exact ⟨_, _, rfl, float_printed words number level⟩
  | object fields =>
      obtain ⟨entries, printed, stored, read⟩ := fields_printed words fields (level + 1) plain
      refine ⟨_, blockText '\x7b' '\x7d' level (entries.map fun entry =>
        levelUnits (level + 1) ++ entry.spacedText blankUnit), rfl, ?_, ?_, ?_⟩
      · rw [encode_blockText _ _ _ _ (by decide) (by decide), jsonPrintValue, printed,
          List.map_map]
        rfl
      · rw [Document.read, read]
        exact reads_indentedObject java lineEnd_blank (levelUnits_blank (level + 1))
          (lineEnd_blank.append (levelUnits_blank level)) blankUnit_blank entries stored _ rfl
      · intro literal same
        rw [Document.read] at same
        cases same
  | array items =>
      obtain ⟨pieces, printed, reads, read⟩ := items_printed words items (level + 1) plain
      refine ⟨_, blockText '[' ']' level (pieces.map fun entry =>
        levelUnits (level + 1) ++ entry.1), rfl, ?_, ?_, ?_⟩
      · rw [encode_blockText _ _ _ _ (by decide) (by decide), jsonPrintValue, printed,
          List.map_map]
        rfl
      · rw [Document.read, read]
        exact reads_indentedArray java lineEnd_blank (levelUnits_blank (level + 1))
          (lineEnd_blank.append (levelUnits_blank level)) pieces reads _ rfl
      · intro literal same
        rw [Document.read] at same
        cases same

theorem fields_printed (words : NumberWords java printDouble)
    (fields : List (JavaText × Document Double)) (level : Nat)
    (plain : ∀ name ∈ fieldNames fields, PlainName name) :
    ∃ entries : List Member,
      jsonPrintPairs printDouble level (addFields [] fields) =
        entries.map (fun entry => encode (levelUnits level ++ entry.spacedText blankUnit)) ∧
      (∀ entry ∈ entries, entry.Stored java) ∧
      ∀ members, readFields java printDouble members fields = storeAll members entries := by
  cases fields with
  | nil => exact ⟨[], rfl, by simp, fun members => rfl⟩
  | cons field rest =>
      obtain ⟨name, document⟩ := field
      have plainName : PlainName name := plain name (List.mem_cons_self ..)
      have plainDocument : ∀ name ∈ document.names, PlainName name := fun other member =>
        plain other (List.mem_cons_of_mem _ (List.mem_append_left _ member))
      obtain ⟨entries, printed, stored, read⟩ := fields_printed words rest level fun other member =>
        plain other (List.mem_cons_of_mem _ (List.mem_append_right _ member))
      by_cases empty : document.isEmptyString = true
      · refine ⟨entries, ?_, stored, ?_⟩
        · rw [addFields_empty name document rest empty, printed]
        · intro members
          rw [readFields, if_pos empty, read]
      · obtain ⟨value, text, created, value_printed⟩ :=
          document_printed words document level plainDocument (Bool.eq_false_iff.mpr empty)
        refine ⟨⟨asciiUnit '"' :: (name ++ [asciiUnit '"']), name, text,
          document.read java printDouble⟩ :: entries, ?_, ?_, ?_⟩
        · rw [addFields_some name document rest value created, jsonPrintPairs, printed,
            value_printed.bytes, List.map_cons, Member.spacedText]
          simp only [encode_append, encode_cons, encode_levelUnits, List.append_assoc]
          rfl
        · rw [List.forall_mem_cons]
          refine ⟨⟨?_, value_printed.reads, value_printed.storable⟩, stored⟩
          refine reads_escaped java name _ ?_
          rw [escaped_plain name plainName]
        · intro members
          rw [readFields, if_neg empty, read]
          rfl

theorem items_printed (words : NumberWords java printDouble) (items : List (Document Double))
    (level : Nat) (plain : ∀ name ∈ itemNames items, PlainName name) :
    ∃ pieces : List (JavaText × ReadValue),
      jsonPrintElements printDouble level (addItems [] items) =
        pieces.map (fun entry => encode (levelUnits level ++ entry.1)) ∧
      (∀ entry ∈ pieces, Reads java (3 * entry.1.length) entry.1 entry.2) ∧
      readItems java printDouble items = pieces.map Prod.snd := by
  cases items with
  | nil => exact ⟨[], rfl, by simp, rfl⟩
  | cons document rest =>
      have plainDocument : ∀ name ∈ document.names, PlainName name := fun other member =>
        plain other (List.mem_append_left _ member)
      obtain ⟨pieces, printed, reads, read⟩ := items_printed words rest level fun other member =>
        plain other (List.mem_append_right _ member)
      by_cases empty : document.isEmptyString = true
      · refine ⟨pieces, ?_, reads, ?_⟩
        · rw [addItems_empty document rest empty, printed]
        · rw [readItems, if_pos empty, read]
      · obtain ⟨value, text, created, value_printed⟩ :=
          document_printed words document level plainDocument (Bool.eq_false_iff.mpr empty)
        refine ⟨(text, document.read java printDouble) :: pieces, ?_, ?_, ?_⟩
        · rw [addItems_some document rest value created, jsonPrintElements, printed,
            value_printed.bytes, List.map_cons, encode_append, encode_levelUnits]
        · rw [List.forall_mem_cons]
          exact ⟨value_printed.reads, reads⟩
        · rw [readItems, if_neg empty, read, List.map_cons]

end

/-- The bytes of a report are a text that the reader takes for what was added. -/
theorem report_read (words : NumberWords java printDouble)
    (fields : List (JavaText × Document Double))
    (plain : ∀ name ∈ fieldNames fields, PlainName name) :
    ∃ text, newStringUtf (jsonPrintObject printDouble (addFields [] fields)) = some text ∧
      ReadValue.jsonObject java text = .ok (readFields java printDouble [] fields) := by
  obtain ⟨value, text, created, printed⟩ :=
    document_printed words (.object fields) 0 plain rfl
  cases created
  have bytes : jsonPrintObject printDouble (addFields [] fields) = encode text := printed.bytes
  refine ⟨text, by rw [bytes, newStringUtf_encode], ?_⟩
  obtain ⟨first, tail, rfl, _⟩ := printed.reads.opens
  have noMark : ¬ (first :: tail).head? = some 0xFEFF := by
    rw [List.head?_cons, Option.some.injEq]
    rintro rfl
    have heads := congrArg List.head? bytes
    rw [jsonPrintObject, jsonPrintValue, printBlock, encode_cons] at heads
    have differ : some (ascii '\x7b') ≠ some (0xEF : UInt8) := by decide
    exact differ heads
  have read := printed.reads.reads (3 * (first :: tail).length + 3) [] (by omega) (by
    intro head member
    cases member)
  rw [List.append_nil] at read
  rw [ReadValue.jsonObject]
  simp only [if_neg noMark, read, Document.read]

/-- Every report that fio builds from texts and numbers, however nested, is read
back by the app as what was added to it. -/
theorem report_round_trip (words : NumberWords java printDouble)
    (fields : List (JavaText × Document Double))
    (plain : ∀ name ∈ fieldNames fields, PlainName name) :
    (newStringUtf (jsonPrintObject printDouble (addFields [] fields))).map
        (ReadValue.jsonObject java) =
      some (.ok (readFields java printDouble [] fields)) := by
  obtain ⟨text, received, read⟩ := report_read words fields plain
  rw [received, Option.map_some, read]

/-- Two pairs of one name, an empty string, a float and a nested array. -/
def sampleFields : List (JavaText × Document Unit) :=
  [(ofString "jobname", .string (ofString "a\"b")), (ofString "error", .integer 0),
    (ofString "desc", .string []), (ofString "error", .integer (-5)),
    (ofString "read", .object [(ofString "iops", .float ())]),
    (ofString "disk", .array [.string (ofString "dm-0"), .object [], .array []])]

/-- Java on words that are digits with an optional sign or point. -/
def sampleJava : JavaLang where
  isDouble word := word.all fun unit => unit ∈ ofString "-.0123456789"
  isFinite _ := true
  otherDigit _ := none
  valueOf _ := []

theorem report_round_trip_sample :
    (newStringUtf (jsonPrintObject (fun _ => asciiText "0.500000") (addFields [] sampleFields))).map
        (ReadValue.jsonObject sampleJava) =
      some (.ok [(ofString "jobname", .string (ofString "a\"b")),
        (ofString "error", .long (-5)),
        (ofString "read", .object [(ofString "iops", .double (ofString "0.500000"))]),
        (ofString "disk", .array [.string (ofString "dm-0"), .object [], .array []])]) := by
  refine (report_round_trip ⟨fun _ => ⟨by decide, ?_⟩, fun _ _ => rfl⟩ sampleFields ?_).trans ?_
  · have table : (asciiText "0.500000").all (fun b => b ∈ numberBytes) = true := by decide
    exact fun b member => of_decide_eq_true (List.all_eq_true.mp table b member)
  · have table : (fieldNames sampleFields).all (fun name => name.all fun unit =>
        unit ≠ asciiUnit '"' ∧ unit ≠ asciiUnit '\\') = true := by
      decide +kernel
    intro name member unit inName
    exact of_decide_eq_true
      (List.all_eq_true.mp (List.all_eq_true.mp table name member) unit inName)
  · rfl

end RaptorMark.Native
