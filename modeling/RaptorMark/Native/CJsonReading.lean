import RaptorMark.Data.CommandText
import RaptorMark.Lib.Separated
import RaptorMark.Native.CJson

/-!
# Reading printed JSON back

The native JSON reader sees the Modified UTF-8 of a text that `JSONStringer`
printed.  A printed string comes back unit by unit through its escapes.  `Reads`
says that the reader takes a printed value for an item whatever follows it; the
rules for strings, booleans, arrays and objects compose.
-/

set_option autoImplicit false

namespace RaptorMark.Native

open Lib Lib.ModifiedUtf8 Lib.Separated

namespace CJson

/-! ## Blanks and strings -/

theorem bufferSkipWhitespace_cons (b : UInt8) (rest : List UInt8) (solid : ¬b ≤ 32) :
    bufferSkipWhitespace (b :: rest) = b :: rest := by
  simp [bufferSkipWhitespace, solid]

/-- What the reader stores for a unit: U+0000 comes out of its escape as a NUL. -/
def decodeUnit (unit : UInt16) : List UInt8 := if unit = 0 then [0] else encodeUnit unit

def decode (text : JavaText) : List UInt8 := text.flatMap decodeUnit

theorem decode_eq_encode (text : JavaText) (nulFree : 0 ∉ text) : decode text = encode text := by
  induction text with
  | nil => rfl
  | cons unit rest ih =>
      rw [List.mem_cons, not_or] at nulFree
      have head : decodeUnit unit = encodeUnit unit := if_neg (Ne.symm nulFree.1)
      have tail : decode rest = encode rest := ih nulFree.2
      rw [encode_cons, ← tail, ← head]
      rfl

/-- A byte that both loops of `parse_string` copy. -/
def Plain (b : UInt8) : Prop := b ≠ byte '"' ∧ b ≠ byte '\\'

theorem scanLiteral_quote (after : List UInt8) :
    scanLiteral (byte '"' :: after) = some ([], after) := by
  rw [scanLiteral.eq_def]
  exact if_pos rfl

theorem scanLiteral_cons (b : UInt8) (input : List UInt8) (plain : Plain b) :
    scanLiteral (b :: input) =
      (scanLiteral input).map fun (literal, after) => (b :: literal, after) := by
  rw [scanLiteral.eq_def]
  dsimp only
  rw [if_neg plain.1, if_neg plain.2]

theorem scanLiteral_escaped (selector : UInt8) (input : List UInt8) :
    scanLiteral (byte '\\' :: selector :: input) =
      (scanLiteral input).map fun (literal, after) =>
        (byte '\\' :: selector :: literal, after) := by
  have noQuote : byte '\\' ≠ byte '"' := by decide
  rw [scanLiteral.eq_def]
  dsimp only
  rw [if_neg noQuote, if_pos rfl]

theorem scanLiteral_plain (copied input : List UInt8) (plain : ∀ b ∈ copied, Plain b) :
    scanLiteral (copied ++ input) =
      (scanLiteral input).map fun (literal, after) => (copied ++ literal, after) := by
  induction copied with
  | nil => simp
  | cons b rest ih =>
      rw [List.cons_append, scanLiteral_cons b _ (plain b (List.mem_cons_self ..)),
        ih fun other member => plain other (List.mem_cons_of_mem _ member)]
      cases scanLiteral input <;> rfl

theorem unescape_plain (copied literal : List UInt8) (plain : ∀ b ∈ copied, Plain b) :
    unescape 0 (copied ++ literal) = (unescape 0 literal).map (copied ++ ·) := by
  induction copied with
  | nil => simp
  | cons b rest ih =>
      obtain ⟨_, noBackslash⟩ := plain b (List.mem_cons_self ..)
      rw [List.cons_append, unescape, if_pos noBackslash,
        ih fun other member => plain other (List.mem_cons_of_mem _ member)]
      cases unescape 0 literal <;> rfl

/-- One printed unit: the scan passes over it and the second loop turns it into
the bytes of the unit. -/
structure UnitRead (unit : UInt16) (printed : List UInt8) : Prop where
  scanned : ∀ input, scanLiteral (printed ++ input) =
    (scanLiteral input).map fun (literal, after) => (printed ++ literal, after)
  unescaped : ∀ literal, unescape 0 (printed ++ literal) =
    (unescape 0 literal).map (decodeUnit unit ++ ·)

theorem unitRead_plain (unit : UInt16) (nonzero : unit ≠ 0)
    (plain : ∀ b ∈ encodeUnit unit, Plain b) : UnitRead unit (encodeUnit unit) where
  scanned := fun input => scanLiteral_plain _ input plain
  unescaped := fun literal => by
    rw [unescape_plain _ literal plain, decodeUnit, if_neg nonzero]

theorem unitRead_high (unit : UInt16) (high : 0x80 ≤ unit.toNat) :
    UnitRead unit (encodeUnit unit) := by
  apply unitRead_plain
  · rintro rfl
    simp at high
  · intro b member
    have above := encodeUnit_high unit high b member
    constructor
    · rintro rfl
      revert above
      decide
    · rintro rfl
      revert above
      decide

/-- A backslash and one selector byte. -/
theorem unitRead_short (unit : UInt16) (selector : UInt8)
    (selects : ∀ rest, escapeSequence (byte '\\' :: selector :: rest) =
      some (2, decodeUnit unit)) : UnitRead unit [byte '\\', selector] where
  scanned := fun input => scanLiteral_escaped selector input
  unescaped := fun literal => by
    simp only [List.cons_append, List.nil_append]
    rw [unescape.eq_3, if_neg (by simp), selects literal]
    rfl

/-- The byte of a printed hexadecimal digit. -/
def hexByte (digit : Nat) : UInt8 := .ofNat (hexUnit digit).toNat

theorem hexByte_spec : ∀ digit < 16, encodeUnit (hexUnit digit) = [hexByte digit] ∧
    hexDigit (hexByte digit) = some digit ∧ hexByte digit ≠ byte '"' ∧
      hexByte digit ≠ byte '\\' := by
  decide

theorem decodeUnit_ascii (unit : UInt16) (ascii : unit.toNat < 0x80) :
    decodeUnit unit = [.ofNat unit.toNat] := by
  unfold decodeUnit
  split
  · rename_i zero
    rw [zero]
    rfl
  · rename_i nonzero
    exact encodeUnit_ascii unit nonzero ascii

/-- The escape of a control character without a short form. -/
theorem unitRead_control (unit : UInt16) (control : unit.toNat ≤ 0x1F) :
    UnitRead unit [byte '\\', byte 'u', byte '0', byte '0', hexByte (unit.toNat / 16),
      hexByte (unit.toNat % 16)] := by
  obtain ⟨_, high, highPlain⟩ := hexByte_spec (unit.toNat / 16) (by omega)
  obtain ⟨_, low, lowPlain⟩ := hexByte_spec (unit.toNat % 16) (by omega)
  have zero : hexDigit (byte '0') = some 0 := by decide
  have zeroPlain : Plain (byte '0') := by unfold Plain; decide
  constructor
  · intro input
    have digits := scanLiteral_plain
      [byte '0', byte '0', hexByte (unit.toNat / 16), hexByte (unit.toNat % 16)] input
      (by
        simp only [List.mem_cons, List.not_mem_nil, or_false]
        rintro b (rfl | rfl | rfl | rfl)
        · exact zeroPlain
        · exact zeroPlain
        · exact highPlain
        · exact lowPlain)
    simp only [List.cons_append, List.nil_append] at digits ⊢
    rw [scanLiteral_escaped, digits, Option.map_map]
    rfl
  · intro literal
    have hex : parseHex4 (byte '0' :: byte '0' :: hexByte (unit.toNat / 16) ::
        hexByte (unit.toNat % 16) :: literal) = unit.toNat := by
      simp only [parseHex4, List.take_succ_cons, List.take_zero, List.mapM_cons, List.mapM_nil,
        zero, high, low, Option.pure_def, Option.bind_eq_bind, Option.bind_some,
        List.foldl_cons, List.foldl_nil]
      omega
    have converted : escapeSequence (byte '\\' :: byte 'u' :: byte '0' :: byte '0' ::
        hexByte (unit.toNat / 16) :: hexByte (unit.toNat % 16) :: literal) =
          some (6, decodeUnit unit) := by
      have selected : ∀ rest, escapeSequence (byte '\\' :: byte 'u' :: rest) =
          utf16LiteralToUtf8 (byte '\\' :: byte 'u' :: rest) := fun _ => rfl
      rw [selected, utf16LiteralToUtf8]
      simp only [List.drop_succ_cons, List.drop_zero, hex, List.length_cons]
      rw [if_neg (by omega), if_neg (by omega), if_neg (by omega), codepointToUtf8,
        if_pos (by omega), decodeUnit_ascii unit (by omega)]
      rfl
    simp only [List.cons_append, List.nil_append]
    rw [unescape.eq_3, if_neg (by simp), converted]
    rfl

/-- The characters with a one-letter escape. -/
def shortEscapes : JavaText :=
  [asciiUnit '"', asciiUnit '\\', asciiUnit '/', 9, 8, 10, 13, 12]

theorem unitRead_shortEscape (unit : UInt16) (short : unit ∈ shortEscapes) :
    UnitRead unit (encode (JSONStringer.escapeUnit unit)) := by
  simp only [shortEscapes, List.mem_cons, List.not_mem_nil, or_false] at short
  rcases short with rfl | rfl | rfl | rfl | rfl | rfl | rfl | rfl
  all_goals exact unitRead_short _ _ fun _ => rfl

theorem escapeUnit_of_notMem (unit : UInt16) (long : unit ∉ shortEscapes) :
    JSONStringer.escapeUnit unit =
      if unit.toNat ≤ 0x1F then
        [asciiUnit '\\', asciiUnit 'u', asciiUnit '0', asciiUnit '0',
          hexUnit (unit.toNat / 16), hexUnit (unit.toNat % 16)]
      else [unit] := by
  simp only [shortEscapes, List.mem_cons, List.not_mem_nil, or_false, not_or] at long
  obtain ⟨notQuote, notBackslash, notSlash, notTab, notB, notN, notR, notF⟩ := long
  rw [JSONStringer.escapeUnit, if_neg (by simp [notQuote, notBackslash, notSlash]), if_neg notTab,
    if_neg notB, if_neg notN, if_neg notR, if_neg notF]

/-- A character that is printed as it is. -/
theorem unitRead_printable (unit : UInt16) (long : unit ∉ shortEscapes)
    (printable : ¬unit.toNat ≤ 0x1F) : UnitRead unit (encodeUnit unit) := by
  have nonzero : unit ≠ 0 := by
    rintro rfl
    exact printable (by decide)
  by_cases high : 0x80 ≤ unit.toNat
  · exact unitRead_high unit high
  · apply unitRead_plain unit nonzero
    intro b member
    rw [encodeUnit_ascii unit nonzero (by omega), List.mem_singleton] at member
    have same : unit = .ofNat b.toNat := by
      rw [member, toNat_ofNat_byte _ (by omega), UInt16.ofNat_toNat]
    refine ⟨fun quote => long ?_, fun backslash => long ?_⟩
    · rw [same, quote]
      decide
    · rw [same, backslash]
      decide

theorem unitRead_escapeUnit (unit : UInt16) :
    UnitRead unit (encode (JSONStringer.escapeUnit unit)) := by
  by_cases short : unit ∈ shortEscapes
  · exact unitRead_shortEscape unit short
  rw [escapeUnit_of_notMem unit short]
  split
  · rename_i control
    have high := (hexByte_spec (unit.toNat / 16) (by omega)).1
    have low := (hexByte_spec (unit.toNat % 16) (by omega)).1
    simp only [encode_cons, encode_nil, high, low]
    exact unitRead_control unit control
  · rename_i printable
    rw [encode_cons, encode_nil, List.append_nil]
    exact unitRead_printable unit short printable

/-- A printed string is read back, whatever follows it. -/
theorem parseString_string (text : JavaText) (after : List UInt8) :
    parseString (encode (JSONStringer.string text) ++ after) = some (decode text, after) := by
  have body : ∀ text : JavaText,
      scanLiteral (encode (text.flatMap JSONStringer.escapeUnit) ++ byte '"' :: after) =
          some (encode (text.flatMap JSONStringer.escapeUnit), after) ∧
        unescape 0 (encode (text.flatMap JSONStringer.escapeUnit)) = some (decode text) := by
    intro text
    induction text with
    | nil => exact ⟨scanLiteral_quote after, rfl⟩
    | cons unit rest ih =>
        have read := unitRead_escapeUnit unit
        rw [List.flatMap_cons, encode_append, List.append_assoc, read.scanned, ih.1,
          read.unescaped, ih.2]
        exact ⟨rfl, rfl⟩
  have framed : encode (JSONStringer.string text) ++ after = byte '"' ::
      (encode (text.flatMap JSONStringer.escapeUnit) ++ byte '"' :: after) := by
    unfold JSONStringer.string
    rw [encode_append, encode_append, List.append_assoc, List.append_assoc]
    rfl
  rw [framed, parseString]
  simp [(body text).1, (body text).2]

/-! ## Values -/

section Reading

variable (strtod : Strtod)

/-- With `need` units of fuel or more, at this depth, the reader takes the text
for the item and stops right behind it. -/
structure Reads (need depth : Nat) (text : JavaText) (item : CJson) : Prop where
  solid : ∃ b rest, encode text = b :: rest ∧ ¬b ≤ 32 ∧ b ≠ byte ']'
  parsed : ∀ fuel, need ≤ fuel → ∀ after,
    parseValue strtod fuel depth (encode text ++ after) = some (item, after)

theorem not_bytes_prefix (word : String) (b : UInt8) (rest : List UInt8)
    (different : (bytes word).head? ≠ some b) (nonempty : bytes word ≠ []) :
    ¬bytes word <+: b :: rest := by
  intro starts
  cases letters : bytes word with
  | nil => exact nonempty letters
  | cons first others =>
      rw [letters] at starts different
      exact different (congrArg some (List.cons_prefix_cons.mp starts).1)

/-- No literal word starts with this byte, so the byte decides. -/
theorem parseValue_cons (fuel depth : Nat) (b : UInt8) (rest : List UInt8)
    (noWord : b ≠ byte 'n' ∧ b ≠ byte 'f' ∧ b ≠ byte 't') :
    parseValue strtod (fuel + 1) depth (b :: rest) =
      if b = byte '"' then
        (parseString (b :: rest)).map fun (valuestring, after) => (.string valuestring, after)
      else if b = byte '-' ∨ byte '0' ≤ b ∧ b ≤ byte '9' then parseNumber strtod (b :: rest)
      else if b = byte '[' then parseArray strtod fuel depth (b :: rest)
      else if b = byte '\x7b' then parseObject strtod fuel depth (b :: rest)
      else none := by
  have noNull : ¬bytes "null" <+: b :: rest :=
    not_bytes_prefix "null" b rest (fun same => noWord.1 (Option.some.inj same).symm) (by decide)
  have noFalse : ¬bytes "false" <+: b :: rest :=
    not_bytes_prefix "false" b rest (fun same => noWord.2.1 (Option.some.inj same).symm) (by decide)
  have noTrue : ¬bytes "true" <+: b :: rest :=
    not_bytes_prefix "true" b rest (fun same => noWord.2.2 (Option.some.inj same).symm) (by decide)
  rw [parseValue, if_neg noNull, if_neg noFalse, if_neg noTrue]
  rfl

theorem encode_string_cons (text : JavaText) : ∃ rest, encode (JSONStringer.string text) =
    byte '"' :: rest :=
  ⟨_, rfl⟩

theorem reads_string (depth : Nat) (text : JavaText) :
    Reads strtod 1 depth (JSONStringer.string text) (.string (decode text)) := by
  obtain ⟨rest, quoted⟩ := encode_string_cons text
  refine ⟨⟨_, rest, quoted, by decide, by decide⟩, fun fuel enough after => ?_⟩
  obtain ⟨fuel, rfl⟩ := Nat.exists_eq_add_of_le' enough
  have read := parseString_string text after
  rw [quoted, List.cons_append] at read ⊢
  rw [parseValue_cons strtod _ _ _ _ (by decide), if_pos rfl, read]
  rfl

theorem reads_boolean (depth : Nat) (value : Bool) :
    Reads strtod 1 depth (JSONStringer.boolean value) (.bool value) := by
  cases value with
  | true =>
      have printed : encode (JSONStringer.boolean true) = bytes "true" := by decide
      refine ⟨⟨_, _, printed, by decide, by decide⟩, fun fuel enough after => ?_⟩
      obtain ⟨fuel, rfl⟩ := Nat.exists_eq_add_of_le' enough
      have noNull : ¬bytes "null" <+: bytes "true" ++ after :=
        not_bytes_prefix "null" _ _ (by decide) (by decide)
      have noFalse : ¬bytes "false" <+: bytes "true" ++ after :=
        not_bytes_prefix "false" _ _ (by decide) (by decide)
      rw [printed, parseValue, if_neg noNull, if_neg noFalse, if_pos (List.prefix_append _ _)]
      rfl
  | false =>
      have printed : encode (JSONStringer.boolean false) = bytes "false" := by decide
      refine ⟨⟨_, _, printed, by decide, by decide⟩, fun fuel enough after => ?_⟩
      obtain ⟨fuel, rfl⟩ := Nat.exists_eq_add_of_le' enough
      have noNull : ¬bytes "null" <+: bytes "false" ++ after :=
        not_bytes_prefix "null" _ _ (by decide) (by decide)
      rw [printed, parseValue, if_neg noNull, if_pos (List.prefix_append _ _)]
      rfl

/-! ### Arrays and objects

The separator is printed between the pieces and read after each of them, so the
lists are walked from the front.
-/

theorem encode_intercalate (pieces : List JavaText) :
    encode ([asciiUnit ','].intercalate pieces) = [byte ','].intercalate (pieces.map encode) :=
  flatMap_intercalate [asciiUnit ','] encodeUnit pieces

theorem encode_intercalate_cons (piece second : JavaText) (rest : List JavaText)
    (after : List UInt8) :
    encode ([asciiUnit ','].intercalate (piece :: second :: rest)) ++ after =
      encode piece ++ byte ',' ::
        (encode ([asciiUnit ','].intercalate (second :: rest)) ++ after) := by
  rw [encode_intercalate, encode_intercalate, List.map_cons, List.map_cons,
    intercalate_cons_append]

theorem bufferSkipWhitespace_reads {need depth : Nat} {text : JavaText} {item : CJson}
    (reads : Reads strtod need depth text item) (after : List UInt8) :
    bufferSkipWhitespace (encode text ++ after) = encode text ++ after := by
  obtain ⟨b, rest, starts, solid, _⟩ := reads.solid
  rw [starts]
  exact bufferSkipWhitespace_cons b _ solid

theorem parseElements_intercalate (need depth : Nat) (values : List (JavaText × CJson))
    (nonempty : values ≠ []) (reads : ∀ value ∈ values, Reads strtod need depth value.1 value.2)
    (fuel : Nat) (enough : need + values.length ≤ fuel) (after : List UInt8) :
    parseElements strtod fuel depth
        (encode ([asciiUnit ','].intercalate (values.map Prod.fst)) ++ byte ']' :: after) =
      some (values.map Prod.snd, after) := by
  induction values generalizing fuel with
  | nil => exact absurd rfl nonempty
  | cons value rest ih =>
      have head := reads value (List.mem_cons_self ..)
      rw [List.length_cons] at enough
      cases fuel with
      | zero => omega
      | succ fuel =>
          cases rest with
          | nil =>
              have noComma : byte ']' ≠ byte ',' := by decide
              rw [List.map_cons, List.map_nil, List.intercalate_singleton, parseElements,
                bufferSkipWhitespace_reads strtod head, head.parsed fuel (by omega)]
              dsimp only
              rw [bufferSkipWhitespace_cons _ _ (by decide)]
              simp [noComma]
          | cons second later =>
              have tail := ih (List.cons_ne_nil _ _)
                (fun other member => reads other (List.mem_cons_of_mem _ member)) fuel (by omega)
              rw [List.map_cons, List.map_cons, encode_intercalate_cons, ← List.map_cons,
                parseElements, bufferSkipWhitespace_reads strtod head, head.parsed fuel (by omega)]
              dsimp only
              rw [bufferSkipWhitespace_cons _ _ (by decide), List.head?_cons, if_pos rfl,
                List.tail_cons, tail]
              rfl

theorem encode_intercalate_starts (piece : JavaText) (rest : List JavaText) :
    ∃ tail, encode ([asciiUnit ','].intercalate (piece :: rest)) = encode piece ++ tail := by
  rw [encode_intercalate]
  exact intercalate_starts [byte ','] (encode piece) (rest.map encode)

theorem reads_array (need depth : Nat) (values : List (JavaText × CJson))
    (shallow : depth < nestingLimit)
    (reads : ∀ value ∈ values, Reads strtod need (depth + 1) value.1 value.2) :
    Reads strtod (need + values.length + 2) depth (JSONStringer.array (values.map Prod.fst))
      (.array (values.map Prod.snd)) := by
  have printed : ∀ after, encode (JSONStringer.array (values.map Prod.fst)) ++ after =
      byte '[' :: (encode ([asciiUnit ','].intercalate (values.map Prod.fst)) ++
        byte ']' :: after) := by
    intro after
    unfold JSONStringer.array
    rw [encode_append, encode_append, List.append_assoc, List.append_assoc]
    rfl
  refine ⟨⟨_, _, (List.append_nil _).symm.trans (printed []), by decide, by decide⟩, ?_⟩
  intro fuel enough after
  obtain ⟨fuel, rfl⟩ := Nat.exists_eq_add_of_le' (Nat.le_of_add_left_le enough)
  rw [printed, parseValue_cons strtod _ _ _ _ (by decide), if_neg (by decide), if_neg (by decide),
    if_pos rfl, parseArray, if_neg (by omega)]
  cases values with
  | nil =>
      rw [List.tail_cons, List.map_nil, List.intercalate_nil, encode_nil, List.nil_append,
        bufferSkipWhitespace_cons _ _ (by decide)]
      rfl
  | cons value rest =>
      have elements := parseElements_intercalate strtod need (depth + 1) (value :: rest)
        (List.cons_ne_nil _ _) reads fuel (by omega) after
      obtain ⟨b, others, starts, solid, unclosed⟩ := (reads value (List.mem_cons_self ..)).solid
      obtain ⟨tail, joined⟩ := encode_intercalate_starts value.1 (rest.map Prod.fst)
      rw [List.map_cons, joined, starts, List.cons_append, List.cons_append] at elements ⊢
      rw [List.tail_cons, bufferSkipWhitespace_cons _ _ solid]
      dsimp only [List.head?_cons]
      rw [if_neg unclosed, elements]
      rfl

/-- A printed member and what is read for it. -/
structure Member where
  key : String
  text : JavaText
  item : CJson

def Member.printed (entry : Member) : JavaText := JSONStringer.member entry.key entry.text

def Member.read (entry : Member) : List UInt8 × CJson := (decode (ofString entry.key), entry.item)

/-- One iteration of the loop of `parse_object`. -/
theorem parseMembers_member (need depth fuel : Nat) (entry : Member)
    (reads : Reads strtod need depth entry.text entry.item) (enough : need ≤ fuel)
    (separator : UInt8) (after : List UInt8) (solid : ¬separator ≤ 32) :
    parseMembers strtod (fuel + 1) depth (encode entry.printed ++ separator :: after) =
      if separator = byte ',' then
        (parseMembers strtod fuel depth after).map fun (members, after) =>
          (entry.read :: members, after)
      else if separator = byte '\x7d' then some ([entry.read], after)
      else none := by
  obtain ⟨quoted, quote⟩ := encode_string_cons (ofString entry.key)
  have split : encode entry.printed ++ separator :: after =
      encode (JSONStringer.string (ofString entry.key)) ++
        byte ':' :: (encode entry.text ++ separator :: after) := by
    unfold Member.printed JSONStringer.member
    rw [encode_append, encode_append, List.append_assoc, List.append_assoc]
    rfl
  have skip : bufferSkipWhitespace (encode entry.printed ++ separator :: after) =
      encode entry.printed ++ separator :: after := by
    rw [split, quote]
    exact bufferSkipWhitespace_cons _ _ (by decide)
  rw [parseMembers, skip, split, parseString_string]
  dsimp only
  rw [bufferSkipWhitespace_cons _ _ (by decide), List.head?_cons, if_neg (not_not_intro rfl),
    List.tail_cons, bufferSkipWhitespace_reads strtod reads, reads.parsed fuel enough]
  dsimp only
  rw [bufferSkipWhitespace_cons _ _ solid, List.head?_cons, List.tail_cons]
  simp only [Option.some.injEq]
  rfl

theorem parseMembers_intercalate (need depth : Nat) (members : List Member)
    (nonempty : members ≠ [])
    (reads : ∀ entry ∈ members, Reads strtod need depth entry.text entry.item)
    (fuel : Nat) (enough : need + members.length ≤ fuel) (after : List UInt8) :
    parseMembers strtod fuel depth
        (encode ([asciiUnit ','].intercalate (members.map Member.printed)) ++
          byte '\x7d' :: after) =
      some (members.map Member.read, after) := by
  induction members generalizing fuel with
  | nil => exact absurd rfl nonempty
  | cons entry rest ih =>
      have head := reads entry (List.mem_cons_self ..)
      rw [List.length_cons] at enough
      cases fuel with
      | zero => omega
      | succ fuel =>
          cases rest with
          | nil =>
              rw [List.map_cons, List.map_nil, List.intercalate_singleton,
                parseMembers_member strtod need depth fuel entry head (by omega) _ _ (by decide),
                if_neg (by decide), if_pos rfl]
              rfl
          | cons second later =>
              have tail := ih (List.cons_ne_nil _ _)
                (fun other member => reads other (List.mem_cons_of_mem _ member)) fuel (by omega)
              rw [List.map_cons, List.map_cons, encode_intercalate_cons, ← List.map_cons,
                parseMembers_member strtod need depth fuel entry head (by omega) _ _ (by decide),
                if_pos rfl, tail]
              rfl

theorem reads_object (need depth : Nat) (entry : Member) (rest : List Member)
    (shallow : depth < nestingLimit)
    (reads : ∀ other ∈ entry :: rest, Reads strtod need (depth + 1) other.text other.item) :
    Reads strtod (need + rest.length + 3) depth
      (JSONStringer.object ((entry :: rest).map Member.printed))
      (.object ((entry :: rest).map Member.read)) := by
  have printed : ∀ after, encode (JSONStringer.object ((entry :: rest).map Member.printed)) ++
      after = byte '\x7b' :: (encode ([asciiUnit ','].intercalate
        ((entry :: rest).map Member.printed)) ++ byte '\x7d' :: after) := by
    intro after
    unfold JSONStringer.object
    rw [encode_append, encode_append, List.append_assoc, List.append_assoc]
    rfl
  refine ⟨⟨_, _, (List.append_nil _).symm.trans (printed []), by decide, by decide⟩, ?_⟩
  intro fuel enough after
  obtain ⟨fuel, rfl⟩ := Nat.exists_eq_add_of_le' (show 2 ≤ fuel by omega)
  have members := parseMembers_intercalate strtod need (depth + 1) (entry :: rest)
    (List.cons_ne_nil _ _) reads fuel (by rw [List.length_cons]; omega) after
  obtain ⟨quoted, quote⟩ := encode_string_cons (ofString entry.key)
  obtain ⟨tail, joined⟩ := encode_intercalate_starts entry.printed (rest.map Member.printed)
  have starts : encode entry.printed = byte '"' ::
      (quoted ++ encode ([asciiUnit ':'] ++ entry.text)) := by
    unfold Member.printed JSONStringer.member
    rw [List.append_assoc, encode_append, quote, List.cons_append]
  rw [printed, parseValue_cons strtod _ _ _ _ (by decide), if_neg (by decide), if_neg (by decide),
    if_neg (by decide), if_pos rfl, parseObject, if_neg (by omega)]
  rw [List.map_cons, joined, starts, List.cons_append, List.cons_append] at members ⊢
  rw [List.tail_cons, bufferSkipWhitespace_cons _ _ (by decide)]
  dsimp only [List.head?_cons]
  rw [if_neg (by decide), members]
  rfl

end Reading

theorem Reads.mono {strtod : Strtod} {need more depth : Nat} {text : JavaText} {item : CJson}
    (reads : Reads strtod need depth text item) (le : need ≤ more) :
    Reads strtod more depth text item :=
  ⟨reads.solid, fun fuel enough => reads.parsed fuel (le.trans enough)⟩

end CJson

end RaptorMark.Native
