import Mathlib.Data.List.Basic
import Mathlib.Data.Rat.Defs

/-!
# The JSON reader of the native library

`cJSON_Parse` of `cJSON.c` with the functions under it, and the item queries
that the app uses.  A parse buffer is the list of the bytes from its offset to
its end, the terminating NUL included.  Allocation does not fail.  `strtod` is
the C library's; it gives the number it reads and how many bytes it took.

The loops over elements and members and the recursion through nested values
share one fuel counter, three units for a byte.
-/

set_option autoImplicit false

namespace RaptorMark.Native

inductive CJson where
  | null
  | bool (value : Bool)
  | number (valuedouble : ℚ)
  | string (valuestring : List UInt8)
  | array (child : List CJson)
  | object (child : List (List UInt8 × CJson))

namespace CJson

/-- The byte of an ASCII character. -/
def byte (c : Char) : UInt8 := .ofNat c.toNat

def nestingLimit : Nat := 1000

abbrev Strtod := List UInt8 → Option (ℚ × Nat)

/-- `buffer_skip_whitespace`.  At the end of the buffer it steps back to the
last byte. -/
def bufferSkipWhitespace (buffer : List UInt8) : List UInt8 :=
  match buffer.dropWhile (· ≤ 32) with
  | [] => buffer.getLast?.toList
  | rest => rest

def skipUtf8Bom (buffer : List UInt8) : List UInt8 :=
  if 4 < buffer.length ∧ [0xEF, 0xBB, 0xBF] <+: buffer then buffer.drop 3 else buffer

def isNumberByte (b : UInt8) : Bool :=
  (byte '0' ≤ b && b ≤ byte '9') || b = byte '+' || b = byte '-' || b = byte 'e' ||
    b = byte 'E' || b = byte '.'

def parseNumber (strtod : Strtod) (buffer : List UInt8) : Option (CJson × List UInt8) := do
  let (valuedouble, taken) ← strtod ((buffer.takeWhile isNumberByte).take 63)
  return (.number valuedouble, buffer.drop taken)

/-! ## Strings -/

def hexDigit (b : UInt8) : Option Nat :=
  if byte '0' ≤ b ∧ b ≤ byte '9' then some (b.toNat - 48)
  else if byte 'A' ≤ b ∧ b ≤ byte 'F' then some (10 + b.toNat - 65)
  else if byte 'a' ≤ b ∧ b ≤ byte 'f' then some (10 + b.toNat - 97)
  else none

/-- `parse_hex4`: an invalid digit makes the whole number zero. -/
def parseHex4 (input : List UInt8) : Nat :=
  match (input.take 4).mapM hexDigit with
  | some digits => digits.foldl (fun h digit => 16 * h + digit) 0
  | none => 0

/-- The second half of `utf16_literal_to_utf8`. -/
def codepointToUtf8 (codepoint : Nat) : Option (List UInt8) :=
  if codepoint < 0x80 then
    some [.ofNat codepoint]
  else if codepoint < 0x800 then
    some [.ofNat (0xC0 + codepoint / 0x40), .ofNat (0x80 + codepoint % 0x40)]
  else if codepoint < 0x10000 then
    some [.ofNat (0xE0 + codepoint / 0x1000), .ofNat (0x80 + codepoint / 0x40 % 0x40),
      .ofNat (0x80 + codepoint % 0x40)]
  else if codepoint ≤ 0x10FFFF then
    some [.ofNat (0xF0 + codepoint / 0x40000), .ofNat (0x80 + codepoint / 0x1000 % 0x40),
      .ofNat (0x80 + codepoint / 0x40 % 0x40), .ofNat (0x80 + codepoint % 0x40)]
  else
    none

/-- `utf16_literal_to_utf8`: how many bytes of input it uses, and its output. -/
def utf16LiteralToUtf8 (input : List UInt8) : Option (Nat × List UInt8) :=
  let firstCode := parseHex4 (input.drop 2)
  let secondSequence := input.drop 6
  let secondCode := parseHex4 (secondSequence.drop 2)
  if input.length < 6 then none
  else if 0xDC00 ≤ firstCode ∧ firstCode ≤ 0xDFFF then none
  else if 0xD800 ≤ firstCode ∧ firstCode ≤ 0xDBFF then
    if secondSequence.length < 6 then none
    else if ¬[byte '\\', byte 'u'] <+: secondSequence then none
    else if secondCode < 0xDC00 ∨ 0xDFFF < secondCode then none
    else
      (codepointToUtf8 (0x10000 + firstCode % 0x400 * 0x400 + secondCode % 0x400)).map (12, ·)
  else (codepointToUtf8 firstCode).map (6, ·)

/-- The `switch` of `parse_string` on the byte after a backslash.  After a
backslash at the end of the literal that byte is the closing quote. -/
def escapeSequence (input : List UInt8) : Option (Nat × List UInt8) :=
  let selector := (input.tail.head?).getD (byte '"')
  if selector = byte 'b' then some (2, [8])
  else if selector = byte 'f' then some (2, [12])
  else if selector = byte 'n' then some (2, [10])
  else if selector = byte 'r' then some (2, [13])
  else if selector = byte 't' then some (2, [9])
  else if selector = byte '"' ∨ selector = byte '\\' ∨ selector = byte '/' then
    some (2, [selector])
  else if selector = byte 'u' then utf16LiteralToUtf8 input
  else none

/-- The first loop of `parse_string`: the literal up to the closing quote, and
what follows the quote. -/
def scanLiteral : List UInt8 → Option (List UInt8 × List UInt8)
  | [] => none
  | b :: rest =>
      if b = byte '"' then some ([], rest)
      else if b = byte '\\' then
        match rest with
        | [] => none
        | escaped :: rest =>
            (scanLiteral rest).map fun (literal, after) => (b :: escaped :: literal, after)
      else (scanLiteral rest).map fun (literal, after) => (b :: literal, after)

/-- The second loop of `parse_string`; `skipped` bytes of the current escape
sequence are still to be passed over. -/
def unescape : Nat → List UInt8 → Option (List UInt8)
  | _, [] => some []
  | skipped + 1, _ :: rest => unescape skipped rest
  | 0, b :: rest =>
      if b ≠ byte '\\' then (unescape 0 rest).map (b :: ·)
      else
        match escapeSequence (b :: rest) with
        | some (sequenceLength, output) => (unescape (sequenceLength - 1) rest).map (output ++ ·)
        | none => none

def parseString (buffer : List UInt8) : Option (List UInt8 × List UInt8) := do
  if buffer.head? ≠ some (byte '"') then none
  let (literal, after) ← scanLiteral buffer.tail
  let output ← unescape 0 literal
  return (output, after)

/-! ## Values -/

/-- The bytes of an ASCII text. -/
def bytes (text : String) : List UInt8 := text.toList.map byte

mutual

def parseValue (strtod : Strtod) : Nat → Nat → List UInt8 → Option (CJson × List UInt8)
  | 0, _, _ => none
  | fuel + 1, depth, buffer =>
      if bytes "null" <+: buffer then some (.null, buffer.drop 4)
      else if bytes "false" <+: buffer then some (.bool false, buffer.drop 5)
      else if bytes "true" <+: buffer then some (.bool true, buffer.drop 4)
      else
        match buffer.head? with
        | none => none
        | some b =>
            if b = byte '"' then
              (parseString buffer).map fun (valuestring, after) => (.string valuestring, after)
            else if b = byte '-' ∨ byte '0' ≤ b ∧ b ≤ byte '9' then parseNumber strtod buffer
            else if b = byte '[' then parseArray strtod fuel depth buffer
            else if b = byte '\x7b' then parseObject strtod fuel depth buffer
            else none

def parseArray (strtod : Strtod) : Nat → Nat → List UInt8 → Option (CJson × List UInt8)
  | 0, _, _ => none
  | fuel + 1, depth, buffer =>
      if nestingLimit ≤ depth then none
      else
        let first := bufferSkipWhitespace buffer.tail
        match first.head? with
        | none => none
        | some b =>
            if b = byte ']' then some (.array [], first.tail)
            else (parseElements strtod fuel (depth + 1) first).map fun (child, after) =>
              (.array child, after)

/-- The `do` loop of `parse_array`, from the byte after the bracket or comma. -/
def parseElements (strtod : Strtod) : Nat → Nat → List UInt8 → Option (List CJson × List UInt8)
  | 0, _, _ => none
  | fuel + 1, depth, buffer =>
      match parseValue strtod fuel depth (bufferSkipWhitespace buffer) with
      | none => none
      | some (value, after) =>
          let next := bufferSkipWhitespace after
          if next.head? = some (byte ',') then
            (parseElements strtod fuel depth next.tail).map fun (values, after) =>
              (value :: values, after)
          else if next.head? = some (byte ']') then some ([value], next.tail)
          else none

def parseObject (strtod : Strtod) : Nat → Nat → List UInt8 → Option (CJson × List UInt8)
  | 0, _, _ => none
  | fuel + 1, depth, buffer =>
      if nestingLimit ≤ depth then none
      else
        let first := bufferSkipWhitespace buffer.tail
        match first.head? with
        | none => none
        | some b =>
            if b = byte '\x7d' then some (.object [], first.tail)
            else (parseMembers strtod fuel (depth + 1) first).map fun (child, after) =>
              (.object child, after)

/-- The `do` loop of `parse_object`, from the byte after the brace or comma. -/
def parseMembers (strtod : Strtod) :
    Nat → Nat → List UInt8 → Option (List (List UInt8 × CJson) × List UInt8)
  | 0, _, _ => none
  | fuel + 1, depth, buffer =>
      match parseString (bufferSkipWhitespace buffer) with
      | none => none
      | some (name, afterName) =>
          let colon := bufferSkipWhitespace afterName
          if colon.head? ≠ some (byte ':') then none
          else
            match parseValue strtod fuel depth (bufferSkipWhitespace colon.tail) with
            | none => none
            | some (value, after) =>
                let next := bufferSkipWhitespace after
                if next.head? = some (byte ',') then
                  (parseMembers strtod fuel depth next.tail).map fun (members, after) =>
                    ((name, value) :: members, after)
                else if next.head? = some (byte '\x7d') then some ([(name, value)], next.tail)
                else none

end

/-- A C string: the bytes before the first NUL. -/
def cText (memory : List UInt8) : List UInt8 := memory.takeWhile (· ≠ 0)

/-- `cJSON_Parse`. -/
def parse (strtod : Strtod) (value : List UInt8) : Option CJson :=
  let buffer := cText value ++ [0]
  let start := bufferSkipWhitespace (skipUtf8Bom buffer)
  (parseValue strtod (3 * buffer.length) 0 start).map Prod.fst

/-! ## Queries -/

def tolower (b : UInt8) : UInt8 := if byte 'A' ≤ b ∧ b ≤ byte 'Z' then b + 32 else b

/-- `cJSON_GetObjectItem`.  Array elements have no name and are never found. -/
def getObjectItem (object : Option CJson) (name : String) : Option CJson :=
  match object with
  | some (.object child) =>
      (child.find? fun item => (cText item.1).map tolower = (bytes name).map tolower).map Prod.snd
  | _ => none

/-- The list that starts at `item->child`. -/
def children : Option CJson → List CJson
  | some (.array child) => child
  | some (.object child) => child.map Prod.snd
  | _ => []

/-- `cJSON_IsBool(item) && (item->type & cJSON_True)`. -/
def isTrue : Option CJson → Bool
  | some (.bool value) => value
  | _ => false

def valuestring : Option CJson → Option (List UInt8)
  | some (.string valuestring) => some valuestring
  | _ => none

end CJson

end RaptorMark.Native
