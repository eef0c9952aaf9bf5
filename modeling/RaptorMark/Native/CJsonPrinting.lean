import RaptorMark.Native.CJson

/-!
# The JSON printer of the native library

`cJSON_PrintUnformatted` of `cJSON.c`: the bytes before the terminating NUL.
The print buffer grows as needed and allocation does not fail.  `sprintf` on a
number is the C library's.
-/

set_option autoImplicit false

namespace RaptorMark.Native.CJson

/-- One digit of the format `%04x`. -/
def hexDigitByte (digit : Nat) : UInt8 :=
  if digit < 10 then .ofNat ('0'.toNat + digit) else .ofNat ('a'.toNat + (digit - 10))

/-- The body of the second loop of `print_string_ptr`. -/
def escapeByte (b : UInt8) : List UInt8 :=
  if b > 31 ∧ b ≠ byte '"' ∧ b ≠ byte '\\' then [b]
  else if b = byte '\\' then [byte '\\', byte '\\']
  else if b = byte '"' then [byte '\\', byte '"']
  else if b = 8 then [byte '\\', byte 'b']
  else if b = 12 then [byte '\\', byte 'f']
  else if b = 10 then [byte '\\', byte 'n']
  else if b = 13 then [byte '\\', byte 'r']
  else if b = 9 then [byte '\\', byte 't']
  else
    [byte '\\', byte 'u', byte '0', byte '0', hexDigitByte (b.toNat / 16),
      hexDigitByte (b.toNat % 16)]

/-- `print_string_ptr`: a C string in quotes. -/
def printStringPtr (input : List UInt8) : List UInt8 :=
  [byte '"'] ++ (cText input).flatMap escapeByte ++ [byte '"']

mutual

def printValue (printNumber : ℚ → List UInt8) : CJson → List UInt8
  | .null => bytes "null"
  | .bool value => bytes (if value then "true" else "false")
  | .number valuedouble => printNumber valuedouble
  | .string valuestring => printStringPtr valuestring
  | .array child => [byte '['] ++ [byte ','].intercalate (printElements printNumber child) ++
      [byte ']']
  | .object child => [byte '\x7b'] ++ [byte ','].intercalate (printMembers printNumber child) ++
      [byte '\x7d']

/-- The elements of `print_array`. -/
def printElements (printNumber : ℚ → List UInt8) : List CJson → List (List UInt8)
  | [] => []
  | element :: rest => printValue printNumber element :: printElements printNumber rest

/-- The members of `print_object`. -/
def printMembers (printNumber : ℚ → List UInt8) : List (List UInt8 × CJson) → List (List UInt8)
  | [] => []
  | (name, value) :: rest =>
      (printStringPtr name ++ [byte ':'] ++ printValue printNumber value) ::
        printMembers printNumber rest

end

/-- `cJSON_PrintUnformatted`. -/
def printUnformatted (printNumber : ℚ → List UInt8) (item : CJson) : List UInt8 :=
  printValue printNumber item

theorem printElements_eq_map (printNumber : ℚ → List UInt8) (child : List CJson) :
    printElements printNumber child = child.map (printValue printNumber) := by
  induction child with
  | nil => rw [printElements, List.map_nil]
  | cons element rest ih => rw [printElements, ih, List.map_cons]

end RaptorMark.Native.CJson
