import RaptorMark.Lib.CNumber

/-!
# fio's JSON trees

`json.c`: values, the functions that add them to objects and arrays, and the
printer.  Strings are escaped when they are added and kept that way; an empty
string cannot be added, and the names of pairs are never escaped.  Allocation
does not fail.

The pointers to the parents serve one purpose, the depth of a value, which the
printer is passed instead.  `printf` on a `double` is the C library's.
-/

set_option autoImplicit false

namespace RaptorMark.Fio.Json

open Lib Lib.CNumber

/-- `struct json_value`. -/
inductive Value (Double : Type) where
  | string (text : List UInt8)
  | integer (number : Int64)
  | float (number : Double)
  | object (pairs : List (List UInt8 × Value Double))
  | array (values : List (Value Double))

variable {Double : Type}

/-! ## Adding values -/

def escapeByte (c : UInt8) : List UInt8 :=
  if c = ascii '\\' ∨ c = ascii '"' then [ascii '\\', c] else [c]

def strdupEscape (str : List UInt8) : Option (List UInt8) :=
  if str = [] then none else some (str.flatMap escapeByte)

/-- The `switch` over the type of the argument. -/
def jsonCreateValue : Value Double → Option (Value Double)
  | .string text => (strdupEscape text).map .string
  | .integer number => some (.integer number)
  | .float number => some (.float number)
  | .object pairs => some (.object pairs)
  | .array values => some (.array values)

def enomem : Nat := 12

def jsonObjectAddValueType (pairs : List (List UInt8 × Value Double)) (name : List UInt8)
    (arg : Value Double) : List (List UInt8 × Value Double) × Nat :=
  match jsonCreateValue arg with
  | none => (pairs, enomem)
  | some value => (pairs ++ [(name, value)], 0)

def jsonArrayAddValueType (values : List (Value Double)) (arg : Value Double) :
    List (Value Double) × Nat :=
  match jsonCreateValue arg with
  | none => (values, enomem)
  | some value => (values ++ [value], 0)

/-! ## Printing -/

/-- The format `%lld`. -/
def printLld (number : Int64) : List UInt8 :=
  (if number.toInt < 0 then [ascii '-'] else []) ++
    (Nat.toDigits 10 number.toInt.natAbs).map ascii

def jsonPrintLevel (level : Nat) : List UInt8 := (List.replicate level (asciiText "  ")).flatten

/-- What `json_print_object` and `json_print_array` share: the pieces between
two brackets, each on lines of its own. -/
def printBlock (opening closing : Char) (level : Nat) (pieces : List (List UInt8)) : List UInt8 :=
  [ascii opening, ascii '\n'] ++ (asciiText ",\n").intercalate pieces ++ [ascii '\n'] ++
    jsonPrintLevel level ++ [ascii closing]

mutual

/-- `json_print_value`, for a value at this level. -/
def jsonPrintValue (printDouble : Double → List UInt8) (level : Nat) : Value Double → List UInt8
  | .string text => [ascii '"'] ++ text ++ [ascii '"']
  | .integer number => printLld number
  | .float number => printDouble number
  | .object pairs => printBlock '\x7b' '\x7d' level (jsonPrintPairs printDouble (level + 1) pairs)
  | .array values => printBlock '[' ']' level (jsonPrintElements printDouble (level + 1) values)

/-- `json_print_pair` for each pair of an object. -/
def jsonPrintPairs (printDouble : Double → List UInt8) (level : Nat) :
    List (List UInt8 × Value Double) → List (List UInt8)
  | [] => []
  | (name, value) :: rest =>
      (jsonPrintLevel level ++ ([ascii '"'] ++ name ++ asciiText "\" : ") ++
          jsonPrintValue printDouble level value) ::
        jsonPrintPairs printDouble level rest

/-- The elements that `json_print_array` prints. -/
def jsonPrintElements (printDouble : Double → List UInt8) (level : Nat) :
    List (Value Double) → List (List UInt8)
  | [] => []
  | value :: rest =>
      (jsonPrintLevel level ++ jsonPrintValue printDouble level value) ::
        jsonPrintElements printDouble level rest

end

/-- `json_print_object` on the root of a tree. -/
def jsonPrintObject (printDouble : Double → List UInt8)
    (pairs : List (List UInt8 × Value Double)) : List UInt8 :=
  jsonPrintValue printDouble 0 (.object pairs)

end RaptorMark.Fio.Json
