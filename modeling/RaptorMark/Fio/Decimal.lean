import RaptorMark.Lib.CNumber

/-!
# fio's numbers

`str_to_decimal` of `parse.c` with the functions under it: a number as `strtoll`
reads it, times the unit that follows it.  The build does not define
`CONFIG_ARITHMETIC`.  A `long long` is kept as the 64 bits that the callers
read as unsigned.
-/

set_option autoImplicit false

namespace RaptorMark.Fio

open Lib.CNumber

def isSign (b : UInt8) : Bool := b == ascii '+' || b == ascii '-'

/-- `get_mult_time`, in microseconds. -/
def getMultTime (str : List UInt8) (isSeconds : Bool) : UInt64 :=
  match str.dropWhile fun b => isdigit b || isSign b with
  | first :: rest =>
      if isalpha first then
        let c := (first :: rest).map tolower
        if startsWith "us" c then 1
        else if startsWith "ms" c then 1000
        else if c = asciiText "s" then 1000000
        else if c = asciiText "m" then 60 * 1000000
        else if c = asciiText "h" then 60 * 60 * 1000000
        else if c = asciiText "d" then 24 * 60 * 60 * 1000000
        else 1
      else if isSeconds then 1000000
      else 1
  | [] => if isSeconds then 1000000 else 1

def isSeparator (b : UInt8) : Bool :=
  b == ascii ':' || b == ascii '-' || b == ascii ',' || b == ascii '/'

/-- What a unit of bytes does to the number before it. -/
inductive ByteUnit where
  | times (mult : UInt64)
  | percent
  deriving DecidableEq, Repr

/-- The other of the two bases, for the units with an `i`. -/
def oppositeBase (kbBase : UInt64) : UInt64 :=
  if kbBase = 1000 then 1024 else if kbBase = 1024 then 1000 else kbBase

/-- `while (pow--) ret *= mult`, with `ret` 1 at the start. -/
def multPower (mult : UInt64) : Nat → UInt64
  | 0 => 1
  | pow + 1 => multPower mult pow * mult

/-- `__get_mult_bytes` where `p` is not null. -/
def multBytes (kbBase : UInt64) (p : List UInt8) : ByteUnit :=
  let c := (p.map tolower).takeWhile fun b => !isSeparator b
  if startsWith "pib" c then .times (multPower (oppositeBase kbBase) 5)
  else if startsWith "tib" c then .times (multPower (oppositeBase kbBase) 4)
  else if startsWith "gib" c then .times (multPower (oppositeBase kbBase) 3)
  else if startsWith "mib" c then .times (multPower (oppositeBase kbBase) 2)
  else if startsWith "kib" c then .times (multPower (oppositeBase kbBase) 1)
  else if startsWith "p" c then .times (multPower kbBase 5)
  else if startsWith "t" c then .times (multPower kbBase 4)
  else if startsWith "g" c then .times (multPower kbBase 3)
  else if startsWith "m" c then .times (multPower kbBase 2)
  else if startsWith "k" c then .times (multPower kbBase 1)
  else if startsWith "%" c then .percent
  else .times 1

def getMultBytes (kbBase : UInt64) (str : List UInt8) : ByteUnit :=
  if str.length < 2 then
    multBytes kbBase str
  else
    match (str.dropWhile isSign).dropWhile isdigit with
    | first :: rest =>
        if isalpha first || first == ascii '%' then multBytes kbBase (first :: rest) else .times 1
    | [] => .times 1

/-- How the number of an option is read. -/
inductive Quantity where
  | bytes (kbBase : UInt64)
  | time (isSeconds : Bool)

/-- `str_to_decimal`; none where it returns 1.  `staleErange` says that `errno`
still is `ERANGE` from before, which the code does not rule out. -/
def strToDecimal (quantity : Quantity) (staleErange : Bool) (str : List UInt8) : Option UInt64 :=
  let base := if strstr "0x" str || strstr "0X" str then 16 else 10
  match strtoll base str with
  | none => none
  | some converted =>
      if converted.value = llongMax ∧ (converted.erange || staleErange) then
        none
      else
        let val := UInt64.ofInt converted.value
        match quantity with
        | .bytes kbBase =>
            match getMultBytes kbBase str with
            | .times mult => some (val * mult)
            | .percent => some (-1 - val)
        | .time isSeconds => some (val * getMultTime str isSeconds)

/-- The texts that `str_to_decimal` takes: a number in front, and one that
`long long` can hold. -/
def StartsWithNumber (staleErange : Bool) (str : List UInt8) : Prop :=
  ∃ converted, strtoll (if strstr "0x" str || strstr "0X" str then 16 else 10) str =
      some converted ∧
    ¬(converted.value = llongMax ∧ (converted.erange || staleErange) = true)

theorem strToDecimal_isSome_iff (quantity : Quantity) (staleErange : Bool) (str : List UInt8) :
    (strToDecimal quantity staleErange str).isSome ↔ StartsWithNumber staleErange str := by
  unfold strToDecimal StartsWithNumber
  dsimp only
  cases strtoll (if strstr "0x" str || strstr "0X" str then 16 else 10) str with
  | none => simp
  | some converted =>
      simp only [Option.some.injEq, exists_eq_left']
      split
      · rename_i tooLarge
        simp [tooLarge]
      · rename_i fits
        simp only [fits, not_false_eq_true, iff_true]
        split
        · split <;> rfl
        · rfl

example : strToDecimal (.bytes 1024) false (asciiText "4k") = some 4096 := by decide
example : strToDecimal (.bytes 1024) false (asciiText " 4k") = some 4 := by decide
example : strToDecimal (.time true) false (asciiText "2m") = some 120000000 := by decide

end RaptorMark.Fio
