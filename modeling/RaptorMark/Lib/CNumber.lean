import Mathlib.Data.List.Infix

/-!
# C strings and the numbers in them

A C string is the list of its bytes before the terminating NUL.  The character
classes are those of the C locale.  The functions of the `strtol` family skip
blanks, take a sign, for base 16 a `0x` that a digit follows, and the longest
run of digits; where there is no digit nothing is converted.
-/

set_option autoImplicit false

namespace RaptorMark.Lib.CNumber

/-- The byte of an ASCII character. -/
def ascii (c : Char) : UInt8 := .ofNat c.toNat

/-- The bytes of an ASCII text. -/
def asciiText (text : String) : List UInt8 := text.toList.map ascii

def isdigit (b : UInt8) : Bool := ascii '0' ≤ b && b ≤ ascii '9'

def isupper (b : UInt8) : Bool := ascii 'A' ≤ b && b ≤ ascii 'Z'

def islower (b : UInt8) : Bool := ascii 'a' ≤ b && b ≤ ascii 'z'

def isalpha (b : UInt8) : Bool := isupper b || islower b

def isspace (b : UInt8) : Bool := b == ascii ' ' || (ascii '\t' ≤ b && b ≤ ascii '\r')

def iscntrl (b : UInt8) : Bool := b < ascii ' ' || b == 127

def tolower (b : UInt8) : UInt8 := if isupper b then b + 32 else b

/-- `strncmp(prefix, text, strlen(prefix)) == 0`. -/
def startsWith (start : String) (text : List UInt8) : Bool := (asciiText start).isPrefixOf text

/-- `strchr`: what stands before and after the first occurrence. -/
def strchr (b : UInt8) : List UInt8 → Option (List UInt8 × List UInt8)
  | [] => none
  | head :: rest =>
      if head = b then
        some ([], rest)
      else
        (strchr b rest).map fun (before, after) => (head :: before, after)

/-- `strstr(text, pattern) != NULL`. -/
def strstr (pattern : String) (text : List UInt8) : Bool :=
  decide (asciiText pattern <:+: text)

/-- The value of a digit in bases up to 36. -/
def digitValue (b : UInt8) : Option Nat :=
  if isdigit b then some (b.toNat - 48)
  else if isupper b then some (b.toNat - 55)
  else if islower b then some (b.toNat - 87)
  else none

def isDigitOf (base : Nat) (b : UInt8) : Bool := (digitValue b).any (· < base)

/-- A sign and a magnitude, and the text after them. -/
structure Scanned where
  negative : Bool
  magnitude : Nat
  rest : List UInt8
  deriving DecidableEq, Repr

/-- The optional `0x` of base 16. -/
def skipHexMark (base : Nat) (text : List UInt8) : List UInt8 :=
  match text with
  | first :: second :: third :: rest =>
      if base = 16 ∧ first = ascii '0' ∧ tolower second = ascii 'x' ∧ isDigitOf 16 third then
        third :: rest
      else
        text
  | _ => text

def scanInteger (base : Nat) (text : List UInt8) : Option Scanned :=
  let blankless := text.dropWhile isspace
  let negative := blankless.head? = some (ascii '-')
  let signless :=
    if negative ∨ blankless.head? = some (ascii '+') then blankless.tail else blankless
  let unmarked := skipHexMark base signless
  let digits := unmarked.takeWhile (isDigitOf base)
  if digits = [] then
    none
  else
    some {
      negative
      magnitude := digits.foldl (fun value b => base * value + (digitValue b).getD 0) 0
      rest := unmarked.drop digits.length }

/-- The result of a conversion, whether it set `errno` to `ERANGE`, and the text
at `endptr`. -/
structure Converted (α : Type) where
  value : α
  erange : Bool
  rest : List UInt8

def llongMax : Int := 9223372036854775807
def llongMin : Int := -9223372036854775808

/-- `strtoll`; none where nothing is converted, the value is zero and `endptr`
is the start of the text. -/
def strtoll (base : Nat) (text : List UInt8) : Option (Converted Int) :=
  (scanInteger base text).map fun scanned =>
    let exact : Int := if scanned.negative then -scanned.magnitude else scanned.magnitude
    if exact > llongMax then ⟨llongMax, true, scanned.rest⟩
    else if exact < llongMin then ⟨llongMin, true, scanned.rest⟩
    else ⟨exact, false, scanned.rest⟩

/-- `strtoul` with 64 bits: a sign negates the unsigned value. -/
def strtoul (base : Nat) (text : List UInt8) : Option (Converted UInt64) :=
  (scanInteger base text).map fun scanned =>
    if scanned.magnitude ≥ UInt64.size then ⟨-1, true, scanned.rest⟩
    else if scanned.negative then ⟨-.ofNat scanned.magnitude, false, scanned.rest⟩
    else ⟨.ofNat scanned.magnitude, false, scanned.rest⟩

end RaptorMark.Lib.CNumber
