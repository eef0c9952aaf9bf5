import RaptorMark.Data.TestOptions
import RaptorMark.Lib.ModifiedUtf8

/-!
# The text of a command

`JSONObject.toString()` on the objects that `createOption` and
`testOptionsBuilder` build.  Android's `org.json` keeps the order of the puts,
prints without blanks, and escapes the quote, the backslash, the slash and the
characters up to U+001F.
-/

set_option autoImplicit false

namespace RaptorMark

open Lib Lib.ModifiedUtf8 BenchmarkTest

/-- The UTF-16 unit of an ASCII character. -/
def asciiUnit (c : Char) : UInt16 := .ofNat c.toNat

/-- One digit of the format `%04x`. -/
def hexUnit (digit : Nat) : UInt16 :=
  if digit < 10 then .ofNat ('0'.toNat + digit) else .ofNat ('a'.toNat + (digit - 10))

namespace JSONStringer

/-- The `switch` of `JSONStringer.string`. -/
def escapeUnit (unit : UInt16) : JavaText :=
  if unit = asciiUnit '"' ∨ unit = asciiUnit '\\' ∨ unit = asciiUnit '/' then
    [asciiUnit '\\', unit]
  else if unit = 9 then [asciiUnit '\\', asciiUnit 't']
  else if unit = 8 then [asciiUnit '\\', asciiUnit 'b']
  else if unit = 10 then [asciiUnit '\\', asciiUnit 'n']
  else if unit = 13 then [asciiUnit '\\', asciiUnit 'r']
  else if unit = 12 then [asciiUnit '\\', asciiUnit 'f']
  else if unit.toNat ≤ 0x1F then
    [asciiUnit '\\', asciiUnit 'u', asciiUnit '0', asciiUnit '0', hexUnit (unit.toNat / 16),
      hexUnit (unit.toNat % 16)]
  else [unit]

def string (value : JavaText) : JavaText :=
  [asciiUnit '"'] ++ value.flatMap escapeUnit ++ [asciiUnit '"']

def member (key : String) (value : JavaText) : JavaText :=
  string (ofString key) ++ [asciiUnit ':'] ++ value

def object (members : List JavaText) : JavaText :=
  [asciiUnit '\x7b'] ++ [asciiUnit ','].intercalate members ++ [asciiUnit '\x7d']

def array (values : List JavaText) : JavaText :=
  [asciiUnit '['] ++ [asciiUnit ','].intercalate values ++ [asciiUnit ']']

def boolean (value : Bool) : JavaText := ofString (if value then "true" else "false")

end JSONStringer

/-- An option whose texts are any Java strings. -/
structure TextOption where
  name : JavaText
  value : Option JavaText
  deriving DecidableEq, Repr

namespace TextOption

open JSONStringer

def ofJobOption (option : JobOption) : TextOption :=
  ⟨ofString option.name, option.value.map ofString⟩

/-- `createOption(name, value).toString()`. -/
def print (option : TextOption) : JavaText :=
  object (member "name" (string option.name) ::
    option.value.toList.map fun value => member "value" (string value))

/-- The text of a command as `testOptionsBuilder` builds it. -/
def printCommand (shortopts : Bool) (options : List TextOption) : JavaText :=
  object [member "shortopts" (boolean shortopts), member "options" (array (options.map print))]

end TextOption

end RaptorMark
