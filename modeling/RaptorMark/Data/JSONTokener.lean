import RaptorMark.Data.CommandText

/-!
# Reading JSON text

`JSONObject(String)` and the getters of Android's `org.json`.  The tokener is
lenient: blanks and comments anywhere, quotes of two kinds, `=` and `=>` for a
colon, `;` for a comma, empty array slots, unquoted words.  An exception is
`none`; what follows the value that was asked for is not read.

An unquoted word is a `Long`, or else a `Double` if the Java library takes it for
one, which is kept as its word.  The recursion through nested values and the loops over elements
and members share one fuel counter, three units for a character.
-/

set_option autoImplicit false

namespace RaptorMark

open Lib Lib.ModifiedUtf8 Lib.Kotlin

/-- What `nextValue` returns. -/
inductive ReadValue where
  | null
  | boolean (value : Bool)
  | long (value : Int64)
  | double (literal : JavaText)
  | string (value : JavaText)
  | array (values : List ReadValue)
  | object (members : List (JavaText × ReadValue))

/-- What the tokener and the getters take from the Java library: the literals
that `Double.valueOf` accepts, those that are finite, the digits that
`Character.digit` knows outside ASCII, and `String.valueOf` on values other than
strings. -/
structure JavaLang where
  isDouble : JavaText → Bool
  isFinite : JavaText → Bool
  otherDigit : UInt16 → Option Nat
  valueOf : ReadValue → JavaText

namespace JSONTokener

/-! ## Characters -/

def isBlank (unit : UInt16) : Bool :=
  unit ∈ [asciiUnit '\t', asciiUnit ' ', asciiUnit '\n', asciiUnit '\r']

def isLineEnd (unit : UInt16) : Bool := unit ∈ [asciiUnit '\r', asciiUnit '\n']

/-- The characters that end a literal: those passed to `nextToInternal`, and
line ends. -/
def isDelimiter (unit : UInt16) : Bool :=
  unit ∈ ['\x7b', '\x7d', '[', ']', '/', '\\', ':', ',', '=', ';', '#', ' ', '\t', '\x0c', '\r',
    '\n'].map asciiUnit

def skipToEndOfLine (text : JavaText) : JavaText := (text.dropWhile fun unit => !isLineEnd unit).tail

/-- What stands after the first `*/`. -/
def afterComment : JavaText → Option JavaText
  | [] => none
  | [_] => none
  | first :: second :: rest =>
      if first = asciiUnit '*' ∧ second = asciiUnit '/' then some rest
      else afterComment (second :: rest)

/-- `nextCleanInternal`: the next character that is neither blank nor in a
comment; no character at the end of the text. -/
def nextCleanInternal : Nat → JavaText → Option (Option UInt16 × JavaText)
  | 0, _ => none
  | _ + 1, [] => some (none, [])
  | fuel + 1, c :: rest =>
      if isBlank c then nextCleanInternal fuel rest
      else if c = asciiUnit '/' then
        if rest.head? = some (asciiUnit '*') then do
          let after ← afterComment rest.tail
          nextCleanInternal fuel after
        else if rest.head? = some (asciiUnit '/') then
          nextCleanInternal fuel (skipToEndOfLine rest.tail)
        else some (some c, rest)
      else if c = asciiUnit '#' then nextCleanInternal fuel (skipToEndOfLine rest)
      else some (some c, rest)

def nextClean (text : JavaText) : Option (Option UInt16 × JavaText) :=
  nextCleanInternal (text.length + 1) text

/-! ## Strings and literals -/

def asciiHexDigit (unit : UInt16) : Option Nat :=
  if asciiUnit '0' ≤ unit ∧ unit ≤ asciiUnit '9' then some (unit.toNat - 48)
  else if asciiUnit 'a' ≤ unit ∧ unit ≤ asciiUnit 'f' then some (unit.toNat - 87)
  else if asciiUnit 'A' ≤ unit ∧ unit ≤ asciiUnit 'F' then some (unit.toNat - 55)
  else none

/-- `Character.digit(c, 16)`. -/
def hexDigit (java : JavaLang) (unit : UInt16) : Option Nat :=
  if unit < 0x80 then asciiHexDigit unit else java.otherDigit unit

/-- `(char) Integer.parseInt(hex, 16)`; a sign is allowed in front. -/
def parseHex (java : JavaLang) (hex : JavaText) : Option UInt16 := do
  let negative := hex.head? = some (asciiUnit '-')
  let digits := if negative ∨ hex.head? = some (asciiUnit '+') then hex.tail else hex
  let values ← digits.mapM (hexDigit java)
  let magnitude := UInt16.ofNat (values.foldl (fun value digit => 16 * value + digit) 0)
  return if negative then -magnitude else magnitude

def readEscapeCharacter (java : JavaLang) : JavaText → Option (UInt16 × JavaText)
  | [] => none
  | escaped :: rest =>
      if escaped = asciiUnit 'u' then
        if rest.length < 4 then none else (parseHex java (rest.take 4)).map (·, rest.drop 4)
      else if escaped = asciiUnit 't' then some (asciiUnit '\t', rest)
      else if escaped = asciiUnit 'b' then some (8, rest)
      else if escaped = asciiUnit 'n' then some (asciiUnit '\n', rest)
      else if escaped = asciiUnit 'r' then some (asciiUnit '\r', rest)
      else if escaped = asciiUnit 'f' then some (12, rest)
      else some (escaped, rest)

/-- The loop of `nextString`. -/
def stringBody (java : JavaLang) (quote : UInt16) : Nat → JavaText → Option (JavaText × JavaText)
  | 0, _ => none
  | _ + 1, [] => none
  | fuel + 1, c :: rest =>
      if c = quote then some ([], rest)
      else if c = asciiUnit '\\' then do
        let (unit, after) ← readEscapeCharacter java rest
        let (value, left) ← stringBody java quote fuel after
        return (unit :: value, left)
      else do
        let (value, left) ← stringBody java quote fuel rest
        return (c :: value, left)

def nextString (java : JavaLang) (quote : UInt16) (text : JavaText) :
    Option (JavaText × JavaText) :=
  stringBody java quote (text.length + 1) text

/-- The letter that `equalsIgnoreCase` compares; the long s counts as an `s`. -/
def foldCase (unit : UInt16) : UInt16 :=
  if asciiUnit 'A' ≤ unit ∧ unit ≤ asciiUnit 'Z' then unit + 32
  else if unit = 0x17F then asciiUnit 's'
  else unit

def equalsIgnoreCase (word : String) (text : JavaText) : Bool := text.map foldCase = ofString word

/-- `Character.digit(c, base)`, for a base up to 16. -/
def characterDigit (java : JavaLang) (base : Nat) (unit : UInt16) : Option Nat :=
  (hexDigit java unit).filter (· < base)

/-- The value as a `long`, unless it is too large for one. -/
def longWithin (value : Int) : Option Int64 :=
  if Int64.minValue.toInt ≤ value ∧ value ≤ Int64.maxValue.toInt then some (.ofInt value) else none

/-- `Long.parseLong(number, base)`. -/
def parseLong (java : JavaLang) (base : Nat) (number : JavaText) : Option Int64 := do
  let negative := number.head? = some (asciiUnit '-')
  let digits := if negative ∨ number.head? = some (asciiUnit '+') then number.tail else number
  if digits = [] then none
  else
    let values ← digits.mapM (characterDigit java base)
    let magnitude : Nat := values.foldl (fun value digit => base * value + digit) 0
    longWithin (if negative then -magnitude else magnitude)

/-- The literal as an integral type: hexadecimal after `0x`, octal after another
zero in front, and nothing with a point. -/
def longOf (java : JavaLang) (literal : JavaText) : Option Int64 :=
  if asciiUnit '.' ∈ literal then none
  else if literal.take 2 = ofString "0x" ∨ literal.take 2 = ofString "0X" then
    parseLong java 16 (literal.drop 2)
  else if literal.head? = some (asciiUnit '0') ∧ 1 < literal.length then
    parseLong java 8 literal.tail
  else parseLong java 10 literal

/-- A literal that is no keyword. -/
def wordRead (java : JavaLang) (literal : JavaText) : ReadValue :=
  match longOf java literal with
  | some value => .long value
  | none => if java.isDouble literal then .double literal else .string literal

def readLiteral (java : JavaLang) (text : JavaText) : Option (ReadValue × JavaText) :=
  let literal := text.takeWhile fun unit => !isDelimiter unit
  let rest := text.dropWhile fun unit => !isDelimiter unit
  if literal = [] then none
  else if equalsIgnoreCase "null" literal then some (.null, rest)
  else if equalsIgnoreCase "true" literal then some (.boolean true, rest)
  else if equalsIgnoreCase "false" literal then some (.boolean false, rest)
  else some (wordRead java literal, rest)

/-! ## Values -/

/-- `JSONObject.put`: a name keeps its place; doubles must be finite. -/
def put (java : JavaLang) (members : List (JavaText × ReadValue)) (name : JavaText)
    (value : ReadValue) : Option (List (JavaText × ReadValue)) :=
  let stored :=
    if name ∈ members.map Prod.fst then
      members.map fun entry => if entry.1 = name then (name, value) else entry
    else
      members ++ [(name, value)]
  match value with
  | .double literal => if java.isFinite literal then some stored else none
  | _ => some stored

/-- `put` without the check on doubles. -/
def store (members : List (JavaText × ReadValue)) (name : JavaText) (value : ReadValue) :
    List (JavaText × ReadValue) :=
  if name ∈ members.map Prod.fst then
    members.map fun entry => if entry.1 = name then (name, value) else entry
  else
    members ++ [(name, value)]

mutual

def nextValue (java : JavaLang) : Nat → JavaText → Option (ReadValue × JavaText)
  | 0, _ => none
  | fuel + 1, text => do
      let (next, rest) ← nextClean text
      let c ← next
      if c = asciiUnit '\x7b' then readObject java fuel rest
      else if c = asciiUnit '[' then readArray java fuel false [] rest
      else if c = asciiUnit '\x27' ∨ c = asciiUnit '"' then
        (nextString java c rest).map fun (value, after) => (.string value, after)
      else readLiteral java (c :: rest)

def readObject (java : JavaLang) : Nat → JavaText → Option (ReadValue × JavaText)
  | 0, _ => none
  | fuel + 1, text => do
      let (next, rest) ← nextClean text
      let c ← next
      if c = asciiUnit '\x7d' then some (.object [], rest)
      else readMembers java fuel [] (c :: rest)

/-- The loop of `readObject`. -/
def readMembers (java : JavaLang) :
    Nat → List (JavaText × ReadValue) → JavaText → Option (ReadValue × JavaText)
  | 0, _, _ => none
  | fuel + 1, members, text => do
      let (name, afterName) ← nextValue java fuel text
      match name with
      | .string name =>
          let (separator, afterSeparator) ← nextClean afterName
          if separator = some (asciiUnit ':') ∨ separator = some (asciiUnit '=') then
            let start :=
              if afterSeparator.head? = some (asciiUnit '>') then afterSeparator.tail
              else afterSeparator
            let (value, afterValue) ← nextValue java fuel start
            let members ← put java members name value
            let (next, rest) ← nextClean afterValue
            if next = some (asciiUnit '\x7d') then some (.object members, rest)
            else if next = some (asciiUnit ';') ∨ next = some (asciiUnit ',') then
              readMembers java fuel members rest
            else none
          else none
      | _ => none

/-- `readArray`; a separator without a value stands for null. -/
def readArray (java : JavaLang) :
    Nat → Bool → List ReadValue → JavaText → Option (ReadValue × JavaText)
  | 0, _, _, _ => none
  | fuel + 1, hasTrailingSeparator, values, text => do
      let (next, rest) ← nextClean text
      let c ← next
      if c = asciiUnit ']' then
        some (.array (if hasTrailingSeparator then values ++ [.null] else values), rest)
      else if c = asciiUnit ',' ∨ c = asciiUnit ';' then
        readArray java fuel true (values ++ [.null]) rest
      else
        let (value, afterValue) ← nextValue java fuel (c :: rest)
        let (separator, after) ← nextClean afterValue
        if separator = some (asciiUnit ']') then some (.array (values ++ [value]), after)
        else if separator = some (asciiUnit ',') ∨ separator = some (asciiUnit ';') then
          readArray java fuel true (values ++ [value]) after
        else none

end

end JSONTokener

/-! ## Objects and their getters -/

namespace ReadValue

open JSONTokener

/-- `JSONObject(String)`; a byte order mark in front is dropped. -/
def jsonObject (java : JavaLang) (text : JavaText) :
    Except JavaException (List (JavaText × ReadValue)) :=
  let input := if text.head? = some 0xFEFF then text.tail else text
  match nextValue java (3 * input.length + 3) input with
  | some (.object members, _) => .ok members
  | _ => .error .jsonException

def get (object : List (JavaText × ReadValue)) (name : String) : Except JavaException ReadValue :=
  match object.lookup (ofString name) with
  | some value => .ok value
  | none => .error .jsonException

def asObject : ReadValue → Except JavaException (List (JavaText × ReadValue))
  | .object members => .ok members
  | _ => .error .jsonException

def getJSONArray (object : List (JavaText × ReadValue)) (name : String) :
    Except JavaException (List ReadValue) := do
  match ← get object name with
  | .array values => .ok values
  | _ => .error .jsonException

def getString (java : JavaLang) (object : List (JavaText × ReadValue)) (name : String) :
    Except JavaException JavaText := do
  match ← get object name with
  | .string value => .ok value
  | value => .ok (java.valueOf value)

def getBoolean (object : List (JavaText × ReadValue)) (name : String) :
    Except JavaException Bool := do
  match ← get object name with
  | .boolean value => .ok value
  | .string value =>
      if equalsIgnoreCase "true" value then .ok true
      else if equalsIgnoreCase "false" value then .ok false
      else .error .jsonException
  | _ => .error .jsonException

end ReadValue

end RaptorMark
