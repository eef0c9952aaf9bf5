import RaptorMark.Data.JSONTokener
import RaptorMark.Native.CJsonPrinting
import RaptorMark.Native.KernelVersion

/-!
# The engines of the IO engine dialog

`fio_list_ioengines`, the availability check of `helper.cpp`,
`native_ListEngines`, which hands the list over as JSON text, and the loop of
`IO_ENGINE.onDialogContent` that reads it.
-/

set_option autoImplicit false

namespace RaptorMark.Native

open Lib Lib.ModifiedUtf8 Lib.Kotlin CJson

/-! ## Availability -/

def engineMmap : Nat := 0
def enginePsync : Nat := 1
def engineLibaio : Nat := 2
def engineIoUring : Nat := 3
def engineMax : Nat := 4

def engineLut : List (List UInt8 × Nat) :=
  [(bytes "mmap", engineMmap), (bytes "psync", enginePsync), (bytes "libaio", engineLibaio),
    (bytes "io_uring", engineIoUring)]

/-- `getKeyFromStr`: the number of keys where there is no such key. -/
def getKeyFromStr (key : List UInt8) (lut : List (List UInt8 × Nat)) (keyNum : Nat) : Nat :=
  ((lut.take keyNum).find? fun pair => pair.1 = key).elim keyNum Prod.snd

def ioUringKernelVersionMajor : Int32 := 5
def ioUringKernelVersionMinor : Int32 := 4

def checkEngineAvailability (version : KernelVersion) (engine : List UInt8) : Bool :=
  let key := getKeyFromStr engine engineLut engineMax
  if key = engineMmap ∨ key = enginePsync ∨ key = engineLibaio then
    true
  else if key = engineIoUring then
    version.kernelMajorVersion > ioUringKernelVersionMajor ||
      (version.kernelMajorVersion == ioUringKernelVersionMajor &&
        version.kernelMinorVersion ≥ ioUringKernelVersionMinor)
  else
    false

/-! ## The list as text -/

def maxEngineNum : Nat := 32

/-- `fio_list_ioengines` into an array of `MAX_ENGINE_NUM` pointers; a longer
list of engines is written past its end. -/
def fioListIoengines (engineList : List (List UInt8)) : Option (List (List UInt8)) :=
  if engineList.length ≤ maxEngineNum then some engineList else none

/-- The object of one engine. -/
def engineItem (version : KernelVersion) (engineName : List UInt8) : CJson :=
  .object [(bytes "name", .string engineName),
    (bytes "available", .bool (checkEngineAvailability version engineName))]

def engineRoot (version : KernelVersion) (engines : List (List UInt8)) : CJson :=
  .object [(bytes "engines", .array (engines.map (engineItem version)))]

/-- `native_ListEngines`. -/
def nativeListEngines (printNumber : ℚ → List UInt8) (version : KernelVersion)
    (engineList : List (List UInt8)) : Option JavaText := do
  let engines ← fioListIoengines engineList
  newStringUtf (printUnformatted printNumber (engineRoot version engines))

/-! ## The dialog -/

open ReadValue in
/-- The body of the loop of `IO_ENGINE.onDialogContent`. -/
def addEngine (java : JavaLang) (engineList : List JavaText) (engine : ReadValue) :
    Except JavaException (List JavaText) := do
  let engineObject ← asObject engine
  let engineItem ← getString java engineObject "name"
  let engineAvailable ← getBoolean engineObject "available"
  return if engineAvailable then engineList ++ [engineItem] else engineList

open ReadValue in
/-- The `choiceList` of `IO_ENGINE.onDialogContent`. -/
def choiceList (java : JavaLang) (text : JavaText) : Except JavaException (List JavaText) := do
  let object ← jsonObject java text
  let array ← getJSONArray object "engines"
  array.foldlM (addEngine java) []

/-- The choices of the dialog on a device: `helperInit` when the library was
loaded, then `native_ListEngines`. -/
def engineChoices (java : JavaLang) (printNumber : ℚ → List UInt8) (uname : Option Release)
    (engineList : List (List UInt8)) : Option (Except JavaException (List JavaText)) :=
  (nativeListEngines printNumber (helperInit uname) engineList).map (choiceList java)

end RaptorMark.Native
