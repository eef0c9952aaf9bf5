import RaptorMark.Fio.Decimal

/-!
# fio's options

`handle_option` of `parse.c` and the entries of the table in `options.c` that
the app's commands use.  A setter stands for an offset into `thread_options`.
The maxima are those that `option_init` leaves.
-/

set_option autoImplicit false

namespace RaptorMark.Fio

open Lib.CNumber

/-- One value for each of `DDIR_READ`, `DDIR_WRITE` and `DDIR_TRIM`. -/
structure PerDdir where
  read : UInt64
  write : UInt64
  trim : UInt64
  deriving DecidableEq, Repr

inductive TdDdir where
  | read | write | trim | randread | randwrite | randtrim | rw | randrw | trimwrite | randtrimwrite
  deriving DecidableEq, Repr

def TdDdir.random : TdDdir → Bool
  | randread | randwrite | randtrim | randrw | randtrimwrite => true
  | _ => false

/-- The fields of `thread_options` that a command sets or that its checks read,
with the defaults of `fio_fill_default_options`. -/
structure ThreadOptions where
  name : List UInt8 := []
  filename : List UInt8 := []
  tdDdir : TdDdir := .read
  ddirSeqNr : UInt64 := 1
  ddirSeqAdd : UInt64 := 0
  iodepth : UInt32 := 1
  timeout : UInt64 := 0
  bs : PerDdir := ⟨4096, 4096, 4096⟩
  minBs : PerDdir := ⟨0, 0, 0⟩
  size : UInt64 := 0
  sizePercent : UInt64 := 0
  sizeNz : UInt64 := 0
  odirect : UInt32 := 0
  ioengine : List UInt8 := asciiText "psync"
  numjobs : UInt32 := 1
  rwmixRead : UInt64 := 50
  rwmixWrite : UInt64 := 50
  kbBase : UInt64 := 1024
  deriving DecidableEq, Repr

abbrev Setter := UInt64 → ThreadOptions → ThreadOptions

/-! ## Options with a number -/

inductive NumberType where
  | int
  | ull
  | strValTime
  | strValZone
  deriving DecidableEq, Repr

structure NumberOption where
  type : NumberType
  isSeconds : Bool := false
  minval : Int := 0
  maxval : UInt64 := 0
  off1 : Option Setter := none
  off2 : Option Setter := none
  off3 : Option Setter := none
  cb : Option Setter := none

/-- The cast to `int`. -/
def toInt (val : UInt64) : Int := val.toUInt32.toInt32.toInt

def NumberOption.valTooLarge (option : NumberOption) (val : UInt64) : Bool :=
  option.maxval ≠ 0 &&
    if option.type = .int then
      if toInt val < 0 then toInt option.maxval < toInt val
      else option.maxval < val.toUInt32.toUInt64
    else
      option.maxval < val

def NumberOption.valTooSmall (option : NumberOption) (val : UInt64) : Bool :=
  option.minval ≠ 0 &&
    if option.type = .int then toInt val < option.minval
    else val < UInt64.ofInt option.minval

def NumberOption.quantity (option : NumberOption) (kbBase : UInt64) : Quantity :=
  if option.type = .strValTime then .time option.isSeconds else .bytes kbBase

def zoneBaseVal : UInt64 := 9223372036854775808

/-- A text that ends in `z` counts zones, where the option has them. -/
def readZones (option : NumberOption) (ptr : List UInt8) : Option UInt64 :=
  match option.type, strtoul 10 ptr with
  | .strValZone, some converted =>
      if !converted.erange && converted.rest.head? = some (ascii 'z') then
        some (zoneBaseVal + converted.value.toUInt32.toUInt64)
      else
        none
  | _, _ => none

/-- The local copy `tmp` of a piece: 127 bytes, up to a comma. -/
def tmpText (ptr : List UInt8) : List UInt8 := (ptr.take 127).takeWhile (· ≠ ascii ',')

/-- The number that `__handle_option` reads in one piece, none where it rejects
the piece. -/
def readPiece (option : NumberOption) (kbBase : UInt64) (staleErange : Bool) (ptr : List UInt8) :
    Option UInt64 :=
  if ptr.getLast? = some (ascii 'z') then
    readZones option ptr
  else
    (strToDecimal (option.quantity kbBase) staleErange (tmpText ptr)).filter fun ull =>
      !option.valTooLarge ull && !option.valTooSmall ull

def setAt (offset : Option Setter) (val : UInt64) (td : ThreadOptions) : ThreadOptions :=
  match offset with
  | some setter => setter val td
  | none => td

/-- `store_option_value`: `curr` counts the pieces, `more` says that another one
follows. -/
def storeOptionValue (option : NumberOption) (curr : Nat) (more : Bool) (ull : UInt64)
    (td : ThreadOptions) : ThreadOptions :=
  match option.cb with
  | some fn => fn ull td
  | none =>
      if option.type = .int ∨ option.type = .ull then
        let first := if curr = 0 then setAt option.off1 ull td else td
        let second := if curr = 1 ∨ (more = false ∧ curr < 1) then setAt option.off2 ull first else first
        if curr = 2 ∨ (more = false ∧ curr < 2) then setAt option.off3 ull second else second
      else
        let first := if curr = 0 then setAt option.off1 ull td else td
        if more = false then setAt option.off2 ull first else first

/-- `__handle_option` on one piece. -/
def handlePiece (option : NumberOption) (staleErange : Bool) (curr : Nat) (more : Bool)
    (ptr : List UInt8) (td : ThreadOptions) : Bool × ThreadOptions :=
  match readPiece option td.kbBase staleErange ptr with
  | some ull => (true, storeOptionValue option curr more ull td)
  | none => (false, td)

/-- One round of the loop of `handle_option`: the piece that is handled and the
text of the next round.  A piece runs to the end of the text; only a comma at
the very end is cut off. -/
def nextPiece (ptr : List UInt8) : List UInt8 × Option (List UInt8) :=
  match strchr (ascii ',') ptr with
  | some (before, []) => (before, some [])
  | some (_, after) => (ptr, some after)
  | none =>
      match strchr (ascii ':') ptr with
      | some (_, after) => (ptr, some after)
      | none => (ptr, (strchr (ascii '-') ptr).map Prod.snd)

/-- The pieces of a text.  Each round leaves a shorter text, so the length
bounds the rounds. -/
def piecesWithin : Nat → List UInt8 → List (List UInt8)
  | 0, _ => []
  | fuel + 1, ptr =>
      match nextPiece ptr with
      | (piece, some rest) => piece :: piecesWithin fuel rest
      | (piece, none) => [piece]

def pieces (text : List UInt8) : List (List UInt8) := piecesWithin (text.length + 1) text

/-- The loop of `handle_option`: it succeeds if any piece does. -/
def handlePieces (option : NumberOption) (staleErange : Nat → Bool) :
    Nat → List (List UInt8) → ThreadOptions → Bool × ThreadOptions
  | _, [], td => (false, td)
  | curr, piece :: rest, td =>
      let (accepted, next) :=
        handlePiece option (staleErange curr) curr (!rest.isEmpty) piece td
      let (others, final) := handlePieces option staleErange (curr + 1) rest next
      (accepted || others, final)

def handleNumber (option : NumberOption) (staleErange : Nat → Bool) (text : List UInt8)
    (td : ThreadOptions) : Bool × ThreadOptions :=
  handlePieces option staleErange 0 (pieces text) td

/-! ## Options with a word or a text -/

/-- `opt_len`: a comma or else a colon ends the word. -/
def optLen (str : List UInt8) : Nat :=
  match strchr (ascii ',') str with
  | some (before, _) => before.length
  | none =>
      match strchr (ascii ':') str with
      | some (before, _) => before.length
      | none => str.length

/-- `strncmp(vp->ival, ptr, str_match_len(vp, ptr)) == 0`. -/
def matchesValue (ptr : List UInt8) (ival : String) : Bool :=
  let length := max (asciiText ival).length (optLen ptr)
  (asciiText ival).take length == ptr.take length

/-- The `posval` of `rw`. -/
def rwValues : List (String × TdDdir) :=
  [("read", .read), ("write", .write), ("trim", .trim), ("randread", .randread),
    ("randwrite", .randwrite), ("randtrim", .randtrim), ("rw", .rw), ("readwrite", .rw),
    ("randrw", .randrw), ("trimwrite", .trimwrite), ("randtrimwrite", .randtrimwrite)]

/-- `strip_blank_front` and `strip_blank_end`. -/
def stripBlank (text : List UInt8) : List UInt8 :=
  let front := text.dropWhile isspace
  match (front.takeWhile (· ≠ ascii ';')).takeWhile (· ≠ ascii '#') with
  | [] => []
  | start :: rest =>
      start :: (rest.reverse.dropWhile fun b => isspace b || iscntrl b).reverse

/-- `str_rw_cb`, after `td_ddir` is set. -/
def strRwCb (staleErange : Bool) (str : List UInt8) (td : ThreadOptions) : Option ThreadOptions :=
  let reset := { td with ddirSeqNr := 1, ddirSeqAdd := 0 }
  match strchr (ascii ':') str with
  | none => some reset
  | some (_, postfixText) =>
      match strToDecimal (.bytes td.kbBase) staleErange (stripBlank postfixText) with
      | none => none
      | some val =>
          if td.tdDdir.random then
            if val.toInt64 ≤ 0 ∨ val > 4294967295 then none else some { reset with ddirSeqNr := val }
          else
            some { reset with ddirSeqAdd := val }

def handleRw (staleErange : Bool) (ptr : List UInt8) (td : ThreadOptions) : Option ThreadOptions :=
  match rwValues.find? fun value => matchesValue ptr value.1 with
  | none => none
  | some (_, oval) => strRwCb staleErange ptr { td with tdDdir := oval }

/-- `FIO_OPT_STR_STORE`; a `maxlen` of zero is no limit.  The callback of
`filename` never fails, and an engine that the app offers has no callback. -/
def handleStore (maxlen : Nat) (set : List UInt8 → ThreadOptions → ThreadOptions)
    (ptr : List UInt8) (td : ThreadOptions) : Option ThreadOptions :=
  if ptr = [] then none
  else if maxlen ≠ 0 ∧ maxlen - 1 < ptr.length then none
  else some (set ptr td)

/-- `check_int`, by `sscanf`. -/
def checkInt (p : List UInt8) : Option UInt32 :=
  let base := if strstr "0x" p || strstr "0X" p then 16 else 10
  (strtoul base p).map fun converted => converted.value.toUInt32

/-- `FIO_OPT_BOOL` on a text of one piece. -/
def handleBool (set : UInt32 → ThreadOptions → ThreadOptions) (ptr : List UInt8)
    (td : ThreadOptions) : Option ThreadOptions :=
  match checkInt ptr with
  | none => none
  | some il => if il.toInt32 > 1 then none else some (set il td)

/-! ## The table -/

inductive FioOption where
  | number (option : NumberOption)
  | rw
  | store (maxlen : Nat) (set : List UInt8 → ThreadOptions → ThreadOptions)
  | bool (set : UInt32 → ThreadOptions → ThreadOptions)

def pathMax : Nat := 4096

def uintMax : UInt64 := 4294967295
def ullongMax : UInt64 := 18446744073709551615

def parseIsPercent (val : UInt64) : Bool := val ≥ 18446744073709551515

def parseIsZone (val : UInt64) : Bool := val - zoneBaseVal ≤ uintMax

def strSizeCb : Setter := fun v td =>
  if parseIsPercent v then { td with size := 0, sizePercent := -1 - v }
  else if parseIsZone v then { td with size := 0, sizePercent := 0, sizeNz := v - zoneBaseVal }
  else { td with size := v }

def strRwmixWriteCb : Setter := fun val td =>
  { td with rwmixWrite := val, rwmixRead := 100 - val }

def runtimeOption : NumberOption where
  type := .strValTime
  isSeconds := true
  off1 := some fun val td => { td with timeout := val }

def blocksizeOption : NumberOption where
  type := .ull
  minval := 1
  maxval := ullongMax
  off1 := some fun val td => { td with bs.read := val }
  off2 := some fun val td => { td with bs.write := val }
  off3 := some fun val td => { td with bs.trim := val }

def sizeOption : NumberOption where
  type := .strValZone
  cb := some strSizeCb

def iodepthOption : NumberOption where
  type := .int
  minval := 1
  maxval := uintMax
  off1 := some fun val td => { td with iodepth := val.toUInt32 }

def numjobsOption : NumberOption where
  type := .int
  maxval := uintMax
  off1 := some fun val td => { td with numjobs := val.toUInt32 }

def rwmixwriteOption : NumberOption where
  type := .int
  maxval := 100
  cb := some strRwmixWriteCb

/-- The entries of `fio_options`, each with its name and its alias. -/
def fioOptions : List (String × Option String × FioOption) :=
  [("name", none, .store 0 fun text td => { td with name := text }),
    ("filename", none, .store pathMax fun text td => { td with filename := text }),
    ("rw", some "readwrite", .rw),
    ("ioengine", none, .store 0 fun text td => { td with ioengine := text }),
    ("iodepth", none, .number iodepthOption),
    ("size", none, .number sizeOption),
    ("bs", some "blocksize", .number blocksizeOption),
    ("direct", none, .bool fun il td => { td with odirect := il }),
    ("numjobs", none, .number numjobsOption),
    ("runtime", some "timeout", .number runtimeOption),
    ("rwmixwrite", none, .number rwmixwriteOption)]

/-- `find_option_c`. -/
def findOption (opt : List UInt8) : Option FioOption :=
  (fioOptions.find? fun entry =>
    asciiText entry.1 = opt || entry.2.1.any fun other => asciiText other = opt).map fun entry =>
      entry.2.2

/-- `handle_option`; none where it fails, and then the job is thrown away. -/
def handleOption (staleErange : Nat → Bool) (option : FioOption) (val : List UInt8)
    (td : ThreadOptions) : Option ThreadOptions :=
  match option with
  | .number number =>
      match handleNumber number staleErange val td with
      | (true, next) => some next
      | (false, _) => none
  | .rw => handleRw (staleErange 0) val td
  | .store maxlen set => handleStore maxlen set val td
  | .bool set => handleBool set val td

/-- `parse_cmd_option`. -/
def parseCmdOption (staleErange : Nat → Bool) (opt val : List UInt8) (td : ThreadOptions) :
    Option ThreadOptions :=
  match findOption opt with
  | some option => handleOption staleErange option val td
  | none => none

end RaptorMark.Fio
