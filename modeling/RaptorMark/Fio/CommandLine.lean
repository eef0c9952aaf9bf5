import RaptorMark.Fio.Options

/-!
# fio's command line

`parse_cmd_line` of `init.c` with `add_job` and `fixup_options`, on arguments of
the form `--name=value`.  A value that an option rejects, and a job that
`add_job` rejects at the end of the line, end the process: `exit` is called in
the middle of the app.  The branches of `fixup_options` and `add_job` that need
an option outside the table are left out; their options keep their defaults.
-/

set_option autoImplicit false

namespace RaptorMark.Fio

open Lib.CNumber

/-- What the command line depends on besides its text. -/
structure Host where
  /-- `get_new_job` finds memory for the job of this number. -/
  newJob : Nat → Bool
  /-- `load_ioengine` finds the engine that the text of `ioengine` names. -/
  loadIoengine : List UInt8 → Bool
  /-- `errno` is `ERANGE` before a piece of an option is read. -/
  staleErange : List UInt8 → Nat → Bool

/-! ## Adding a job -/

def tdMinBs (o : ThreadOptions) : UInt64 := min o.minBs.trim (min o.minBs.read o.minBs.write)

def fillMinBs (minBs bs : UInt64) : UInt64 := if minBs = 0 then bs else minBs

/-- `fixup_options`: whether it returns 0, and the options it leaves. -/
def fixupOptions (o : ThreadOptions) : Bool × ThreadOptions :=
  let fixed := { o with
    minBs := ⟨fillMinBs o.minBs.read o.bs.read, fillMinBs o.minBs.write o.bs.write,
      fillMinBs o.minBs.trim o.bs.trim⟩ }
  (!(fixed.size ≠ 0 && fixed.size < tdMinBs fixed), fixed)

/-- A `thread_data` under construction; `def_thread` is no real job. -/
structure ThreadData where
  isDefThread : Bool
  o : ThreadOptions

/-- `add_job`: the number of jobs after it, none where it fails.  The copies of
a job differ from it in nothing that is checked. -/
def addJob (host : Host) (threadNumber : Nat) (td : ThreadData) : Option Nat :=
  if td.isDefThread then
    some threadNumber
  else if !host.loadIoengine td.o.ioengine then
    none
  else
    match fixupOptions td.o with
    | (false, _) => none
    | (true, fixed) =>
        let copies := (fixed.numjobs - 1).toNat
        if (List.range copies).all fun copy =>
            host.newJob (threadNumber + copy) && host.loadIoengine fixed.ioengine &&
              (fixupOptions fixed).1 then
          some (threadNumber + copies)
        else
          none

/-! ## The loop over the arguments -/

/-- The variables of the loop. -/
structure Parsing where
  defThread : ThreadOptions := {}
  td : Option ThreadData := none
  threadNumber : Nat := 0

inductive CmdLine where
  | parsing (state : Parsing)
  | returned
  | exited (status : Nat)

/-- A new `name` adds the job before it; none where that fails and the function
returns. -/
def closeJob (host : Host) (state : Parsing) (opt : List UInt8) : Option Parsing :=
  match state.td with
  | some td =>
      if startsWith "name" opt then
        (addJob host state.threadNumber td).map fun threadNumber =>
          { defThread := if td.isDefThread then td.o else state.defThread, threadNumber }
      else
        some state
  | none => some state

/-- The job that the option is for; none where there is no memory or no engine. -/
def openJob (host : Host) (state : Parsing) (opt val : List UInt8) :
    Option (ThreadData × Nat) :=
  match state.td with
  | some td => some (td, state.threadNumber)
  | none =>
      let global := !startsWith "name" opt || startsWith "global" val
      if !host.loadIoengine state.defThread.ioengine then none
      else if global then some (⟨true, state.defThread⟩, state.threadNumber)
      else if host.newJob state.threadNumber then
        some (⟨false, state.defThread⟩, state.threadNumber + 1)
      else none

/-- The parsing of the value, and the engine that a new `ioengine` needs. -/
def parseValue (host : Host) (opt val : List UInt8) (o : ThreadOptions) : Option ThreadOptions :=
  if val = [] then
    none
  else
    (parseCmdOption (host.staleErange opt) opt val o).filter fun next =>
      !(opt = asciiText "ioengine" && !host.loadIoengine next.ioengine)

/-- `case FIO_GETOPT_JOB`. -/
def getoptJob (host : Host) (state : Parsing) (opt val : List UInt8) : CmdLine :=
  match closeJob host state opt with
  | none => .returned
  | some closed =>
      match openJob host closed opt val with
      | none => .exited 1
      | some (td, threadNumber) =>
          match parseValue host opt val td.o with
          | none => .exited 1
          | some o => .parsing { closed with td := some { td with o }, threadNumber }

def outputFormats : List (List UInt8) :=
  ["minimal", "terse", "csv", "json", "json+", "normal"].map asciiText

def parseOutputFormat (optarg : List UInt8) : Bool :=
  (optarg.splitOn (ascii ',')).all fun opt => outputFormats.contains opt

/-- `getopt_long_only` on `--name=value`. -/
def longOption (argument : List UInt8) : Option (List UInt8 × List UInt8) :=
  if startsWith "--" argument then strchr (ascii '=') (argument.drop 2) else none

/-- The body of the loop.  An argument that is none of the modelled options is
treated like an unknown one. -/
def parseArgument (host : Host) (line : CmdLine) (argument : List UInt8) : CmdLine :=
  match line with
  | .parsing state =>
      match longOption argument with
      | none => .exited 1
      | some (opt, val) =>
          if opt = asciiText "eta" then .parsing state
          else if opt = asciiText "output-format" then
            if parseOutputFormat val then .parsing state else .exited 1
          else if (findOption opt).isSome then getoptJob host state opt val
          else .exited 1
  | other => other

/-- After the loop the last job is added. -/
def finishCmdLine (host : Host) : CmdLine → CmdLine
  | .parsing state =>
      match state.td with
      | none => .returned
      | some td => if (addJob host state.threadNumber td).isSome then .returned else .exited 1
  | other => other

def parseCmdLine (host : Host) (argv : List (List UInt8)) : CmdLine :=
  finishCmdLine host (argv.tail.foldl (parseArgument host) (.parsing {}))

end RaptorMark.Fio
