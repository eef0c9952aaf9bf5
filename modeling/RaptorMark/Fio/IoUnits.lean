import RaptorMark.Fio.Libaio

/-!
# The I/O units of a job

A job owns as many I/O units as its I/O depth.  `__get_io_u` takes one from the
ring of requeued units or else from the free list, the engine completes, takes
or refuses it, and it comes back through `put_io_u` or `requeue_io_u`.  The
functions are those of `io_u_queue.h`, `io_u.c`, `ioengines.c` and `backend.c`;
jobs are not offloaded to other threads and do not verify.

`none` stands for a failed assertion.  What the engine, the choice of the next
offset and the latency target answer is data of the events.
-/

set_option autoImplicit false

namespace RaptorMark.Fio

/-! ## The two queues -/

structure IoUQueue where
  ioUs : Nat → Option Nat
  nr : Nat
  max : Nat

def ioUQinit (nr : Nat) : IoUQueue where
  ioUs := fun _ => none
  nr := 0
  max := nr

def ioUQpop (q : IoUQueue) : Option Nat × IoUQueue :=
  if q.nr ≠ 0 then
    (q.ioUs (q.nr - 1),
      { q with ioUs := Function.update q.ioUs (q.nr - 1) none, nr := q.nr - 1 })
  else (none, q)

def ioUQpush (q : IoUQueue) (ioU : Nat) : Option IoUQueue :=
  if q.nr < q.max then
    some { q with ioUs := Function.update q.ioUs q.nr (some ioU), nr := q.nr + 1 }
  else none

def ioUQempty (q : IoUQueue) : Bool := q.nr == 0

structure IoURing where
  head : Nat
  tail : Nat
  max : Nat
  ring : Nat → Option Nat

/-- The size of the ring: `nr + 1`, rounded up to a power of two. -/
def ringSize (nr : Nat) : Nat :=
  let max := nr + 1
  if max &&& (max - 1) ≠ 0 then
    let max := max - 1
    let max := max ||| max >>> 1
    let max := max ||| max >>> 2
    let max := max ||| max >>> 4
    let max := max ||| max >>> 8
    let max := max ||| max >>> 16
    max + 1
  else max

def ioURinit (nr : Nat) : IoURing where
  head := 0
  tail := 0
  max := ringSize nr
  ring := fun _ => none

/-- The source compares without the mask it applies to the new head. -/
def ioURpush (r : IoURing) (ioU : Nat) : Option IoURing :=
  if r.head + 1 ≠ r.tail then
    some { r with
      ring := Function.update r.ring r.head (some ioU)
      head := (r.head + 1) &&& (r.max - 1) }
  else none

def ioURpop (r : IoURing) : Option Nat × IoURing :=
  if r.head ≠ r.tail then (r.ring r.tail, { r with tail := (r.tail + 1) &&& (r.max - 1) })
  else (none, r)

def ioURempty (r : IoURing) : Bool := r.head == r.tail

/-! ## Units and jobs -/

/-- The flags and fields of `struct io_u` that the life of a unit depends on. -/
structure IoU where
  free : Bool
  flight : Bool
  inCurDepth : Bool
  hasFile : Bool
  ddir : IoDirection
  offset : Nat
  xferBuflen : Nat
  resid : Nat
  error : Nat

structure IoThread where
  ioUFreelist : IoUQueue
  ioURequeues : IoURing
  ioUs : Nat → IoU
  curDepth : Nat
  ioIssues : IoDirection → Nat
  ioBlocks : IoDirection → Nat
  ioBytes : IoDirection → Nat
  shortIoU : IoDirection → Nat
  realFileSize : Nat
  /-- The units the engine has queued and not returned. -/
  engine : List Nat

def ddirRw (ddir : IoDirection) : Bool := ddir != .sync

def IoThread.setIoU (td : IoThread) (ioU : Nat) (change : IoU → IoU) : IoThread :=
  { td with ioUs := Function.update td.ioUs ioU (change (td.ioUs ioU)) }

/-- `counter[ddir] += amount`. -/
def counted (counter : IoDirection → Nat) (ddir : IoDirection) (amount : Nat) :
    IoDirection → Nat :=
  Function.update counter ddir (counter ddir + amount)

/-- `counter[ddir]--`. -/
def uncounted (counter : IoDirection → Nat) (ddir : IoDirection) : IoDirection → Nat :=
  Function.update counter ddir (counter ddir - 1)

def newIoU : IoU where
  free := true
  flight := false
  inCurDepth := false
  hasFile := false
  ddir := .read
  offset := 0
  xferBuflen := 0
  resid := 0
  error := 0

/-- The loop of `init_io_u`. -/
def pushIoUs : List Nat → IoUQueue → Option IoUQueue
  | [], q => some q
  | ioU :: rest, q => do pushIoUs rest (← ioUQpush q ioU)

def initIoU (iodepth realFileSize : Nat) : Option IoThread := do
  let ioUFreelist ← pushIoUs (List.range iodepth) (ioUQinit iodepth)
  some {
    ioUFreelist
    ioURequeues := ioURinit iodepth
    ioUs := fun _ => newIoU
    curDepth := 0
    ioIssues := fun _ => 0
    ioBlocks := fun _ => 0
    ioBytes := fun _ => 0
    shortIoU := fun _ => 0
    realFileSize
    engine := [] }

/-! ## Giving units back -/

def putIoU (td : IoThread) (ioU : Nat) : Option IoThread := do
  let td := td.setIoU ioU fun u => { u with hasFile := false, free := true }
  let td := if (td.ioUs ioU).inCurDepth then { td with curDepth := td.curDepth - 1 } else td
  let ioUFreelist ← ioUQpush td.ioUFreelist ioU
  some { td with ioUFreelist }

def clearIoU (td : IoThread) (ioU : Nat) : Option IoThread :=
  putIoU (td.setIoU ioU fun u => { u with flight := false }) ioU

def requeueIoU (td : IoThread) (ioU : Nat) : Option IoThread := do
  let ddir := (td.ioUs ioU).ddir
  let td :=
    if (td.ioUs ioU).flight ∧ ddirRw ddir then
      { td with ioIssues := uncounted td.ioIssues ddir }
    else td
  let td := td.setIoU ioU fun u => { u with free := true, flight := false }
  let td := if (td.ioUs ioU).inCurDepth then { td with curDepth := td.curDepth - 1 } else td
  let ioURequeues ← ioURpush td.ioURequeues ioU
  some { td with ioURequeues }

/-! ## Taking units -/

/-- The unit `__get_io_u` picks, and the queues without it. -/
def pickIoU (latencyFull : Bool) (td : IoThread) : Option Nat × IoThread :=
  if !ioURempty td.ioURequeues then
    let (picked, ioURequeues) := ioURpop td.ioURequeues
    (picked, { td with ioURequeues })
  else if !ioUQempty td.ioUFreelist && !latencyFull then
    let (picked, ioUFreelist) := ioUQpop td.ioUFreelist
    (picked, match picked with
      | some ioU => IoThread.setIoU { td with ioUFreelist } ioU fun u =>
          { u with hasFile := false }
      | none => { td with ioUFreelist })
  else (none, td)

/-- `__get_io_u`; the latency target holds a job back that has free units. -/
def getFreeIoU (stopIo latencyFull : Bool) (td : IoThread) : Option (Option Nat × IoThread) :=
  if stopIo then some (none, td)
  else
    match pickIoU latencyFull td with
    | (none, td) => some (none, td)
    | (some ioU, td) =>
        if (td.ioUs ioU).free then
          some (some ioU, IoThread.setIoU { td with curDepth := td.curDepth + 1 } ioU fun u =>
            { u with free := false, resid := 0, error := 0, inCurDepth := true })
        else none

/-- What `set_io_u_file` comes back with. -/
inductive FillAnswer where
  | failed
  | filled (ddir : IoDirection) (offset buflen : Nat)

def fillUnit (td : IoThread) (ioU : Nat) : FillAnswer → Option IoThread
  | .failed => none
  | .filled ddir offset buflen =>
      some (td.setIoU ioU fun u => { u with hasFile := true, ddir, offset, xferBuflen := buflen })

def getIoU (stopIo latencyFull : Bool) (fill : FillAnswer) (prepared : Bool) (td : IoThread) :
    Option (Option Nat × IoThread) := do
  match ← getFreeIoU stopIo latencyFull td with
  | (none, td) => some (none, td)
  | (some ioU, td) =>
      -- a requeued unit is set up already
      match if (td.ioUs ioU).hasFile then some td else fillUnit td ioU fill with
      | none => some (none, ← putIoU td ioU)
      | some td => if prepared then some (some ioU, td) else some (none, ← putIoU td ioU)

/-! ## Issuing and completing -/

/-- What the engine makes of a unit it has finished. -/
structure IoResult where
  error : Nat
  resid : Nat

def IoThread.setResult (td : IoThread) (ioU : Nat) (result : IoResult) : IoThread :=
  td.setIoU ioU fun u => { u with error := result.error, resid := result.resid }

/-- What the engine's `queue` answers, or that the unit overlaps one in flight. -/
inductive QueueAnswer where
  | overlaps
  | completed (result : IoResult)
  | queued
  | busy

/-- What `td_io_queue` does before it asks the engine. -/
def launchIoU (td : IoThread) (ioU : Nat) : IoThread :=
  let launched := td.setIoU ioU fun u => { u with flight := true, error := 0, resid := 0 }
  if ddirRw (td.ioUs ioU).ddir then
    { launched with ioIssues := counted td.ioIssues (td.ioUs ioU).ddir 1 }
  else launched

def tdIoQueue (td : IoThread) (ioU : Nat) (answer : QueueAnswer) :
    Option (QStatus × IoThread) :=
  let ddir := (td.ioUs ioU).ddir
  if (td.ioUs ioU).flight then none
  else
    let td := launchIoU td ioU
    match answer with
    | .completed result => some (.completed, td.setResult ioU result)
    | .queued => some (.queued, { td with engine := td.engine ++ [ioU] })
    | _ =>
        if ddirRw ddir then
          some (.busy, IoThread.setIoU { td with ioIssues := uncounted td.ioIssues ddir } ioU
            fun u => { u with flight := false })
        else some (.busy, td)

def ioUSubmit (td : IoThread) (ioU : Nat) (answer : QueueAnswer) :
    Option (QStatus × IoThread) :=
  match answer with
  | .overlaps => some (.busy, td)
  | _ => tdIoQueue td ioU answer

/-- Steps over the bytes that were transferred. -/
def advanceIoU (td : IoThread) (ioU : Nat) : IoThread :=
  td.setIoU ioU fun u =>
    { u with xferBuflen := u.resid, offset := u.offset + (u.xferBuflen - u.resid) }

def countShort (td : IoThread) (ioU : Nat) : IoThread :=
  { td with shortIoU := counted td.shortIoU (td.ioUs ioU).ddir 1 }

def countBlock (td : IoThread) (ddir : IoDirection) (bytes : Nat) : IoThread :=
  { td with
    ioBlocks := counted td.ioBlocks ddir 1
    ioBytes := counted td.ioBytes ddir bytes }

/-- `io_completed`; a unit that it has requeued is not given back. -/
def ioCompleted (td : IoThread) (ioU : Nat) : Option (Option Nat × IoThread) :=
  if !(td.ioUs ioU).flight then none
  else
    let td := td.setIoU ioU fun u => { u with flight := false }
    let u := td.ioUs ioU
    if u.ddir = .sync ∨ u.error ≠ 0 then some (some ioU, td)
    else
      let bytes := u.xferBuflen - u.resid
      if bytes ≠ 0 ∧ u.resid ≠ 0 then
        let td := countShort (advanceIoU td ioU) ioU
        if (td.ioUs ioU).offset < td.realFileSize then do
          some (none, ← requeueIoU td ioU)
        else some (some ioU, countBlock td u.ddir bytes)
      else some (some ioU, countBlock td u.ddir bytes)

/-- What `io_u_sync_complete` and `ios_completed` do with one unit. -/
def completeIoU (td : IoThread) (ioU : Nat) : Option IoThread := do
  match ← ioCompleted td ioU with
  | (some ioU, td) => putIoU td ioU
  | (none, td) => some td

def ioQueueEvent (td : IoThread) (ioU : Nat) : QStatus → Option IoThread
  | .completed =>
      let u := td.ioUs ioU
      if u.error ≠ 0 then clearIoU td ioU
      else if u.resid ≠ 0 then
        if u.xferBuflen - u.resid = 0 then clearIoU td ioU
        else
          let td := advanceIoU td ioU
          let td := if ddirRw u.ddir then countShort td ioU else td
          if (td.ioUs ioU).offset = td.realFileSize then completeIoU td ioU
          else requeueIoU td ioU
      else completeIoU td ioU
  | .queued => some td
  | .busy => requeueIoU td ioU

/-- The units that `getevents` finds finished; an index stands for a unit of the
engine, and one that is too large for no event. -/
def reapEvents : List (Nat × IoResult) → List Nat → List (Nat × IoResult) × List Nat
  | [], engine => ([], engine)
  | (index, result) :: rest, engine =>
      match engine[index]? with
      | none => reapEvents rest engine
      | some ioU =>
          let (others, left) := reapEvents rest (engine.eraseIdx index)
          ((ioU, result) :: others, left)

def iosCompleted : List (Nat × IoResult) → IoThread → Option IoThread
  | [], td => some td
  | (ioU, result) :: rest, td => do
      iosCompleted rest (← completeIoU (td.setResult ioU result) ioU)

/-! ## Runs -/

inductive JobEvent where
  /-- The loop of `do_io` asks for a unit and submits it. -/
  | issue (stopIo latencyFull : Bool) (fill : FillAnswer) (prepared : Bool) (answer : QueueAnswer)
  /-- `io_u_queued_complete`. -/
  | reap (events : List (Nat × IoResult))

def jobStep (td : IoThread) : JobEvent → Option IoThread
  | .issue stopIo latencyFull fill prepared answer => do
      match ← getIoU stopIo latencyFull fill prepared td with
      | (none, td) => some td
      | (some ioU, td) =>
          let (status, td) ← ioUSubmit td ioU answer
          ioQueueEvent td ioU status
  | .reap events =>
      let (reaped, engine) := reapEvents events td.engine
      iosCompleted reaped { td with engine }

def jobRun : List JobEvent → IoThread → Option IoThread
  | [], td => some td
  | event :: rest, td => do jobRun rest (← jobStep td event)

end RaptorMark.Fio
