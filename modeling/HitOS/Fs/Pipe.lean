import HitOS.Fs.PipeRing
import HitOS.Fs.Waiters

/-!
# Pipes

`fs/pipe.rs`: the loops of reading, peeking and writing, the endpoints, and the tasks that wait. A
*round* is one turn of such a loop with the pipe locked. It ends the call, goes round again, or
registers the task as a waiter, after which the task blocks.

A round first decides what happens to the ring (`readDecision`, `writeDecision`), and from that
follows what happens to the waiters (`readRound`, `writeRound`). Waiters are weak references:
`upgrade` says which tasks still exist. Tasks to be woken are collected under the lock and woken
after it is released.

What a round finds outside of the pipe is in its environment: a pending signal, a deadline that has
passed, and the lengths that the attached filters answer.
-/

namespace HitOS.Pipe

open HitOS.Waiters
open Parking (Task)

/-! ### Decisions about the ring -/

/-- What a round finds outside of the pipe. -/
structure RoundEnv where
  pendingSignal : Bool
  /-- The deadline has passed, if there is one. -/
  timedOut : Bool
  /-- `filter_len` of the classic filter, if one is attached. -/
  classicFilter : Option (List UInt8 → Option Nat)
  /-- `filter_len` of the BPF program, if one is attached. -/
  attachedBpf : Option (List UInt8 → Option Nat)

def RoundEnv.hasFilter (env : RoundEnv) : Bool := env.classicFilter.isSome || env.attachedBpf.isSome

inductive RoundEnd (κ ρ : Type) where
  /-- The call returns. -/
  | done (result : Except SyscallError ρ)
  /-- The loop goes round again. -/
  | again (call : κ)
  /-- The task registers and blocks. -/
  | park (call : κ)

/-- A call of `write_user_result` (`user`) or `write_from_slice_inner`. The first turns into the
second when it finds a filter; `before` is what it had written by then. -/
structure WriteCall where
  data : List UInt8
  written : Nat
  nonblock : Bool
  signalAsEintr : Bool
  deadline : Bool
  user : Bool
  before : Nat
  deriving DecidableEq

/-- The call returns from `write_from_slice_inner`, and from `write_user_result` if that has called
it. -/
def WriteCall.result (call : WriteCall) : Except SyscallError Nat → Except SyscallError Nat
  | .ok n => .ok (call.before + n)
  | .error e => if call.before > 0 then .ok call.before else .error e

/-- `filter_len` of one filter on the slice: how much passes, and whether something was cut off.
Nothing passes at all for `none`. -/
def applyFilter (filter : Option (List UInt8 → Option Nat)) (slice : List UInt8) : Option (Nat × Bool) :=
  match filter with
  | none => some (slice.length, false)
  | some f => (f slice).map fun len => (min slice.length len, decide (len < slice.length))

/-- Both filters, the BPF program on what the classic filter has let pass. -/
def RoundEnv.filterSlice (env : RoundEnv) (slice : List UInt8) : Option (Nat × Bool) :=
  (applyFilter env.classicFilter slice).bind fun (toWrite, truncated) =>
    (applyFilter env.attachedBpf (slice.take toWrite)).map fun (toWrite, truncated') =>
      (toWrite, truncated || truncated')

/-- What a round decides: the ring, how many bytes went in or out, whether the task leaves its queue
of waiters, whether a filter has dropped bytes, and how the round ends. -/
structure WriteDecision where
  ring : PipeRingBuffer
  wrote : Nat
  leaves : Bool
  filtered : Bool
  ends : RoundEnd WriteCall Nat

/-- The test of the loop: no room, or not enough for a write that must not be split. -/
def WriteCall.mustWait (call : WriteCall) (avail : Nat) : Bool :=
  let remaining := call.data.length - call.written
  decide (avail = 0 ∨ (remaining ≤ pipeBuf ∧ avail < remaining ∧ call.written = 0))

/-- The bytes that a round offers to the ring. -/
def WriteCall.slice (call : WriteCall) (avail : Nat) : List UInt8 :=
  (call.data.drop call.written).take (min (call.data.length - call.written) avail)

variable (ring : PipeRingBuffer)

def writeWait (call : WriteCall) (env : RoundEnv) : WriteDecision :=
  if call.nonblock then
    ⟨ring, 0, true, false, .done (call.result (if call.written > 0 then .ok call.written else .error .eagain))⟩
  else if env.pendingSignal then
    ⟨ring, 0, true, false, .done (call.result
      (if call.signalAsEintr ∧ call.written = 0 then .error .eintr else .ok call.written))⟩
  else if call.deadline ∧ env.timedOut then
    ⟨ring, 0, true, false, .done (call.result (if call.written > 0 then .ok call.written else .error .eagain))⟩
  else ⟨ring, 0, false, false, .park call⟩

/-- The round of a write that has room. -/
def writeChunk (call : WriteCall) (env : RoundEnv) : Option WriteDecision :=
  let slice := call.slice ring.availableWrite
  match env.filterSlice slice with
  | none => some ⟨ring, 0, true, true, .done (call.result (.ok call.data.length))⟩
  | some (toWrite, truncated) =>
    (ring.writeFromSliceBytes (slice.take toWrite)).map fun (n, ring) =>
      let written := call.written + n
      ⟨ring, n, false, truncated, if truncated then .done (call.result (.ok call.data.length))
        else if written = call.data.length ∨ call.nonblock then .done (call.result (.ok written))
        else .again { call with written := written }⟩

/-- A round of `write_from_slice_inner`, or of `write_user_result`. -/
def writeDecision (readEndsClosed : Bool) (call : WriteCall) (env : RoundEnv) :
    Option WriteDecision :=
  if call.user ∧ env.hasFilter then
    -- the rest goes through `write_from_slice_with_deadline`
    some ⟨ring, 0, true, false, .again { call with
        data := call.data.drop call.written
        written := 0
        signalAsEintr := true
        deadline := false
        user := false
        before := call.before + call.written }⟩
  else if readEndsClosed then
    some ⟨ring, 0, true, false,
      .done (call.result (if call.written = 0 then .error .epipe else .ok call.written))⟩
  else if call.mustWait ring.availableWrite then some (writeWait ring call env)
  else writeChunk ring call env

/-- What a reading call wants. -/
inductive ReadKind where
  /-- `read_to_slice_inner` and `read_user_result`: up to `len` bytes. -/
  | read (len : Nat)
  /-- `peek_to_slice_inner`. -/
  | peek (len : Nat)
  /-- `wait_readable_lowat`: that there are `lowat` bytes. -/
  | lowat (lowat : Nat)
  deriving DecidableEq

/-- A reading call. -/
structure ReadCall where
  kind : ReadKind
  nonblock : Bool
  signalAsEintr : Bool
  deadline : Bool
  deriving DecidableEq

/-- What a reading round decides; `took` says whether bytes were taken out. -/
structure ReadDecision where
  ring : PipeRingBuffer
  took : Bool
  leaves : Bool
  ends : RoundEnd ReadCall (List UInt8)

/-- Whether the loop of a reading call has something to return. -/
def ReadCall.satisfied (call : ReadCall) (avail : Nat) (writeEndsClosed : Bool) : Bool :=
  match call.kind with
  | .read _ | .peek _ => decide (avail ≠ 0) || writeEndsClosed
  | .lowat lowat => decide (avail ≥ max lowat 1) || writeEndsClosed || (call.nonblock && decide (avail > 0))

/-- The round of a reading call that has something to return. -/
def readReturn (call : ReadCall) : Option ReadDecision :=
  match call.kind with
  | .read len =>
    if ring.availableRead = 0 then some ⟨ring, false, true, .done (.ok [])⟩
    else (ring.readIntoSlice len).map fun (out, ring) => ⟨ring, true, false, .done (.ok out)⟩
  | .peek len =>
    if ring.availableRead = 0 then some ⟨ring, false, true, .done (.ok [])⟩
    else (ring.peekInto len).map fun out => ⟨ring, false, false, .done (.ok out)⟩
  | .lowat _ => some ⟨ring, false, true, .done (.ok [])⟩

/-- The destination is empty. -/
def ReadCall.isEmpty (call : ReadCall) : Bool := call.kind == .read 0 || call.kind == .peek 0

/-- A round of a reading call. With an empty destination it returns before the loop. -/
def readDecision (writeEndsClosed : Bool) (call : ReadCall) (env : RoundEnv) :
    Option ReadDecision :=
  if call.isEmpty then some ⟨ring, false, false, .done (.ok [])⟩
  else if call.satisfied ring.availableRead writeEndsClosed then readReturn ring call
  else if call.nonblock then some ⟨ring, false, true, .done (.error .eagain)⟩
  else if env.pendingSignal then
    some ⟨ring, false, true, .done (if call.signalAsEintr then .error .eintr else .ok [])⟩
  else if call.deadline ∧ env.timedOut then some ⟨ring, false, true, .done (.error .eagain)⟩
  else some ⟨ring, false, false, .park call⟩

/-! ### The pipe -/

/-- `PipeRingBuffer`, with its endpoints and waiters. The counts are those of the references to the
two `Pipe` objects. -/
structure PipeState where
  ring : PipeRingBuffer
  readEnd : Nat
  writeEnd : Nat
  readEndShutdown : Bool
  writeEndShutdown : Bool
  readEndRefBias : Nat
  writeEndRefBias : Nat
  readWaiters : List Task
  writeWaiters : List Task
  pollWaiters : List Task

namespace PipeState

def allReadEndsClosed (p : PipeState) : Bool := p.readEndShutdown || decide (p.readEnd ≤ p.readEndRefBias)

def allWriteEndsClosed (p : PipeState) : Bool := p.writeEndShutdown || decide (p.writeEnd ≤ p.writeEndRefBias)

end PipeState

/-- `make_pipe`, and `set_end_ref_bias` for a FIFO, which keeps a reference of its own. -/
def makePipe (limits : PipeLimits) (fifo : Bool) : PipeState :=
  { ring := .new limits
    readEnd := 1
    writeEnd := 1
    readEndShutdown := false
    writeEndShutdown := false
    readEndRefBias := if fifo then 1 else 0
    writeEndRefBias := if fifo then 1 else 0
    readWaiters := []
    writeWaiters := []
    pollWaiters := [] }

/-- `pop_reader` and `pop_writer`: the first task that exists, and the list behind it. -/
def popWaiter (view : TaskView) (waiters : List Task) : List Task × List Task :=
  match waiters.dropWhile fun t => !view.upgrade t with
  | [] => ([], [])
  | t :: rest => ([t], rest)

/-- `remove_reader` and `remove_writer`. -/
def removeWaiter (view : TaskView) (task : Task) (waiters : List Task) : List Task :=
  waiters.filter fun t => view.upgrade t && t != task

/-- The pipe after a round, the tasks to wake, and how the round ends. -/
structure PipeRound (κ ρ : Type) where
  pipe : PipeState
  wakeups : List Task
  ends : RoundEnd κ ρ

variable (p : PipeState)

/-- One reader is taken from its list to be woken, and all pollers. -/
def PipeState.wakeReader (view : TaskView) : PipeState × List Task :=
  ({ p with readWaiters := (popWaiter view p.readWaiters).2, pollWaiters := [] },
    (popWaiter view p.readWaiters).1 ++ takeWakeups view p.pollWaiters)

/-- One writer is taken from its list to be woken, and all pollers. -/
def PipeState.wakeWriter (view : TaskView) : PipeState × List Task :=
  ({ p with writeWaiters := (popWaiter view p.writeWaiters).2, pollWaiters := [] },
    (popWaiter view p.writeWaiters).1 ++ takeWakeups view p.pollWaiters)

/-- The ring after a writing round, and the task off its list if it leaves. -/
def PipeState.settleWrite (view : TaskView) (task : Task) (d : WriteDecision) : PipeState :=
  { p with
    ring := d.ring
    writeWaiters := if d.leaves then removeWaiter view task p.writeWaiters else p.writeWaiters }

/-- The ring after a reading round, and the task off its list if it leaves. -/
def PipeState.settleRead (view : TaskView) (task : Task) (d : ReadDecision) : PipeState :=
  { p with
    ring := d.ring
    readWaiters := if d.leaves then removeWaiter view task p.readWaiters else p.readWaiters }

/-- What a writing round does to the waiters. -/
def writeRound (task : Task) (call : WriteCall) (env : RoundEnv) (view : TaskView) :
    Option (PipeRound WriteCall Nat) :=
  (writeDecision p.ring p.allReadEndsClosed call env).map fun d =>
    let p := p.settleWrite view task d
    match d.ends with
    | .park call => ⟨{ p with writeWaiters := pushWaiter view task p.writeWaiters }, [], .park call⟩
    | ends =>
      let (p, wakeups) := if d.wrote > 0 then p.wakeReader view else (p, [])
      ⟨p, wakeups, ends⟩

/-- What a reading round does to the waiters. -/
def readRound (task : Task) (call : ReadCall) (env : RoundEnv) (view : TaskView) :
    Option (PipeRound ReadCall (List UInt8)) :=
  (readDecision p.ring p.allWriteEndsClosed call env).map fun d =>
    let p := p.settleRead view task d
    match d.ends with
    | .park call => ⟨{ p with readWaiters := pushWaiter view task p.readWaiters }, [], .park call⟩
    | ends =>
      let (p, wakeups) := if d.took then p.wakeWriter view else (p, [])
      ⟨p, wakeups, ends⟩

/-! ### Size and endpoints -/

/-- `Pipe::set_pipe_size`: the pollers are woken. -/
def setPipeSize (p : PipeState) (limits : PipeLimits) (size : Nat) (view : TaskView) :
    Option (Except SyscallError Nat × PipeState × List Task) :=
  (p.ring.setPipeSize limits size).map fun (res, ring) =>
    match res with
    | .ok capacity =>
      (.ok capacity, { p with ring := ring, pollWaiters := [] }, takeWakeups view p.pollWaiters)
    | .error e => (.error e, { p with ring := ring }, [])

/-- `shutdown_read_end`, and `on_fd_close` of the last descriptor of the read end. -/
def closeReadEnd (view : TaskView) : PipeState × List Task :=
  ({ p with readEndShutdown := true, writeWaiters := [], pollWaiters := [] },
    drainWaiters view p.writeWaiters ++ takeWakeups view p.pollWaiters)

/-- `shutdown_write_end`, and `on_fd_close` of the last descriptor of the write end. -/
def closeWriteEnd (view : TaskView) : PipeState × List Task :=
  ({ p with writeEndShutdown := true, readWaiters := [], pollWaiters := [] },
    drainWaiters view p.readWaiters ++ takeWakeups view p.pollWaiters)

/-- A reference to the read end is given up; with the last one the `Pipe` object is dropped. -/
def releaseReadEnd (view : TaskView) : PipeState × List Task :=
  let p := { p with readEnd := p.readEnd - 1 }
  if p.readEnd = 0 then
    ({ p with writeWaiters := [], pollWaiters := [] },
      drainWaiters view p.writeWaiters ++ takeWakeups view p.pollWaiters)
  else (p, [])

/-- A reference to the write end is given up. -/
def releaseWriteEnd (view : TaskView) : PipeState × List Task :=
  let p := { p with writeEnd := p.writeEnd - 1 }
  if p.writeEnd = 0 then
    ({ p with readWaiters := [], pollWaiters := [] },
      drainWaiters view p.readWaiters ++ takeWakeups view p.pollWaiters)
  else (p, [])

/-! ### Polling -/

/-- Where a poll is in its loop: the first look, registering, the second look. -/
inductive PollStage where
  | scan
  | register
  | rescan
  deriving DecidableEq

/-- A poll of one end of the pipe, for these events. -/
structure PollCall where
  readable : Bool
  writable : Bool
  pollIn : Bool
  pollOut : Bool
  stage : PollStage
  deriving DecidableEq

/-- `poll_mask`, and what the poll asks for; errors and hangups are always reported. -/
def PollCall.ready (call : PollCall) (p : PipeState) : Bool :=
  (call.readable && ((call.pollIn && decide (p.ring.availableRead > 0)) || p.allWriteEndsClosed)) ||
  (call.writable && (p.allReadEndsClosed ||
    (call.pollOut && decide (p.ring.availableWrite ≥ p.ring.pollWritableThreshold))))

/-- A stage of a poll. `other` says that another descriptor is ready, a signal pending or the time
over. -/
def pollRound (task : Task) (call : PollCall) (other : Bool) (view : TaskView) :
    PipeRound PollCall Unit :=
  match call.stage with
  | .scan =>
    if call.ready p || other then ⟨p, [], .done (.ok ())⟩
    else ⟨p, [], .again { call with stage := .register }⟩
  | .register =>
    ⟨{ p with pollWaiters := addPollWaiterOnce view task p.pollWaiters }, [],
      .again { call with stage := .rescan }⟩
  | .rescan =>
    if call.ready p || other then ⟨p, [], .done (.ok ())⟩ else ⟨p, [], .park { call with stage := .scan }⟩

end HitOS.Pipe
