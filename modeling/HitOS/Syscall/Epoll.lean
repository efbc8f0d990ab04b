import HitOS.Lib.GraphWalk
import HitOS.Lib.OrdMap
import HitOS.Fs.Waiters
import HitOS.Syscall.Error

/-!
# Epoll files

`syscall/epoll.rs`. An epoll file watches files by weak references, and may watch epoll files. The
walks over nested epoll files are recursive, here with a bound on the nesting of the calls: `none`
if they go deeper.

A walk first drops the interests whose file is gone. As every operation on interests does so before
it looks at them, the model drops them where the operation writes, and looks past them where it
reads.
-/

namespace HitOS.Epoll

open Function

open Parking (Task)
open Waiters (TaskView)

def epollCtlAdd : Nat := 1
def epollCtlDel : Nat := 2
def epollCtlMod : Nat := 3

def epollIn : BitVec 32 := 0x001
def epollPri : BitVec 32 := 0x002
def epollOut : BitVec 32 := 0x004
def epollErr : BitVec 32 := 0x008
def epollHup : BitVec 32 := 0x010
def epollRdHup : BitVec 32 := 0x2000
def epollEt : BitVec 32 := 0x80000000

def epollReadyMask : BitVec 32 := epollIn ||| epollPri ||| epollOut ||| epollRdHup
def epollAlwaysReportMask : BitVec 32 := epollErr ||| epollHup

def maxEpollNesting : Nat := 5

structure UserEpollEvent where
  events : BitVec 32
  data : BitVec 64
  deriving DecidableEq

/-- `EpollInterest`; the file is a weak reference. -/
structure EpollInterest where
  file : Nat
  events : BitVec 32
  data : BitVec 64
  lastReady : BitVec 32
  oneshotDisabled : Bool
  deriving DecidableEq

/-- A file, as far as epoll goes. -/
inductive File where
  | epoll (interests : OrdMap Nat EpollInterest)
  /-- Any other file, with the answer of `supports_poll`. -/
  | other (supportsPoll : Bool)

/-- The files that exist, the number of the next one, and the tasks that wait at each epoll file. -/
structure Files where
  next : Nat
  file : Nat → Option File
  pollWaiters : Nat → List Task

namespace Files

/-- No file exists. -/
def init : Files := ⟨0, fun _ => none, fun _ => []⟩

def interests (s : Files) (id : Nat) : OrdMap Nat EpollInterest :=
  match s.file id with
  | some (.epoll interests) => interests
  | _ => .empty

variable (s : Files)

/-- `downcast_ref::<EpollFile>()`. -/
def isEpoll (id : Nat) : Bool :=
  match s.file id with
  | some (.epoll _) => true
  | _ => false

/-- `prune_stale_locked`. -/
def pruneStale (interests : OrdMap Nat EpollInterest) : OrdMap Nat EpollInterest :=
  interests.filterVal fun interest => (s.file interest.file).isSome

def snapshotInterests (id : Nat) : List EpollInterest :=
  (s.interests id).values.filter fun interest => (s.file interest.file).isSome

/-- The epoll files that an epoll file watches. -/
def children (id : Nat) : List Nat :=
  ((s.snapshotInterests id).map EpollInterest.file).filter s.isEpoll

def containsEpollRecursive (targetId : Nat) : Nat → Nat → List Nat → Option (Bool × List Nat) :=
  Digraph.searchFrom s.children targetId

def maxDepthRecursive : Nat → Nat → List Nat → Option Nat := Digraph.depthFrom s.children

/-- The calls of a walk over distinct files nest no deeper than this. -/
def callBound : Nat := s.next + 1

def wouldCreateCycle (ep child : Nat) : Option Bool :=
  (s.containsEpollRecursive ep s.callBound child []).map Prod.fst

/-! ### Readiness and waiters -/

def eventWatchMask (events : BitVec 32) : BitVec 32 := (events &&& epollReadyMask) ||| epollAlwaysReportMask

def isEdgeTrigger (events : BitVec 32) : Bool := events &&& epollEt ≠ 0

/-- `file_ready_mask`, with `poll_mask` of the other files and the walk into a nested epoll file. -/
def fileReadyMask (pollMask : Nat → BitVec 32) (peek : Nat → Option Bool) (file : Nat)
    (watchMask : BitVec 32) : Option (BitVec 32) :=
  if s.isEpoll file then
    if watchMask &&& epollIn ≠ 0 then (peek file).map fun ready => if ready then epollIn else 0
    else some 0
  else some (pollMask file &&& watchMask)

/-- Whether an interest fires, in `peek_has_ready_internal`. -/
def fires (pollMask : Nat → BitVec 32) (peek : Nat → Option Bool) (snap : EpollInterest) :
    Option Bool :=
  if snap.oneshotDisabled then some false
  else
    let watchMask := eventWatchMask snap.events
    if watchMask = 0 then some false
    else (s.fileReadyMask pollMask peek snap.file watchMask).map fun readyNow =>
      if isEdgeTrigger snap.events then readyNow &&& ~~~snap.lastReady ≠ 0 else readyNow ≠ 0

/-- One interest after the other, until one fires. -/
def anyFires (fires : EpollInterest → Option Bool) : List EpollInterest → Option Bool
  | [] => some false
  | snap :: snaps =>
    match fires snap with
    | none => none
    | some true => some true
    | some false => anyFires fires snaps

def peekHasReadyInternal (s : Files) (pollMask : Nat → BitVec 32) : Nat → Nat → List Nat → Option Bool
  | 0, _, _ => none
  | fuel + 1, id, visited =>
    if id ∈ visited then some false
    else anyFires (s.fires pollMask fun child => s.peekHasReadyInternal pollMask fuel child (id :: visited))
      (s.snapshotInterests id)

/-- The loop of `register_poll_waiter_internal` over the interests. -/
def registerEach (s : Files) (registerOther : Nat → Bool)
    (register : Nat → (Nat → List Task) → Option (Bool × (Nat → List Task))) :
    List EpollInterest → (Nat → List Task) → Option (Bool × (Nat → List Task))
  | [], waiters => some (true, waiters)
  | snap :: snaps, waiters =>
    if snap.oneshotDisabled then s.registerEach registerOther register snaps waiters
    else if eventWatchMask snap.events = 0 then s.registerEach registerOther register snaps waiters
    else
      match (if s.isEpoll snap.file then register snap.file waiters
        else some (registerOther snap.file, waiters)) with
      | none => none
      | some (false, waiters) => some (false, waiters)
      | some (true, waiters) => s.registerEach registerOther register snaps waiters

/-- `register_poll_waiter_internal`, with `register_poll_waiter` of the other files. -/
def registerPollWaiterInternal (s : Files) (view : TaskView) (registerOther : Nat → Bool) (task : Task) :
    Nat → Nat → List Nat → (Nat → List Task) → Option (Bool × (Nat → List Task))
  | 0, _, _, _ => none
  | fuel + 1, id, visited, waiters =>
    if id ∈ visited then some (true, waiters)
    else
      s.registerEach registerOther (fun child waiters =>
          s.registerPollWaiterInternal view registerOther task fuel child (id :: visited) waiters)
        (s.snapshotInterests id)
        (update waiters id (Waiters.addPollWaiterOnce view task (waiters id)))

/-! ### Interests -/

/-- The interests of an epoll file are replaced. -/
def setInterests (id : Nat) (interests : OrdMap Nat EpollInterest) : Files :=
  { s with file := update s.file id (some (.epoll interests)) }

def addInterest (id fd file : Nat) (event : UserEpollEvent) : Except SyscallError Files :=
  let interests := s.pruneStale (s.interests id)
  if interests.containsKey fd then .error .eexist
  else .ok (s.setInterests id (interests.insert fd ⟨file, event.events, event.data, 0, false⟩))

def modInterest (id fd : Nat) (event : UserEpollEvent) : Except SyscallError Files :=
  let interests := s.pruneStale (s.interests id)
  match interests.get? fd with
  | none => .error .enoent
  | some entry => .ok (s.setInterests id (interests.insert fd { entry with
        events := event.events, data := event.data, lastReady := 0, oneshotDisabled := false }))

def delInterest (id fd : Nat) : Except SyscallError Files :=
  let interests := s.pruneStale (s.interests id)
  if interests.containsKey fd then .ok (s.setInterests id (interests.erase fd)) else .error .enoent

/-- `notify_poll_waiters`: the queue is emptied. -/
def notifyPollWaiters (id : Nat) : Files :=
  { s with pollWaiters := update s.pollWaiters id [] }

/-! ### The system call -/

/-- What `EPOLL_CTL_ADD` tests before it changes anything: `none` if a walk does not end. -/
def addCheck (ep target : Nat) : Option (Option SyscallError) :=
  match s.file target with
  | some (.other supportsPoll) => some (if supportsPoll then none else some .eperm)
  | _ =>
    if target = ep then some (some .einval)
    else do
      let cycle ← s.wouldCreateCycle ep target
      if cycle then return some .eloop
      let depth ← s.maxDepthRecursive s.callBound target []
      if depth ≥ maxEpollNesting then return some .einval
      return none

/-- A call of `syscall_epoll_ctl`: the table of files of the process, the arguments, and the event
as it was read from the user's memory. -/
structure CtlCall where
  files : Nat → Option Nat
  epfd : Nat
  op : Nat
  fd : Nat
  event : Option UserEpollEvent

/-- `get_fd_file`; a table holds its files, so that they exist. -/
def getFdFile (files : Nat → Option Nat) (fd : Nat) : Except SyscallError Nat :=
  match files fd with
  | some id => if (s.file id).isSome then .ok id else .error .ebadf
  | none => .error .ebadf

def getEpollFile (files : Nat → Option Nat) (fd : Nat) : Except SyscallError Nat :=
  match s.getFdFile files fd with
  | .error e => .error e
  | .ok id => if s.isEpoll id then .ok id else .error .einval

/-- The change of the interests. An event was read for `EPOLL_CTL_ADD` and `EPOLL_CTL_MOD`. -/
def changeInterests (c : CtlCall) (ep target : Nat) : Except SyscallError Files :=
  match c.event with
  | some event =>
    if c.op = epollCtlAdd then s.addInterest ep c.fd target event
    else if c.op = epollCtlMod then s.modInterest ep c.fd event
    else s.delInterest ep c.fd
  | none => s.delInterest ep c.fd

/-- The change of the interests, and the wakeup of those that wait at the epoll file. -/
def applyCtl (c : CtlCall) (ep target : Nat) : Except SyscallError Files :=
  match s.changeInterests c ep target with
  | .error e => .error e
  | .ok s' => .ok (s'.notifyPollWaiters ep)

/-- `syscall_epoll_ctl`; `none` if a walk does not end. -/
def syscallEpollCtl (c : CtlCall) : Option (Except SyscallError Files) :=
  match s.getEpollFile c.files c.epfd with
  | .error e => some (.error e)
  | .ok ep =>
    if c.op ≠ epollCtlAdd ∧ c.op ≠ epollCtlDel ∧ c.op ≠ epollCtlMod then some (.error .einval)
    else
      match s.getFdFile c.files c.fd with
      | .error e => some (.error e)
      | .ok target =>
        if c.fd = c.epfd then some (.error .einval)
        else if (c.op = epollCtlAdd ∨ c.op = epollCtlMod) ∧ c.event.isNone then some (.error .efault)
        else if c.op = epollCtlAdd then
          match s.addCheck ep target with
          | none => none
          | some (some e) => some (.error e)
          | some none => some (s.applyCtl c ep target)
        else some (s.applyCtl c ep target)

/-! ### Runs -/

/-- What happens to the files. -/
inductive Op where
  | epollCreate
  /-- A file of another kind is opened. -/
  | openFile (supportsPoll : Bool)
  /-- The last reference to a file is dropped. -/
  | drop (id : Nat)
  | ctl (c : CtlCall)

/-- An operation that succeeds. -/
def exec : Op → Option Files
  | .epollCreate =>
    some { s with next := s.next + 1, file := update s.file s.next (some (.epoll .empty)) }
  | .openFile supportsPoll =>
    some { s with next := s.next + 1, file := update s.file s.next (some (.other supportsPoll)) }
  | .drop id => some { s with file := update s.file id none }
  | .ctl c =>
    match s.syscallEpollCtl c with
    | some (.ok s') => some s'
    | _ => none

/-- The states of runs in which every operation meets a condition where it takes place. -/
def Runs (cond : Files → Op → Prop) : Files → Prop :=
  Reachable (· = init) fun s s' => ∃ op, cond s op ∧ s.exec op = some s'

end Files

end HitOS.Epoll
