import HitOS.Ipc.Common

/-!
# Futexes

`syscall/futex.rs`. The queues are behind one lock, the record that a task has of its own wait
(`FutexWaitHandle`) is behind another one. Functions here are what runs under a lock without
interruption; a system call is a sequence of them, and others may run in between.

A waiter has a flag (`in_queue`) that it shares with the task that waits. Flags are numbered in the
order in which they are made. A wait reads the flag after each wakeup, and is over when it is
cleared.

Two places matter for what follows. `requeue` moves waiters under the lock of the queues, and
afterwards corrects the records of the tasks. `remove_tracked_futex_waiter` takes the record first,
and then looks for the waiter in the queue the record names; if it is not there, the flag is cleared
nevertheless.
-/

namespace HitOS.Futex

open Function

open HitOS.Ipc (TaskId)

/-! ### Waiters -/

/-- `FutexKey`: the process, or 0 for a shared futex, and the address. The order is that of the
map. -/
abbrev FutexKey := Nat ×ₗ Nat

def futexBitsetMatchAny : BitVec 32 := 0xffffffff#32

/-- `FutexWaiter`; `inQueue` is the number of its flag. -/
structure FutexWaiter where
  task : TaskId
  bitset : BitVec 32
  inQueue : Nat
  token : Nat
  uaddr : Nat
  deriving DecidableEq

structure FutexWaitHandle where
  key : FutexKey
  inQueue : Nat
  deriving DecidableEq

/-- `FUTEX_QUEUES`, and the flags. -/
structure FutexQueues where
  queues : OrdMap FutexKey (List FutexWaiter)
  flag : Nat → Bool
  /-- The number of the next flag. -/
  nextFlag : Nat

namespace FutexQueues

/-- No one waits. -/
def boot : FutexQueues := ⟨OrdMap.empty, fun _ => false, 0⟩

variable (qs : FutexQueues)

/-- The queue of a key, empty if there is none. -/
def queue (key : FutexKey) : List FutexWaiter := (qs.queues.get? key).getD []

/-- A queue is written back if it is not empty. -/
def putQueue (key : FutexKey) (queue : List FutexWaiter) : FutexQueues :=
  { qs with queues := if queue.isEmpty then qs.queues.erase key else qs.queues.insert key queue }

/-- `in_queue.store(false)`. -/
def clear (flag : Nat) : FutexQueues :=
  { qs with flag := update qs.flag flag false }

/-- The waiters that satisfy a test are taken out of all queues. -/
def removeWhere (test : FutexWaiter → Bool) : FutexQueues :=
  { qs with
    queues := (qs.queues.mapVal fun queue => queue.filter fun w => !test w).filterVal
      fun queue => !queue.isEmpty }

end FutexQueues

/-! ### Waiting -/

/-- What `FUTEX_WAIT` reads from outside: the value at the address before and after the queues are
locked, whether a signal is pending at the three places it looks, and the time limit. -/
structure FutexWaitEnv where
  cur : BitVec 32
  curAfterLock : BitVec 32
  signalFirst : Bool
  signalLocked : Bool
  signalBefore : Bool
  /-- The time limit in nanoseconds if there is one; the inner `none` is a malformed one. -/
  timeout : Option (Option Nat)
  now : Nat

/-- The arguments of `FUTEX_WAIT` and `FUTEX_WAIT_BITSET`; without a bitset it is the former. -/
structure FutexWaitCall where
  uaddr : Nat
  val : BitVec 32
  bitset : Option (BitVec 32)
  key : FutexKey
  token : Nat

/-- The checks of `FUTEX_WAIT` up to the point where the waiter is put into its queue. -/
def FutexWaitCall.check (call : FutexWaitCall) (env : FutexWaitEnv) : Except SyscallError Unit :=
  if call.uaddr = 0 then .error .einval
  else if call.bitset = some 0 then .error .einval
  else if env.cur ≠ call.val then .error (if env.signalFirst then .eintr else .eagain)
  else if env.curAfterLock ≠ call.val then .error (if env.signalLocked then .eintr else .eagain)
  else if env.signalBefore then .error .eintr
  else
    match env.timeout with
    | none => .ok ()
    | some none => .error .einval
    | some (some ns) =>
      -- the limit of `FUTEX_WAIT_BITSET` is a point in time
      let deadline := if call.bitset.isSome then ns else min (env.now + ns) (2 ^ 64 - 1)
      if deadline ≤ env.now then .error .etimedout else .ok ()

def FutexWaitCall.waiter (call : FutexWaitCall) (task : TaskId) (flag : Nat) : FutexWaiter :=
  ⟨task, call.bitset.getD futexBitsetMatchAny, flag, call.token, call.uaddr⟩

variable (qs : FutexQueues)

/-- The waiter is put at the end of its queue, with a new flag. -/
def enqueue (task : TaskId) (call : FutexWaitCall) : FutexQueues :=
  { queues := qs.queues.insert call.key (qs.queue call.key ++ [call.waiter task qs.nextFlag])
    flag := update qs.flag qs.nextFlag true
    nextFlag := qs.nextFlag + 1 }

/-! ### Removing -/

/-- `remove_waiter`; the result says whether there was one. -/
def removeWaiter (flag : Nat) : FutexQueues × Bool :=
  if qs.queues.values.any fun queue => queue.any fun w => w.inQueue == flag then
    ((qs.removeWhere fun w => w.inQueue == flag).clear flag, true)
  else (qs.removeWhere fun w => w.inQueue == flag, false)

/-- The part of `remove_tracked_futex_waiter` under the lock of the queues. -/
def removeTracked (handle : FutexWaitHandle) : FutexQueues × Bool :=
  let queue := qs.queue handle.key
  -- the flag is cleared also if the waiter is not in that queue
  ((qs.putQueue handle.key (queue.filter fun w => !(w.inQueue == handle.inQueue))).clear handle.inQueue,
    queue.any fun w => w.inQueue == handle.inQueue)

/-- The second part of `remove_futex_waiters`: all waiters of a task. -/
def removeTask (task : TaskId) : FutexQueues :=
  let gone := qs.queues.values.flatten.filter fun w => w.task == task
  { qs.removeWhere (fun w => w.task == task) with
    flag := gone.foldl (fun flag w => update flag w.inQueue false) qs.flag }

/-! ### Waking -/

/-- What the loops over a queue carry along. -/
structure WakeAcc where
  flag : Nat → Bool
  woke : Nat
  wakeList : List FutexWaiter
  remain : List FutexWaiter

/-- One waiter of a queue: skipped if its flag is cleared, woken if it matches and there is room. -/
def wakeOne (nrWake : Nat) (test : FutexWaiter → Bool) (acc : WakeAcc) (w : FutexWaiter) : WakeAcc :=
  if acc.flag w.inQueue = false then acc
  else if acc.woke < nrWake ∧ test w then
    { acc with
      flag := update acc.flag w.inQueue false
      woke := acc.woke + 1
      wakeList := acc.wakeList ++ [w] }
  else { acc with remain := acc.remain ++ [w] }

/-- A wake in progress: the queues, how many were woken, and which. -/
structure Waking where
  qs : FutexQueues
  woke : Nat
  wakeList : List FutexWaiter

/-- The loop over the queue of a key. -/
def wakeQueue (nrWake : Nat) (test : FutexWaiter → Bool) (key : FutexKey) (st : Waking) : Waking :=
  match st.qs.queues.get? key with
  | none => st
  | some queue =>
    let acc := queue.foldl (wakeOne nrWake test) ⟨st.qs.flag, st.woke, st.wakeList, []⟩
    ⟨({ st.qs with flag := acc.flag } : FutexQueues).putQueue key acc.remain, acc.woke, acc.wakeList⟩

/-- The loop over the other keys, for waiters at the same address of the same address space. -/
def wakeFallback (nrWake : Nat) (test : FutexWaiter → Bool) : List FutexKey → Waking → Waking
  | [], st => st
  | key :: keys, st =>
    if st.woke ≥ nrWake then st
    else wakeFallback nrWake test keys (wakeQueue nrWake test key st)

/-- Whether a waiter has one of the bits. -/
def FutexWaiter.hasBit (mask : BitVec 32) (w : FutexWaiter) : Bool := w.bitset &&& mask != 0

/-- Whether a waiter waits at this address of this address space. -/
def FutexWaiter.isAt (token uaddr : Nat) (w : FutexWaiter) : Bool := w.token == token && w.uaddr == uaddr

/-- The arguments of `futex_wake_with_mask`. -/
structure FutexWakeCall where
  key : FutexKey
  uaddr : Nat
  nrWake : Nat
  mask : BitVec 32
  fallback : Option (Nat × Nat)

/-- `futex_wake_with_mask`, up to the point where the queues are unlocked. -/
def futexWakeWithMask (call : FutexWakeCall) : Except SyscallError Waking :=
  if call.uaddr = 0 then .error .einval
  else if call.mask = 0 then .error .einval
  else
    let st := wakeQueue call.nrWake (FutexWaiter.hasBit call.mask) call.key ⟨qs, 0, []⟩
    match call.fallback with
    | none => .ok st
    | some (token, uaddr) =>
      if st.woke < call.nrWake then
        .ok (wakeFallback call.nrWake (fun w => w.isAt token uaddr && w.hasBit call.mask)
          (st.qs.queues.keys.filter fun key => key ≠ call.key) st)
      else .ok st

/-! ### Requeueing -/

/-- The loop that wakes: up to `n` waiters are taken from the front, those with a cleared flag
dropped. The second component is what is left of the queue. -/
def popWake : List FutexWaiter → Nat → (Nat → Bool) → List FutexWaiter × List FutexWaiter × (Nat → Bool)
  | [], _, flag => ([], [], flag)
  | w :: queue, 0, flag => ([], w :: queue, flag)
  | w :: queue, n + 1, flag =>
    if flag w.inQueue = false then popWake queue (n + 1) flag
    else
      let (woken, rest, flag) := popWake queue n (update flag w.inQueue false)
      (w :: woken, rest, flag)

/-- The loop that moves. -/
def popMove (flag : Nat → Bool) : List FutexWaiter → Nat → List FutexWaiter × List FutexWaiter
  | [], _ => ([], [])
  | w :: queue, 0 => ([], w :: queue)
  | w :: queue, n + 1 =>
    if flag w.inQueue = false then popMove flag queue (n + 1)
    else
      let (moved, rest) := popMove flag queue n
      (w :: moved, rest)

/-- The arguments of `FUTEX_REQUEUE` and `FUTEX_CMP_REQUEUE`; the latter gives the value it
expects. -/
structure FutexRequeueCall where
  key1 : FutexKey
  key2 : FutexKey
  uaddr : Nat
  uaddr2 : Nat
  token : Nat
  nrWake : Int
  nrRequeue : Int
  expected : Option (BitVec 32)

/-- A requeue in progress: the queues, who was woken and who was moved. -/
structure Requeued where
  qs : FutexQueues
  wakeList : List FutexWaiter
  moved : List FutexWaiter

/-- `FUTEX_REQUEUE` and `FUTEX_CMP_REQUEUE`, up to the point where the queues are unlocked. `cur` is
the value at the address. -/
def futexRequeue (call : FutexRequeueCall) (cur : BitVec 32) :
    Except SyscallError Requeued :=
  if call.uaddr = 0 ∨ call.uaddr2 = 0 then .error .einval
  else if call.nrWake < 0 ∨ call.nrRequeue < 0 then .error .einval
  else if call.expected.any fun v => v != cur then .error .eagain
  else
    match qs.queues.get? call.key1 with
    | none => .ok ⟨qs, [], []⟩
    | some queue1 =>
      let (woken, rest, flag) := popWake queue1 call.nrWake.toNat qs.flag
      let qs := { qs with flag := flag, queues := qs.queues.erase call.key1 }
      if 0 < call.nrRequeue ∧ rest ≠ [] ∧ call.key2 ≠ call.key1 then
        let (moved, rest) := popMove flag rest call.nrRequeue.toNat
        let moved := moved.map fun w => { w with token := call.token, uaddr := call.uaddr2 }
        -- the target queue is made even if nothing arrives in it
        let qs := { qs with queues := qs.queues.insert call.key2 (qs.queue call.key2 ++ moved) }
        .ok ⟨qs.putQueue call.key1 (rest.filter fun w => flag w.inQueue), woken, moved⟩
      else .ok ⟨qs.putQueue call.key1 (rest.filter fun w => flag w.inQueue), woken, []⟩

end HitOS.Futex
