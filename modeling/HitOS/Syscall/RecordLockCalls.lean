import HitOS.Lib.Digraph
import HitOS.Lib.OrdMap
import HitOS.Lib.Parking
import HitOS.Syscall.RecordLock

/-!
# Requests for record locks

The commands `F_SETLK`, `F_SETLKW` and their `F_OFD_` forms of `fcntl`, and the release of locks
when a file is closed and when a process exits. The three tables (`RECORD_LOCKS`,
`RECORD_LOCK_WAITERS` and `RECORD_LOCK_BLOCKED`) have locks of their own, so a request is a sequence
of critical sections: its *stages*. One step of a run is one critical section of one task, or a step
of the scheduler, and the steps of different tasks interleave in any order (`step`).

`record_locks_exclude` says that in every state reached the locks of each file exclude each other.
-/

namespace HitOS.RecordLocks

open Function List OrdMap

open Parking (Task Phase wakeAll)

/-! ### Requests -/

structure FileLockKey where
  dev : Nat
  ino : Nat
  deriving DecidableEq

theorem FileLockKey.lex_injective : Function.Injective fun k : FileLockKey => toLex (k.dev, k.ino) := by
  rintro ⟨dev, ino⟩ ⟨dev', ino'⟩ h
  cases h
  rfl

instance : LinearOrder FileLockKey := LinearOrder.lift' _ FileLockKey.lex_injective

structure FcntlFlock where
  lType : Int
  lWhence : Int
  lStart : Int
  lLen : Int
  lPid : Int

/-- What a request looks up of the file: its key, if it has an inode, the address of the open file,
its offset and size, and how it is open. -/
structure LockFile where
  key : Option FileLockKey
  id : Nat
  offset : Nat
  size : Nat
  readable : Bool
  writable : Bool

def i64TryFrom (n : Nat) : Except SyscallError Int := if (n : Int) ≤ i64Max then .ok n else .error .eoverflow

/-- The position that `l_whence` names. -/
def lockBase (file : LockFile) (whence : Int) : Except SyscallError Int :=
  if whence = 0 then .ok 0
  else if whence = 1 then i64TryFrom file.offset
  else if whence = 2 then i64TryFrom file.size
  else .error .einval

def lockRangeFromFlock (file : LockFile) (flock : FcntlFlock) : Except SyscallError LockRange :=
  (lockBase file flock.lWhence).bind fun base =>
    let start := base + flock.lStart
    if hmax : start ≤ i64Max then
      if hstart : start < 0 then .error (if start < -i64Max - 1 then .eoverflow else .einval)
      else if hlen : flock.lLen > 0 then
        if hend : start + (flock.lLen - 1) ≤ i64Max then
          .ok ⟨start, some (start + (flock.lLen - 1)), not_lt.mp hstart, Int.le_add_of_nonneg_right
            (Int.sub_nonneg_of_le hlen), hend⟩
        else .error .eoverflow
      else if hzero : flock.lLen = 0 then
        .ok ⟨start, none, not_lt.mp hstart, hmax, le_refl _⟩
      else if hneg : start + flock.lLen < 0 then .error .einval
      else
        .ok ⟨start + flock.lLen, some (start - 1), not_lt.mp hneg, Int.le_sub_one_of_lt
          (add_lt_of_neg_right start (lt_of_le_of_ne (not_lt.mp hlen) hzero)),
          (sub_one_lt start).le.trans hmax⟩
    else .error .eoverflow

/-- The type in `l_type`, if the file is open for it. -/
def lockTypeFromFlock (file : LockFile) (flock : FcntlFlock) : Except SyscallError LockType :=
  if flock.lType = 0 then if file.readable then .ok .rdlck else .error .ebadf
  else if flock.lType = 1 then if file.writable then .ok .wrlck else .error .ebadf
  else if flock.lType = 2 then .ok .unlck
  else .error .einval

/-- A command that sets or removes locks: `F_OFD_SETLK`, `F_OFD_SETLKW` if `ofd`, and with `W` if
`blocking`. -/
structure LockCommand where
  ofd : Bool
  blocking : Bool

/-- A request, once its arguments are checked. -/
structure LockRequest where
  key : FileLockKey
  owner : RecordLockOwner
  ownerPid : Nat
  lockType : LockType
  range : LockRange
  ofd : Bool
  blocking : Bool
  /-- Without `F_OFD_` the owner is the process. -/
  posix : ofd = false → owner = .process ownerPid
  /-- With it, the open file. -/
  openFile : ofd = true → ∃ id, owner = .openFile id
  deriving DecidableEq

def lockRequest (cmd : LockCommand) (file : LockFile) (flock : FcntlFlock) (pid : Nat) :
    Except SyscallError LockRequest :=
  if cmd.ofd ∧ flock.lPid ≠ 0 then .error .einval
  else match file.key with
    | none => .error .einval
    | some key =>
      (lockRangeFromFlock file flock).bind fun range =>
        (lockTypeFromFlock file flock).map fun lockType =>
          { key := key
            owner := if cmd.ofd then .openFile file.id else .process pid
            ownerPid := pid
            lockType := lockType
            range := range
            ofd := cmd.ofd
            blocking := cmd.blocking
            posix := fun h => by simp [h]
            openFile := fun h => ⟨file.id, by simp [h]⟩ }

variable {req : LockRequest} {t : Task}

theorem lockRequest_owner {cmd : LockCommand} {file : LockFile} {flock : FcntlFlock} {pid : Nat}
    (h : lockRequest cmd file flock pid = .ok req) : req.ownerPid = pid ∧ req.ofd = cmd.ofd := by
  unfold lockRequest at h
  split at h
  · cases h
  split at h
  · cases h
  cases hrange : lockRangeFromFlock file flock with
  | error => simp [hrange, Except.bind] at h
  | ok =>
    cases htype : lockTypeFromFlock file flock with
    | error => simp [hrange, htype, Except.bind, Except.map] at h
    | ok =>
      simp only [hrange, htype, Except.bind, Except.map, Except.ok.injEq] at h
      subst h
      exact ⟨rfl, rfl⟩

/-! ### The tables -/

structure WaitingRecordLock where
  key : FileLockKey
  reqType : LockType
  range : LockRange
  deriving DecidableEq

structure LockTables where
  locks : OrdMap FileLockKey (List RecordLock)
  /-- `RECORD_LOCK_WAITERS`; a queue that is empty is not there. -/
  waiters : FileLockKey → List Task
  blocked : OrdMap Nat WaitingRecordLock
  /-- The files whose waiters a close or an exit has still to wake. -/
  toWake : List FileLockKey

def locksOf (table : OrdMap FileLockKey (List RecordLock)) (key : FileLockKey) : List RecordLock :=
  (table.get? key).getD []

/-- `table.entry(key)` changed, and removed if nothing is left in it. -/
def setLocks (table : OrdMap FileLockKey (List RecordLock)) (key : FileLockKey) (locks : List RecordLock) :
    OrdMap FileLockKey (List RecordLock) :=
  if locks.isEmpty then table.erase key else table.insert key locks

def LockRequest.conflictsWith (req : LockRequest) (lock : RecordLock) : Bool :=
  lockConflicts req.lockType req.range req.owner lock

def LockRequest.conflicts (req : LockRequest) (table : OrdMap FileLockKey (List RecordLock)) : Bool :=
  (locksOf table req.key).any req.conflictsWith

/-- `collect_conflict_process_owners`: in increasing order, each once. -/
def collectConflictProcessOwners (locks : List RecordLock) (reqType : LockType) (range : LockRange)
    (ownerPid : Nat) : List Nat :=
  ((locks.filterMap fun lock =>
    match lock.owner with
    | .process pid => if lockConflicts reqType range (.process ownerPid) lock then some pid else none
    | .openFile _ => none).dedup).insertionSort (· ≤ ·)

/-- The processes that the wait of a process is for, as the tables have it. -/
def waitsOn (locks : OrdMap FileLockKey (List RecordLock)) (blocked : OrdMap Nat WaitingRecordLock)
    (pid : Nat) : List Nat :=
  match blocked.get? pid with
  | none => []
  | some waiting => collectConflictProcessOwners (locksOf locks waiting.key) waiting.reqType waiting.range pid

def detectRecordLockDeadlock (locks : OrdMap FileLockKey (List RecordLock))
    (blocked : OrdMap Nat WaitingRecordLock) (waiterPid : Nat) (conflictOwners : List Nat) : Bool :=
  Digraph.search (waitsOn locks blocked) blocked.keys waiterPid conflictOwners

/-! ### Stages -/

/-- Where a request is. -/
inductive LockStage where
  /-- `clear_record_lock_waiting`, before the loop. -/
  | clear
  /-- The conflict test, and the change of the locks if there is no conflict. -/
  | test
  /-- `wake_record_lock_waiters`, after a change. -/
  | wake
  | detect (conflictOwners : List Nat)
  /-- `set_record_lock_waiting`. -/
  | register
  /-- `enqueue_record_lock_waiter`. -/
  | enqueue
  /-- The second conflict test. -/
  | recheck
  /-- `has_pending_unmasked_signal`, and then the task blocks. -/
  | signal
  /-- Switched in again. -/
  | resumed
  /-- `remove_record_lock_waiter` and `clear_record_lock_waiting` inside the loop, which then goes
  round (`none`) or is left with an error. -/
  | dequeue (error : Option SyscallError)
  | unregister (error : Option SyscallError)
  /-- The same behind the loop. -/
  | leave (result : Except SyscallError Unit)
  | finish (result : Except SyscallError Unit)
  deriving DecidableEq

/-- A request and its stage. -/
structure LockCall where
  req : LockRequest
  stage : LockStage
  deriving DecidableEq

/-- What follows a stage. -/
inductive LockNext where
  | goTo (stage : LockStage)
  /-- The task blocks. -/
  | park
  | returns (result : Except SyscallError Unit)

def LockRequest.clearWaiting (req : LockRequest) (s : LockTables) : LockTables :=
  if req.ofd then s else { s with blocked := s.blocked.erase req.ownerPid }

/-- The record of a request in `RECORD_LOCK_BLOCKED`. -/
def LockRequest.waiting (req : LockRequest) : WaitingRecordLock := ⟨req.key, req.lockType, req.range⟩

def takeRecordLockWaiters (s : LockTables) (key : FileLockKey) : LockTables × List Task :=
  ({ s with waiters := update s.waiters key [] }, s.waiters key)

def enqueueRecordLockWaiter (s : LockTables) (key : FileLockKey) (t : Task) : LockTables :=
  if t ∈ s.waiters key then s
  else { s with waiters := update s.waiters key (s.waiters key ++ [t]) }

def removeRecordLockWaiter (s : LockTables) (key : FileLockKey) (t : Task) : LockTables :=
  { s with waiters := update s.waiters key ((s.waiters key).filter (· ≠ t)) }

/-- The critical section of a stage: the tables, the tasks to wake, and what follows. -/
def lockStage (s : LockTables) (t : Task) (req : LockRequest) (signal : Bool) :
    LockStage → LockTables × List Task × LockNext
  | .clear => (req.clearWaiting s, [], .goTo .test)
  | .test =>
    if req.conflicts s.locks then
      (s, [], .goTo (if req.blocking = false then .leave (.error .eagain)
        else if req.ofd then .enqueue
        else .detect (collectConflictProcessOwners (locksOf s.locks req.key) req.lockType req.range
          req.ownerPid)))
    else
      let (locks, changed) :=
        applyRecordLockForOwner (locksOf s.locks req.key) req.owner req.ownerPid req.lockType req.range
      ({ s with locks := setLocks s.locks req.key locks }, [],
        .goTo (if changed then .wake else .leave (.ok ())))
  | .wake =>
    let (s, tasks) := takeRecordLockWaiters s req.key
    (s, tasks, .goTo (.leave (.ok ())))
  | .detect conflictOwners =>
    (s, [], .goTo (if detectRecordLockDeadlock s.locks s.blocked req.ownerPid conflictOwners then
        .leave (.error .edeadlk)
      else .register))
  | .register => ({ s with blocked := s.blocked.insert req.ownerPid req.waiting }, [], .goTo .enqueue)
  | .enqueue => (enqueueRecordLockWaiter s req.key t, [], .goTo .recheck)
  | .recheck => (s, [], .goTo (if req.conflicts s.locks then .signal else .dequeue none))
  | .signal => (s, [], if signal then .goTo (.dequeue (some .eintr)) else .park)
  | .resumed => (s, [], .goTo (if signal then .dequeue (some .eintr) else .test))
  | .dequeue error => (removeRecordLockWaiter s req.key t, [], .goTo (.unregister error))
  | .unregister error =>
    (req.clearWaiting s, [], .goTo (match error with
      | none => .test
      | some e => .leave (.error e)))
  | .leave result =>
    -- only a blocking request has a task to remove
    (if req.blocking then removeRecordLockWaiter s req.key t else s, [], .goTo (.finish result))
  | .finish result => (req.clearWaiting s, [], .returns result)

/-! ### Runs -/

/-- The phase of the task after a stage. -/
def LockNext.phase (req : LockRequest) (waited : Bool) : LockNext → Phase LockCall
  | .goTo stage => .trying ⟨req, stage⟩ waited
  | .park => .parking ⟨req, .resumed⟩ false
  | .returns _ => .idle

/-- The tables, the tasks, and the wakeups that are still to be delivered. -/
abbrev LockWorld := Parking.World LockTables LockCall

/-- Nothing is locked. -/
def lockBoot : LockWorld := .boot ⟨.empty, fun _ => [], .empty, []⟩

/-- What happens. -/
inductive LockEvent where
  | call (t : Task) (cmd : LockCommand) (file : LockFile) (flock : FcntlFlock) (pid : Nat)
  /-- The task goes through the critical section of its stage; `signal` says whether a signal is
  pending. -/
  | advance (t : Task) (signal : Bool)
  | switchOut (t : Task)
  | resume (t : Task)
  | deliver (t : Task)
  /-- A signal wakes the task. -/
  | disturb (t : Task)
  /-- `remove_process_record_locks_for_key`, when a descriptor is closed. -/
  | close (pid : Nat) (key : FileLockKey)
  /-- The two critical sections of `release_all_record_locks_for_owner`. -/
  | exitClear (pid : Nat)
  | exitRelease (pid : Nat)
  /-- `wake_record_lock_waiters`, after a close or an exit. -/
  | wakeKey (key : FileLockKey)

/-- The locks that a close leaves. -/
def keptByClose (pid : Nat) (lock : RecordLock) : Bool := lock.owner != .process pid

/-- The locks that an exit leaves. -/
def keptByExit (pid : Nat) (lock : RecordLock) : Bool := lock.ownerPid != pid

/-- The files whose locks the exit changes. -/
def exitKeys (locks : OrdMap FileLockKey (List RecordLock)) (pid : Nat) : List FileLockKey :=
  (locks.filterVal fun locks => (locks.filter (keptByExit pid)).length != locks.length).keys

/-- **A step**; `none` if the event is not possible. -/
def step (w : LockWorld) : LockEvent → Option LockWorld
  | .call t cmd file flock pid =>
    match w.phase t, lockRequest cmd file flock pid with
    | .idle, .ok req => some (w.goto t (.trying ⟨req, .clear⟩ false))
    | .idle, .error _ => some w
    | _, _ => none
  | .advance t signal =>
    match w.phase t with
    | .trying ⟨req, stage⟩ waited =>
      let (s, tasks, next) := lockStage w.shared t req signal stage
      some ⟨s, update w.phase t (next.phase req waited), w.later ++ tasks⟩
    | _ => none
  | .switchOut t =>
    match w.phase t with
    | .parking c woken => some (w.goto t (if woken then .ready c else .blocked c))
    | _ => none
  | .resume t =>
    match w.phase t with
    | .ready c => some (w.goto t (.trying ⟨c.req, .resumed⟩ true))
    | _ => none
  | .deliver t =>
    if t ∈ w.later then some ⟨w.shared, wakeAll [t] w.phase, w.later.erase t⟩ else none
  | .disturb t => some { w with phase := wakeAll [t] w.phase }
  | .close pid key =>
    let locks := locksOf w.shared.locks key
    let kept := locks.filter (keptByClose pid)
    some { w with shared :=
      { w.shared with
        locks := setLocks w.shared.locks key kept
        toWake := if kept.length ≠ locks.length then key :: w.shared.toWake else w.shared.toWake } }
  | .exitClear pid => some { w with shared := { w.shared with blocked := w.shared.blocked.erase pid } }
  | .exitRelease pid =>
    some { w with shared :=
      { w.shared with
        locks := (w.shared.locks.mapVal fun locks => locks.filter (keptByExit pid)).filterVal (!·.isEmpty)
        toWake := exitKeys w.shared.locks pid ++ w.shared.toWake } }
  | .wakeKey key =>
    if key ∈ w.shared.toWake then
      let (s, tasks) := takeRecordLockWaiters { w.shared with toWake := w.shared.toWake.erase key } key
      some { w with shared := s, later := w.later ++ tasks }
    else none

/-- The states that are reached by steps that meet a condition. -/
abbrev LockReachable (cond : LockWorld → LockEvent → Prop) : LockWorld → Prop :=
  Reachable (· = lockBoot) (fun w w' => ∃ e, cond w e ∧ step w e = some w')

theorem LockReachable.run {w w' : LockWorld} {es : List LockEvent} (h : LockReachable (fun _ _ => True) w)
    (hrun : es.foldlM step w = some w') : LockReachable (fun _ _ => True) w' :=
  foldlM_invariant h (fun _ e _ _ h hstep => h.step ⟨e, trivial, hstep⟩) hrun

/-! ### The locks along a run -/

section Locks

variable {table : OrdMap FileLockKey (List RecordLock)} {key key' : FileLockKey} {locks : List RecordLock}
  {s : LockTables}

theorem locksOf_setLocks :
    locksOf (setLocks table key locks) key' = if key' = key then locks else locksOf table key' := by
  unfold setLocks locksOf
  split
  · next hempty =>
    rw [get?_erase]
    split
    · rw [isEmpty_iff.mp hempty]
      rfl
    · rfl
  · rw [get?_insert]
    split <;> rfl

theorem locksOf_exitRelease {keep : RecordLock → Bool} :
    locksOf ((table.mapVal fun locks => locks.filter keep).filterVal (!·.isEmpty)) key =
      (locksOf table key).filter keep := by
  unfold locksOf
  rw [get?_filterVal, get?_mapVal]
  cases table.get? key with
  | none => rfl
  | some locks =>
    cases hkept : locks.filter keep with
    | nil | cons => simp [Option.filter, hkept]

/-- What a step does to the locks: nothing, a request that conflicts with none, or some are
removed. -/
inductive LocksEffect (table table' : OrdMap FileLockKey (List RecordLock)) : Prop
  | granted (req : LockRequest) (hfree : req.conflicts table = false) (heq : table' = setLocks table req.key
        (applyRecordLockForOwner (locksOf table req.key) req.owner req.ownerPid req.lockType req.range).1)
  | shrinks (hsub : ∀ key, locksOf table' key ⊆ locksOf table key)

theorem LocksEffect.same : LocksEffect table table := .shrinks fun _ => List.Subset.refl _

theorem enqueueRecordLockWaiter_locks : (enqueueRecordLockWaiter s key t).locks = s.locks := by
  unfold enqueueRecordLockWaiter
  split <;> rfl

theorem clearWaiting_locks : (req.clearWaiting s).locks = s.locks := by
  unfold LockRequest.clearWaiting
  split <;> rfl

/-- Only the conflict test changes the locks. -/
theorem lockStage_locks {signal : Bool} {stage : LockStage} :
    LocksEffect s.locks (lockStage s t req signal stage).1.locks := by
  cases stage with
  | test =>
    simp only [lockStage]
    split
    · exact .same
    · next hconflict => exact .granted req (eq_false_of_ne_true hconflict) rfl
  | clear | unregister | finish => simpa only [lockStage, clearWaiting_locks] using LocksEffect.same
  | enqueue => simpa only [lockStage, enqueueRecordLockWaiter_locks] using LocksEffect.same
  | leave =>
    simp only [lockStage]
    split <;> exact .same
  | wake | detect | register | recheck | signal | resumed | dequeue => exact .same

theorem step_locks {w w' : LockWorld} {e : LockEvent} (h : step w e = some w') :
    LocksEffect w.shared.locks w'.shared.locks := by
  cases e with
  | call =>
    simp only [step] at h
    split at h <;> cases h
    · exact .same
    · exact .same
  | advance =>
    simp only [step] at h
    split at h
    · cases h
      exact lockStage_locks
    · cases h
  | switchOut t | resume t | deliver | wakeKey =>
    simp only [step] at h
    split at h <;> cases h
    exact .same
  | disturb t | exitClear pid =>
    cases h
    exact .same
  | close =>
    cases h
    refine .shrinks fun _ => ?_
    simp only [locksOf_setLocks]
    split
    · next heq =>
      rw [heq]
      exact filter_sublist.subset
    · exact List.Subset.refl _
  | exitRelease =>
    cases h
    refine .shrinks fun _ => ?_
    simp only [locksOf_exitRelease]
    exact filter_sublist.subset

def AllExclusive (table : OrdMap FileLockKey (List RecordLock)) : Prop := ∀ key, Exclusive (locksOf table key)

theorem LocksEffect.exclusive {table' : OrdMap FileLockKey (List RecordLock)} (h : LocksEffect table table')
    (hex : AllExclusive table) : AllExclusive table' := by
  intro key
  cases h with
  | granted req hfree heq =>
    subst heq
    rw [locksOf_setLocks]
    split
    · refine (hex req.key).apply fun lock hlock => ?_
      exact Bool.eq_false_iff.mpr (any_eq_false.mp hfree lock hlock)
    · exact hex key
  | shrinks hsub => exact fun a ha b hb => hex key a (hsub key ha) b (hsub key hb)

end Locks

/-- **Record locks exclude.** In every state that any requests, unlocks, closes and exits lead to,
in any interleaving of their critical sections, no two locks of a file that belong to different
owners, one of them a write lock, have a byte in common. -/
theorem record_locks_exclude {w : LockWorld} (h : LockReachable (fun _ _ => True) w) (key : FileLockKey)
    {a b : RecordLock} (ha : a ∈ locksOf w.shared.locks key) (hb : b ∈ locksOf w.shared.locks key)
    (howner : a.owner ≠ b.owner) (hwrite : a.lockType = .wrlck ∨ b.lockType = .wrlck) :
    ¬ ∃ byte, a.range.Covers byte ∧ b.range.Covers byte := by
  have hall : AllExclusive w.shared.locks := by
    refine Reachable.invariant (I := fun w : LockWorld => AllExclusive w.shared.locks) ?_ ?_ h
    · rintro _ rfl
      exact fun _ => Exclusive.nil
    · rintro w w' hex ⟨e, -, hstep⟩
      exact (step_locks hstep).exclusive hex
  exact hall key a ha b hb howner hwrite

/-- A file of 100 bytes. -/
def someFile : LockFile := ⟨some ⟨1, 2⟩, 7, 0, 100, true, true⟩

/-- A request that is granted, from the call to its return. -/
def grantedCall (t : Task) (blocking : Bool) (flock : FcntlFlock) (pid : Nat) : List LockEvent :=
  [.call t ⟨false, blocking⟩ someFile flock pid, .advance t false, .advance t false, .advance t false,
    .advance t false, .advance t false]

/-- One process locks the first ten bytes for writing, another the rest of the file for reading. -/
theorem record_locks_exclude_neighbours : ∃ w a b, LockReachable (fun _ _ => True) w ∧
    a ∈ locksOf w.shared.locks ⟨1, 2⟩ ∧ b ∈ locksOf w.shared.locks ⟨1, 2⟩ ∧ a.owner ≠ b.owner ∧
    a.lockType = .wrlck ∧ a.range.last = some 9 ∧ b.range.start = 10 ∧
    ¬ ∃ byte, a.range.Covers byte ∧ b.range.Covers byte := by
  let events := grantedCall 1 false ⟨1, 0, 0, 10, 0⟩ 1 ++ grantedCall 2 false ⟨0, 0, 10, 0, 0⟩ 2
  let a : RecordLock := ⟨.process 1, 1, .wrlck, ⟨0, some 9, by decide, by decide, by decide⟩⟩
  let b : RecordLock := ⟨.process 2, 2, .rdlck, ⟨10, none, by decide, by decide, by decide⟩⟩
  have hlocks : (events.foldlM step lockBoot).map (fun w => locksOf w.shared.locks ⟨1, 2⟩) = some [a, b] := by
    decide +kernel
  obtain ⟨w, hrun, hw⟩ := Option.map_eq_some_iff.mp hlocks
  have hreach : LockReachable (fun _ _ => True) w := LockReachable.run (.start rfl) hrun
  have ha : a ∈ locksOf w.shared.locks ⟨1, 2⟩ := by simp [hw]
  have hb : b ∈ locksOf w.shared.locks ⟨1, 2⟩ := by simp [hw]
  exact ⟨w, a, b, hreach, ha, hb, by decide, rfl, rfl, rfl,
    record_locks_exclude hreach ⟨1, 2⟩ ha hb (by decide) (.inl rfl)⟩

end HitOS.RecordLocks
