import HitOS.Ipc.Common

/-!
# SysV semaphores

`syscall/sysv_ipc/sem.rs`. A semaphore set belongs to an IPC namespace; the adjustments of
`SEM_UNDO` are kept in a table of their own, by process.

Every operation holds the lock of the managers while it reads and changes them, so each is a
function of the state (`SemState`) that yields the state afterwards and the tasks it wakes. `semop`
is a loop that blocks between its rounds; `doSemopOps` is one round. Time, signals and user memory
come as arguments.
-/

namespace HitOS.Ipc

open Function Prod OrdMap

/-! ### Constants -/

abbrev semvmx : Int := 32767

abbrev semaem : Int := semvmx

def semR : Nat := 0o400

def semA : Nat := 0o200

/-- The limits of `/proc/sys/kernel/sem`, as `write_sem_sysctl` admits them. -/
structure SemLimits where
  semmsl : Nat
  semmns : Nat
  semopm : Nat
  semmni : Nat
  bounded : ∀ v ∈ [semmsl, semmns, semopm, semmni], v ≠ 0 ∧ v ≤ 2 ^ 31 - 1
  semmsl_le : semmsl ≤ semmns

/-- `SEMMSL`, `SEMMNS`, `SEMOPM` and `SEMMNI`. -/
def SemLimits.default : SemLimits := ⟨32000, 1024000000, 500, 32000, by decide, by decide⟩

/-- The saturating sum of two `i32`. -/
def satAdd32 (a b : Int) : Int := max (-2 ^ 31) (min (a + b) (2 ^ 31 - 1))

/-! ### State -/

structure SemEntry where
  val : Int
  lastPid : Nat
  ncntWaiters : List TaskId
  zcntWaiters : List TaskId
  deriving DecidableEq, Repr

def SemEntry.new : SemEntry := ⟨0, 0, [], []⟩

structure SemSet where
  id : Nat
  key : Option Nat
  perm : IpcPermKernel
  sems : List SemEntry
  otime : Int
  ctime : Int
  deriving DecidableEq

/-- Assignment through `set.sems.get_mut(idx)`. -/
def SemSet.putSem (set : SemSet) (idx : Nat) (sem : SemEntry) : SemSet :=
  { set with sems := set.sems.set idx sem }

structure SemManager where
  nextId : Nat
  sets : OrdMap Nat SemSet
  key2id : OrdMap Nat Nat

/-- `SemManager::default`. -/
def SemManager.new : SemManager := ⟨0, empty, empty⟩

structure SemUndoEntry where
  ipcNsId : Nat
  semid : Nat
  semnum : Nat
  adj : Int
  deriving DecidableEq, Repr

/-- `SEM_MANAGERS` and `SEM_UNDOS`. A namespace that has no manager yet counts as one with an empty
one, a process without adjustments as one with an empty list. -/
structure SemState where
  managers : Nat → SemManager
  undos : Nat → List SemUndoEntry

/-- Nothing has been created yet. -/
def SemState.boot : SemState := ⟨fun _ => .new, fun _ => []⟩

/-- What an operation leaves behind: the state, the tasks woken under the lock, those woken after it
is released, and the value returned. -/
structure SemEffect (α : Type) where
  st : SemState
  woken : List TaskId
  later : List TaskId
  ret : α

/-- An operation that changes nothing. -/
def SemState.returns {α : Type} (st : SemState) (ret : α) : SemEffect α := ⟨st, [], [], ret⟩

variable (st : SemState)

/-- The semaphore set of a namespace. -/
def SemState.set? (ns semid : Nat) : Option SemSet := (st.managers ns).sets.get? semid

/-- Assignment through `managers.get_mut(&ns)`. -/
def SemState.putManager (ns : Nat) (mgr : SemManager) : SemState :=
  { st with managers := update st.managers ns mgr }

/-- Assignment through `mgr.sets.get_mut(&semid)`. -/
def SemState.putSet (ns semid : Nat) (set : SemSet) : SemState :=
  st.putManager ns { st.managers ns with sets := (st.managers ns).sets.insert semid set }

/-! ### Managers -/

def SemManager.allocId (mgr : SemManager) : SemManager × Nat :=
  let start := if mgr.nextId < 1 then 1 else mgr.nextId
  let id := nextFree mgr.sets.containsKey mgr.sets.size start
  ({ mgr with nextId := wrapAdd id 1 }, id)

/-- `remove_set`: the manager afterwards and the tasks to wake. -/
def SemManager.removeSet (mgr : SemManager) (id : Nat) : SemManager × List TaskId :=
  match mgr.sets.get? id with
  | none => (mgr, [])
  | some set =>
    ({ mgr with
        sets := mgr.sets.erase id
        key2id := match set.key with
          | some key => if mgr.key2id.get? key = some id then mgr.key2id.erase key else mgr.key2id
          | none => mgr.key2id },
      set.sems.flatMap fun sem => sem.ncntWaiters ++ sem.zcntWaiters)

/-! ### Waking -/

/-- `wake_sem_waiters`: the semaphore afterwards and the tasks woken. -/
def wakeSemWaiters (sem : SemEntry) : SemEntry × List TaskId :=
  if sem.val = 0 then ({ sem with zcntWaiters := [] }, sem.zcntWaiters)
  else if 0 < sem.val then ({ sem with ncntWaiters := [] }, sem.ncntWaiters)
  else (sem, [])

/-! ### Adjustments -/

/-- The entry is for a semaphore. -/
def SemUndoEntry.isFor (entry : SemUndoEntry) (ns semid semnum : Nat) : Bool :=
  entry.ipcNsId == ns && entry.semid == semid && entry.semnum == semnum

def clearUndoForSem (undos : Nat → List SemUndoEntry) (ns semid semnum : Nat) : Nat → List SemUndoEntry :=
  fun pid => (undos pid).filter fun entry => !entry.isFor ns semid semnum

def clearUndoForSet (undos : Nat → List SemUndoEntry) (ns semid : Nat) : Nat → List SemUndoEntry :=
  fun pid => (undos pid).filter fun entry => !(entry.ipcNsId == ns && entry.semid == semid)

/-- `entries.iter().find(..).map(|entry| entry.adj).unwrap_or(0)`. -/
def currentAdj (entries : List SemUndoEntry) (ns semid semnum : Nat) : Int :=
  ((entries.find? fun entry => entry.isFor ns semid semnum).map SemUndoEntry.adj).getD 0

/-- The first loop of `record_sem_undo`: every adjustment stays in range. A `checked_add` that fails
is out of range too. -/
def undoInRange (entries : List SemUndoEntry) (ns semid : Nat) (deltas : List Int) : Bool :=
  deltas.zipIdx.all fun (delta, semnum) =>
    delta == 0 || (-semaem ≤ currentAdj entries ns semid semnum + delta &&
        currentAdj entries ns semid semnum + delta ≤ semaem)

/-- `entry.adj += delta` on the first entry for the semaphore, or a new entry. -/
def addAdj (ns semid semnum : Nat) (delta : Int) : List SemUndoEntry → List SemUndoEntry
  | [] => [⟨ns, semid, semnum, delta⟩]
  | entry :: entries =>
    if entry.isFor ns semid semnum then { entry with adj := entry.adj + delta } :: entries
    else entry :: addAdj ns semid semnum delta entries

/-- The second loop of `record_sem_undo`, from the semaphore `semnum` on. -/
def addAdjs (ns semid : Nat) : Nat → List Int → List SemUndoEntry → List SemUndoEntry
  | _, [], entries => entries
  | semnum, delta :: deltas, entries =>
    addAdjs ns semid (semnum + 1) deltas (if delta = 0 then entries else addAdj ns semid semnum delta entries)

def recordSemUndo (undos : Nat → List SemUndoEntry) (pid ns semid : Nat) (deltas : List Int) :
    Except SyscallError (Nat → List SemUndoEntry) :=
  if deltas.all (· == 0) then .ok undos
  else if !undoInRange (undos pid) ns semid deltas then .error .erange
  else
    .ok (update undos pid
      ((addAdjs ns semid 0 deltas (undos pid)).filter fun entry => entry.adj ≠ 0))

/-- The body of the loop of `exit_cleanup`: one adjustment is applied. -/
def applyUndo (pid : Nat) (now : Int) (acc : SemState × List TaskId) (entry : SemUndoEntry) :
    SemState × List TaskId :=
  match acc.1.set? entry.ipcNsId entry.semid with
  | none => acc
  | some set =>
    match set.sems[entry.semnum]? with
    | none => acc
    | some sem =>
      let next := max 0 (min (satAdd32 sem.val entry.adj) semvmx)
      if next = sem.val then acc
      else
        let (sem', woken) := wakeSemWaiters { sem with val := next, lastPid := pid }
        (acc.1.putSet entry.ipcNsId entry.semid { set.putSem entry.semnum sem' with otime := now },
          acc.2 ++ woken)

def exitCleanup (pid : Nat) (now : Int) : SemEffect Unit :=
  let cleared : SemState := { st with undos := update st.undos pid [] }
  let (st', woken) := (st.undos pid).foldl (applyUndo pid now) (cleared, [])
  ⟨st', woken, [], ()⟩

/-! ### `semget` -/

structure SemgetFlags where
  creat : Bool
  excl : Bool
  mode : Nat

def semget (limits : SemLimits) (ns : Nat) (cred : Cred) (key : BitVec 64)
    (nsems : Nat) (flags : SemgetFlags) (now : Int) : SemEffect (Except SyscallError Nat) :=
  let mgr := st.managers ns
  let key32 := (key.setWidth 32).toNat
  match if key = 0 then none else mgr.key2id.get? key32 with
  | some id =>
    if flags.creat ∧ flags.excl then st.returns (.error .eexist)
    else
      match mgr.sets.get? id with
      | none => st.returns (.error .enoent)
      | some set =>
        if nsems ≠ 0 ∧ nsems > set.sems.length then st.returns (.error .einval)
        else if !checkIpcAccess set.perm (flags.mode &&& 0o700) cred then st.returns (.error .eacces)
        else st.returns (.ok id)
  | none =>
    if key ≠ 0 ∧ !flags.creat then st.returns (.error .enoent)
    else if nsems = 0 ∨ nsems > limits.semmsl then st.returns (.error .einval)
    else if mgr.sets.size ≥ limits.semmni then st.returns (.error .enospc)
    else if satAdd (mgr.sets.values.foldl (fun acc set => satAdd acc set.sems.length) 0) nsems >
      limits.semmns then st.returns (.error .enospc)
    else
      let (mgr, id) := mgr.allocId
      let key? := if key = 0 then none else some key32
      let set : SemSet :=
        { id := id
          key := key?
          perm := ⟨key32, cred.euid, cred.egid, cred.euid, cred.egid, flags.mode &&& 0o777⟩
          sems := List.replicate nsems .new
          otime := 0
          ctime := now }
      let mgr' : SemManager :=
        { mgr with
          sets := mgr.sets.insert id set
          key2id := match key? with
            | some k => mgr.key2id.insert k id
            | none => mgr.key2id }
      ⟨st.putManager ns mgr', [], [], .ok id⟩

/-! ### `semctl` -/

/-- The commands of `semctl` on a set that change the state, with what they read from user
memory. -/
inductive SemCmd where
  | ipcRmid
  /-- The owner and mode of the `semid_ds`, if it can be read. -/
  | ipcSet (ds : Option (Nat × Nat × Nat))
  /-- The values, if they can be read. -/
  | setAll (vals : Option (Nat → BitVec 16))
  | setVal (arg : BitVec 64)
  | getNcnt
  | getZcnt

/-- The loop of `SETALL`. -/
def SemSet.setAll (set : SemSet) (vals : Nat → BitVec 16) (pid : Nat) (now : Int) : SemSet × List TaskId :=
  let results := set.sems.mapIdx fun i sem =>
    wakeSemWaiters { sem with val := (vals i).toNat, lastPid := pid }
  ({ set with sems := results.map fst, otime := now }, results.flatMap snd)

/-- `syscall_semctl`. `alive` and `blocked` are the states of the tasks, which the counts read. -/
def semctl (alive blocked : TaskId → Bool) (ns : Nat) (cred : Cred)
    (semid semnum : Nat) (cmd : SemCmd) (now : Int) : SemEffect (Except SyscallError Nat) :=
  match st.set? ns semid with
  | none => st.returns (.error .einval)
  | some set =>
    match cmd with
    | .ipcRmid =>
      if !isOwnerOrRoot set.perm cred then st.returns (.error .eperm)
      else
        let (mgr, wake) := (st.managers ns).removeSet semid
        ⟨{ st.putManager ns mgr with undos := clearUndoForSet st.undos ns semid }, [], wake, .ok 0⟩
    | .ipcSet ds =>
      if !isOwnerOrRoot set.perm cred then st.returns (.error .eperm)
      else
        match ds with
        | none => st.returns (.error .efault)
        | some (uid, gid, mode) =>
          ⟨st.putSet ns semid { set with
            perm := { set.perm with uid := uid, gid := gid, mode := mode &&& 0o777 }, ctime := now },
            [], [], .ok 0⟩
    | .setAll vals =>
      if !checkIpcAccess set.perm semA cred then st.returns (.error .eacces)
      else
        match vals with
        | none => st.returns (.error .efault)
        | some vals =>
          if (List.range set.sems.length).any (fun i => ((vals i).toNat : Int) > semvmx) then
            st.returns (.error .erange)
          else
            let (set', woken) := set.setAll vals cred.pid now
            ⟨{ st.putSet ns semid set' with undos := clearUndoForSet st.undos ns semid }, woken, [], .ok 0⟩
    | .setVal arg =>
      if !checkIpcAccess set.perm semA cred then st.returns (.error .eacces)
      else
        match set.sems[semnum]? with
        | none => st.returns (.error .einval)
        | some sem =>
          let val := (arg.setWidth 32).toInt
          if val < 0 ∨ val > semvmx then st.returns (.error .erange)
          else
            let (sem', woken) := wakeSemWaiters { sem with val := val, lastPid := cred.pid }
            ⟨{ st.putSet ns semid { set.putSem semnum sem' with otime := now } with
                undos := clearUndoForSem st.undos ns semid semnum },
              woken, [], .ok 0⟩
    | .getNcnt =>
      if !checkIpcAccess set.perm semR cred then st.returns (.error .eacces)
      else
        match set.sems[semnum]? with
        | none => st.returns (.error .einval)
        | some sem =>
          let (queue, n) := countBlockedWaiters alive blocked sem.ncntWaiters
          ⟨st.putSet ns semid (set.putSem semnum { sem with ncntWaiters := queue }), [], [], .ok n⟩
    | .getZcnt =>
      if !checkIpcAccess set.perm semR cred then st.returns (.error .eacces)
      else
        match set.sems[semnum]? with
        | none => st.returns (.error .einval)
        | some sem =>
          let (queue, n) := countBlockedWaiters alive blocked sem.zcntWaiters
          ⟨st.putSet ns semid (set.putSem semnum { sem with zcntWaiters := queue }), [], [], .ok n⟩

/-! ### `semop` -/

structure SemBuf where
  semNum : BitVec 16
  semOp : BitVec 16
  semFlg : BitVec 16
  deriving DecidableEq, Repr

namespace SemBuf

/-- `sem_num as usize`. -/
def num (op : SemBuf) : Nat := op.semNum.toNat

/-- `sem_op`, an `i16`. -/
def delta (op : SemBuf) : Int := op.semOp.toInt

def undo (op : SemBuf) : Bool := op.semFlg &&& 0x1000 != 0

/-- `(sem_flg & IPC_NOWAIT) != 0`. -/
def nowait (op : SemBuf) : Bool := op.semFlg &&& 0x800 != 0

end SemBuf

inductive SemBlockKind where
  | waitForZero
  | waitForIncrease
  deriving DecidableEq, Repr

/-- The vectors of `do_semop_ops`. -/
structure SemAcc where
  values : List Int
  operated : List Bool
  touched : List Bool
  undoDeltas : List Int

/-- The vectors before the first operation. -/
def SemAcc.start (sems : List SemEntry) : SemAcc where
  values := sems.map SemEntry.val
  operated := List.replicate sems.length false
  touched := List.replicate sems.length false
  undoDeltas := List.replicate sems.length 0

variable (acc : SemAcc)

def SemAcc.value (idx : Nat) : Int := acc.values.getD idx 0

def SemAcc.undoDelta (idx : Nat) : Int := acc.undoDeltas.getD idx 0

def SemAcc.operate (idx : Nat) : SemAcc := { acc with operated := acc.operated.set idx true }

/-- The assignments of an operation that changes the value: `values`, `touched`, and with `SEM_UNDO`
`undo_deltas`. -/
def SemAcc.change (op : SemBuf) (value : Int) : SemAcc :=
  { acc with
    values := acc.values.set op.num value
    touched := acc.touched.set op.num true
    undoDeltas :=
      if op.undo then acc.undoDeltas.set op.num (satAdd32 (acc.undoDelta op.num) (-op.delta))
      else acc.undoDeltas }

/-- How the loop over the operations ends. -/
inductive SemTrial where
  | complete (acc : SemAcc)
  | outOfRange
  | wouldBlock (idx : Nat) (kind : SemBlockKind) (nowait : Bool)

/-- The body of the loop over the operations; `complete` goes on with the next one. -/
def tryOp (op : SemBuf) (acc : SemAcc) : SemTrial :=
  let acc := acc.operate op.num
  if op.delta > 0 then
    let next := satAdd32 (acc.value op.num) op.delta
    if next > semvmx then .outOfRange else .complete (acc.change op next)
  else if op.delta = 0 then
    if acc.value op.num = 0 then .complete acc else .wouldBlock op.num .waitForZero op.nowait
  else
    let need := -op.delta
    if acc.value op.num ≥ need then .complete (acc.change op (acc.value op.num - need))
    else .wouldBlock op.num .waitForIncrease op.nowait

/-- The loop over the operations. -/
def tryOps : List SemBuf → SemAcc → SemTrial
  | [], acc => .complete acc
  | op :: ops, acc =>
    match tryOp op acc with
    | .complete acc => tryOps ops acc
    | trial => trial

/-- A call of `semop`: who calls, and with what. -/
structure SemopCall where
  ns : Nat
  cred : Cred
  semid : Nat
  ops : List SemBuf
  deriving DecidableEq, Repr

/-- What a round of `semop` finds: whether it has waited before, whether its time is over, whether a
signal is pending, and the time. -/
structure SemopEnv where
  waited : Bool
  expired : Bool
  signal : Bool
  now : Int

/-- How a round of `semop` ends. -/
inductive SemopResult where
  | returns (ret : Except SyscallError Unit)
  | blocks

/-- The commit of one semaphore. -/
def commitSem (pid idx : Nat) (sem : SemEntry) : SemEntry × List TaskId :=
  let sem :=
    if acc.operated.getD idx false then { sem with val := acc.value idx, lastPid := pid } else sem
  if acc.touched.getD idx false then wakeSemWaiters sem else (sem, [])

/-- The commit of all semaphores of the set, and the tasks it wakes. -/
def SemSet.commit (set : SemSet) (acc : SemAcc) (pid : Nat) (now : Int) : SemSet × List TaskId :=
  let results := set.sems.mapIdx fun idx sem => commitSem acc pid idx sem
  ({ set with sems := results.map fst, otime := now }, results.flatMap snd)

/-- `add_waiter_once` on the queue the kind selects. -/
def enqueueSem (kind : SemBlockKind) (task : TaskId) (sem : SemEntry) : SemEntry :=
  match kind with
  | .waitForZero => { sem with zcntWaiters := addWaiterOnce sem.zcntWaiters task }
  | .waitForIncrease => { sem with ncntWaiters := addWaiterOnce sem.ncntWaiters task }

def checkSemopCount (limits : SemLimits) (nsops : Nat) : Except SyscallError Unit :=
  if nsops = 0 then .error .einval else if nsops > limits.semopm then .error .e2big else .ok ()

/-- One round of the loop of `do_semop_ops`, up to the point where the task blocks. -/
def doSemopOps (task : TaskId) (call : SemopCall) (env : SemopEnv) : SemEffect SemopResult :=
  match st.set? call.ns call.semid with
  | none => st.returns (.returns (.error (if env.waited then .eidrm else .einval)))
  | some set =>
    if call.ops.any (fun op => op.num ≥ set.sems.length) then
      st.returns (.returns (.error .efbig))
    else if !checkIpcAccess set.perm (if call.ops.any (fun op => op.delta ≠ 0) then semA else semR)
        call.cred then
      st.returns (.returns (.error .eacces))
    else
      match tryOps call.ops (.start set.sems) with
      | .outOfRange => st.returns (.returns (.error .erange))
      | .complete acc =>
        match recordSemUndo st.undos call.cred.pid call.ns call.semid acc.undoDeltas with
        | .error e => st.returns (.returns (.error e))
        | .ok undos =>
          let (set', woken) := set.commit acc call.cred.pid env.now
          ⟨{ st.putSet call.ns call.semid set' with undos := undos }, woken, [], .returns (.ok ())⟩
      | .wouldBlock idx kind nowait =>
        if nowait ∨ env.expired then st.returns (.returns (.error .eagain))
        else if env.signal then st.returns (.returns (.error .eintr))
        else
          match set.sems[idx]? with
          | none => st.returns (.returns (.error .efbig))
          | some sem =>
            ⟨st.putSet call.ns call.semid (set.putSem idx (enqueueSem kind task sem)), [], [], .blocks⟩

end HitOS.Ipc
