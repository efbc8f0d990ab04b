import HitOS.Ipc.Common

/-!
# SysV message queues

`syscall/sysv_ipc/msg.rs`. As for semaphores, every operation holds the lock of the managers, so it
is a function of the state (`MsgState`) that yields the state afterwards and the tasks it wakes.
`msgsnd` and `msgrcv` are loops that block between their rounds; `msgsndRound` and `msgrcvRound` are
one round each. What they check before the loop is a field of the call (`MsgsndCall`, `MsgrcvCall`),
and `msgsndArgs` and `msgrcvArgs` are the checks.
-/

namespace HitOS.Ipc

/-! ### State -/

def msgR : Nat := 0o400

def msgW : Nat := 0o200

/-- `/proc/sys/kernel/msgmax`, `msgmnb` and `msgmni`, as `write_msg_sysctl` admits them. -/
structure MsgLimits where
  msgmax : Nat
  msgmnb : Nat
  msgmni : Nat
  bounded : ∀ v ∈ [msgmax, msgmnb, msgmni], v ≠ 0 ∧ v ≤ 2 ^ 31 - 1

/-- `MSGMAX`, `MSGMNB` and `MSGMNI`. -/
def MsgLimits.default : MsgLimits := ⟨8192, 16384, 4096, by decide⟩

/-- `Msg`. The type is an `i64`, which `msgsnd` requires to be positive. -/
structure Msg where
  mtype : BitVec 64
  mtext : List (BitVec 8)
  positive : 0 < mtype.toInt
  deriving DecidableEq

structure MsgQueue where
  id : Nat
  key : Option Nat
  perm : IpcPermKernel
  msgs : List Msg
  recvWaiters : List TaskId
  sendWaiters : List TaskId
  cbytes : Nat
  qbytes : Nat
  lspid : Nat
  lrpid : Nat
  stime : Int
  rtime : Int
  ctime : Int
  deriving DecidableEq

structure MsgManager where
  nextId : Nat
  queues : OrdMap Nat MsgQueue
  key2id : OrdMap Nat Nat

/-- `MsgManager::default`. -/
def MsgManager.new : MsgManager := ⟨0, OrdMap.empty, OrdMap.empty⟩

/-- `MSG_MANAGERS`. A namespace that has no manager yet counts as one with an empty one. -/
structure MsgState where
  managers : Nat → MsgManager

/-- Nothing has been created yet. -/
def MsgState.boot : MsgState := ⟨fun _ => .new⟩

/-- What an operation leaves behind: the state, the tasks woken under the lock, those woken after it
is released, and the value returned. -/
structure MsgEffect (α : Type) where
  st : MsgState
  woken : List TaskId
  later : List TaskId
  ret : α

/-- An operation that changes nothing. -/
def MsgState.returns {α : Type} (st : MsgState) (ret : α) : MsgEffect α := ⟨st, [], [], ret⟩

variable (st : MsgState)

/-- The message queue of a namespace. -/
def MsgState.queue? (ns msqid : Nat) : Option MsgQueue := (st.managers ns).queues.get? msqid

/-- Assignment through `managers.entry(ns)`. -/
def MsgState.putManager (ns : Nat) (mgr : MsgManager) : MsgState :=
  { st with managers := Function.update st.managers ns mgr }

/-- Assignment through `mgr.queues.get_mut(&msqid)`. -/
def MsgState.putQueue (ns msqid : Nat) (queue : MsgQueue) : MsgState :=
  st.putManager ns { st.managers ns with queues := (st.managers ns).queues.insert msqid queue }

/-! ### Managers -/

def MsgManager.allocId (mgr : MsgManager) : MsgManager × Nat :=
  let start := if mgr.nextId < 1 then 1 else mgr.nextId
  let id := nextFree mgr.queues.containsKey mgr.queues.size start
  ({ mgr with nextId := wrapAdd id 1 }, id)

/-- `remove_queue`: the manager afterwards and the tasks to wake. -/
def MsgManager.removeQueue (mgr : MsgManager) (id : Nat) : MsgManager × List TaskId :=
  match mgr.queues.get? id with
  | none => (mgr, [])
  | some queue =>
    ({ mgr with
        queues := mgr.queues.erase id
        key2id := match queue.key with
          | some key => if mgr.key2id.get? key = some id then mgr.key2id.erase key else mgr.key2id
          | none => mgr.key2id },
      queue.recvWaiters ++ queue.sendWaiters)

/-! ### `msgget` -/

structure MsggetFlags where
  creat : Bool
  excl : Bool
  mode : Nat

def msgget (limits : MsgLimits) (ns : Nat) (cred : Cred) (key : BitVec 64)
    (flags : MsggetFlags) (now : Int) : MsgEffect (Except SyscallError Nat) :=
  let mgr := st.managers ns
  let key32 := (key.setWidth 32).toNat
  match if key = 0 then none else mgr.key2id.get? key32 with
  | some id =>
    if flags.creat ∧ flags.excl then st.returns (.error .eexist)
    else
      match mgr.queues.get? id with
      | none => st.returns (.error .enoent)
      | some queue =>
        if !checkIpcAccess queue.perm (flags.mode &&& 0o700) cred then st.returns (.error .eacces)
        else st.returns (.ok id)
  | none =>
    if key ≠ 0 ∧ !flags.creat then st.returns (.error .enoent)
    else if mgr.queues.size ≥ limits.msgmni then st.returns (.error .enospc)
    else
      let (mgr, id) := mgr.allocId
      let key? := if key = 0 then none else some key32
      let queue : MsgQueue :=
        { id := id
          key := key?
          perm := ⟨key32, cred.euid, cred.egid, cred.euid, cred.egid, flags.mode &&& 0o777⟩
          msgs := []
          recvWaiters := []
          sendWaiters := []
          cbytes := 0
          qbytes := limits.msgmnb
          lspid := 0
          lrpid := 0
          stime := 0
          rtime := 0
          ctime := now }
      let mgr' : MsgManager :=
        { mgr with
          queues := mgr.queues.insert id queue
          key2id := match key? with
            | some k => mgr.key2id.insert k id
            | none => mgr.key2id }
      ⟨st.putManager ns mgr', [], [], .ok id⟩

/-! ### `msgctl` -/

/-- What `IPC_SET` takes from the `msqid_ds`. -/
structure MsqidDs where
  uid : Nat
  gid : Nat
  mode : Nat
  qbytes : BitVec 64

/-- The commands of `msgctl` that change the state, with what they read from user memory. -/
inductive MsgCmd where
  | ipcRmid
  | ipcSet (ds : Option MsqidDs)

def msgctl (ns : Nat) (cred : Cred) (msqid : Nat) (cmd : MsgCmd) (now : Int) :
    MsgEffect (Except SyscallError Nat) :=
  match st.queue? ns msqid with
  | none => st.returns (.error .einval)
  | some queue =>
    if !isOwnerOrRoot queue.perm cred then st.returns (.error .eperm)
    else
      match cmd with
      | .ipcRmid =>
        let (mgr, wake) := (st.managers ns).removeQueue msqid
        ⟨st.putManager ns mgr, [], wake, .ok 0⟩
      | .ipcSet none => st.returns (.error .efault)
      | .ipcSet (some ds) =>
        ⟨st.putQueue ns msqid { queue with
            perm := { queue.perm with uid := ds.uid, gid := ds.gid, mode := ds.mode &&& 0o777 }
            qbytes := ds.qbytes.toNat
            ctime := now
            sendWaiters := [] },
          queue.sendWaiters, [], .ok 0⟩

/-! ### `msgsnd` -/

/-- A call of `msgsnd` that has passed the checks before the loop. -/
structure MsgsndCall where
  ns : Nat
  cred : Cred
  msqid : Nat
  mtype : BitVec 64
  mtext : List (BitVec 8)
  nowait : Bool
  positive : 0 < mtype.toInt
  deriving DecidableEq

/-- The checks of `syscall_msgsnd` before the loop. The type and the text are what user memory
holds, if it can be read. -/
def msgsndArgs (limits : MsgLimits) (ns : Nat) (cred : Cred) (msqid : Nat) (msgsz : BitVec 64)
    (mtype? : Option (BitVec 64)) (mtext? : Option (Nat → BitVec 8)) (nowait : Bool) :
    Except SyscallError MsgsndCall :=
  if msgsz.toInt < 0 then .error .einval
  else if msgsz.toNat > limits.msgmax then .error .einval
  else
    match mtype? with
    | none => .error .efault
    | some mtype =>
      if h : 0 < mtype.toInt then
        match mtext? with
        | none => .error .efault
        | some mtext => .ok ⟨ns, cred, msqid, mtype, (List.range msgsz.toNat).map mtext, nowait, h⟩
      else .error .einval

/-- What a round of `msgsnd` or `msgrcv` finds: whether it has waited before, whether a signal is
pending, the time, and whether the buffer of the user can be written. -/
structure MsgEnv where
  waited : Bool
  signal : Bool
  now : Int
  writable : Bool

/-- How a round of `msgsnd` or `msgrcv` ends. -/
inductive MsgResult where
  | sent
  | received (mtype : BitVec 64) (payload : List (BitVec 8))
  | failed (e : SyscallError)
  | blocks
  | panics
  deriving DecidableEq

/-- One round of the loop of `syscall_msgsnd`, up to the point where the task blocks. -/
def msgsndRound (task : TaskId) (call : MsgsndCall) (env : MsgEnv) : MsgEffect MsgResult :=
  match st.queue? call.ns call.msqid with
  | none => st.returns (.failed (if env.waited then .eidrm else .einval))
  | some queue =>
    if !checkIpcAccess queue.perm msgW call.cred then st.returns (.failed .eacces)
    else if satAdd queue.cbytes call.mtext.length ≤ queue.qbytes then
      ⟨st.putQueue call.ns call.msqid { queue with
          msgs := queue.msgs ++ [⟨call.mtype, call.mtext, call.positive⟩]
          cbytes := wrapAdd queue.cbytes call.mtext.length
          lspid := call.cred.pid
          stime := env.now
          recvWaiters := [] },
        queue.recvWaiters, [], .sent⟩
    else if call.nowait then st.returns (.failed .eagain)
    else if env.signal then st.returns (.failed .eintr)
    else
      ⟨st.putQueue call.ns call.msqid
          { queue with sendWaiters := addWaiterOnce queue.sendWaiters task }, [], [], .blocks⟩

/-! ### `msgrcv` -/

/-- A call of `msgrcv` that has passed the checks before the loop. -/
structure MsgrcvCall where
  ns : Nat
  cred : Cred
  msqid : Nat
  msgsz : Nat
  msgtyp : BitVec 64
  /-- `MSG_COPY`. -/
  copy : Bool
  /-- `MSG_EXCEPT`. -/
  except : Bool
  /-- `MSG_NOERROR`. -/
  noerror : Bool
  nowait : Bool
  checked : if copy then nowait = true ∧ except = false ∧ 0 ≤ msgtyp.toInt
    else ¬ (except = true ∧ msgtyp = 0)
  deriving DecidableEq

/-- The checks of `syscall_msgrcv` before the loop. -/
def msgrcvArgs (ns : Nat) (cred : Cred) (msqid : Nat) (msgsz msgtyp : BitVec 64)
    (copy except noerror nowait : Bool) : Except SyscallError MsgrcvCall :=
  if msgsz.toInt < 0 then .error .einval
  else if h : if copy then nowait = true ∧ except = false ∧ 0 ≤ msgtyp.toInt
      else ¬ (except = true ∧ msgtyp = 0) then
    .ok ⟨ns, cred, msqid, msgsz.toNat, msgtyp, copy, except, noerror, nowait, h⟩
  else .error .einval

/-- `min_by_key`: the first of the elements with the least key. -/
def minByKey {α : Type} (key : α → Int) : List α → Option α
  | [] => none
  | x :: xs => some (xs.foldl (fun least y => if key y < key least then y else least) x)

/-- `pick_idx`: the place of the message to receive. The negation of `msgtyp` wraps, as in the
release build. -/
def MsgrcvCall.pickIdx (call : MsgrcvCall) (msgs : List Msg) : Option Nat :=
  if msgs.isEmpty then none
  else if call.copy then if call.msgtyp.toNat < msgs.length then some call.msgtyp.toNat else none
  else if call.msgtyp = 0 then some 0
  else if 0 < call.msgtyp.toInt then
    if call.except then msgs.findIdx? fun m => m.mtype ≠ call.msgtyp
    else msgs.findIdx? fun m => m.mtype = call.msgtyp
  else
    let limit := (-call.msgtyp).toInt
    let candidates := msgs.zipIdx.filter fun (m, _) => m.mtype.toInt ≤ limit
    (minByKey (fun (m, _) => m.mtype.toInt) candidates).map Prod.snd

/-- One round of the loop of `syscall_msgrcv`, up to the point where the task blocks, with the copy
to user memory that follows. -/
def msgrcvRound (task : TaskId) (call : MsgrcvCall) (env : MsgEnv) : MsgEffect MsgResult :=
  match st.queue? call.ns call.msqid with
  | none => st.returns (.failed (if env.waited then .eidrm else .einval))
  | some queue =>
    if !checkIpcAccess queue.perm msgR call.cred then st.returns (.failed .eacces)
    else
      match call.pickIdx queue.msgs with
      | some idx =>
        match queue.msgs[idx]? with
        | none => st.returns .panics
        | some src =>
          if src.mtext.length > call.msgsz ∧ !call.noerror then st.returns (.failed .e2big)
          else
            let ret :=
              if env.writable then MsgResult.received src.mtype (src.mtext.take call.msgsz)
              else .failed .efault
            if call.copy then st.returns ret
            else
              ⟨st.putQueue call.ns call.msqid { queue with
                  msgs := queue.msgs.eraseIdx idx
                  cbytes := queue.cbytes - src.mtext.length
                  lrpid := call.cred.pid
                  rtime := env.now
                  sendWaiters := [] },
                queue.sendWaiters, [], ret⟩
      | none =>
        if call.nowait then st.returns (.failed .enomsg)
        else if env.signal then st.returns (.failed .eintr)
        else
          ⟨st.putQueue call.ns call.msqid
              { queue with recvWaiters := addWaiterOnce queue.recvWaiters task }, [], [], .blocks⟩

end HitOS.Ipc
