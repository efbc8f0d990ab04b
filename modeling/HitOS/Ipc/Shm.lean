import HitOS.Ipc.Common
import HitOS.Ipc.ShmAttach

/-!
# SysV shared memory

`syscall/sysv_shm.rs`, and the parts of `fork`, `exec`, `exit`, `mmap` and `mremap` that change the
records of attached segments. A segment counts its attaches (`nattch`).

An address space is shared by handles (`MmRef`). The control blocks of processes and of tasks hold
one each, and a system call may hold another while it runs. `take_sysv_shm_attaches_for_cleanup`
gives the records to the caller only if its handle is the last one; the address space goes away with
its last handle.

System calls run one after the other here. `CLONE_NEWIPC` together with `CLONE_VM` is refused by
`clone_from_parts`, so only `fork` with its own address space can start a namespace.

Where a call also maps, moves or unmaps memory, whether that succeeds and which free range is found
are arguments.
-/

namespace HitOS.Ipc

open Function OrdMap

/-! ### Segments -/

/-- `ShmSegment`. The frames are given by their numbers. -/
structure ShmSegment where
  id : Nat
  key : Option Nat
  size : Nat
  mode : Nat
  uid : Nat
  gid : Nat
  cuid : Nat
  cgid : Nat
  ctime : Int
  atime : Int
  dtime : Int
  cpid : Nat
  lpid : Nat
  frames : List Nat
  nattch : Nat
  markedForDeletion : Bool
  deriving DecidableEq

structure ShmManager where
  nextId : Nat
  segments : OrdMap Nat ShmSegment
  key2id : OrdMap Nat Nat

/-- `ShmManager::default`. -/
def ShmManager.new : ShmManager := ⟨0, empty, empty⟩

/-- `SHM_MANAGERS`. A namespace that has no manager yet counts as one with an empty one. -/
abbrev ShmManagers := Nat → ShmManager

def ShmManager.allocId (mgr : ShmManager) : ShmManager × Nat :=
  let start := if mgr.nextId < 1 then 1 else mgr.nextId
  let id := nextFree mgr.segments.containsKey mgr.segments.size start
  ({ mgr with nextId := wrapAdd id 1 }, id)

namespace ShmManagers

variable (managers : ShmManagers)

/-- The segment of a namespace. -/
def segment? (q : ShmAttachRef) : Option ShmSegment :=
  (managers q.ipcNsId).segments.get? q.shmid

/-- Assignment through `mgr.segments.get_mut(&shmid)`. -/
def putSegment (q : ShmAttachRef) (seg : ShmSegment) : ShmManagers :=
  update managers q.ipcNsId
    { managers q.ipcNsId with segments := (managers q.ipcNsId).segments.insert q.shmid seg }

def removeSegment (q : ShmAttachRef) : ShmManagers :=
  let mgr := managers q.ipcNsId
  match mgr.segments.get? q.shmid with
  | none => managers
  | some seg =>
    update managers q.ipcNsId { mgr with
      segments := mgr.segments.erase q.shmid
      key2id := match seg.key with
        | some key => if mgr.key2id.get? key = some q.shmid then mgr.key2id.erase key else mgr.key2id
        | none => mgr.key2id }

/-! ### Counting attaches -/

/-- The loop of `fork_inherit`. -/
def inheritOne (attach : ShmAttach) : ShmManagers :=
  if attach.accounted then
    match managers.segment? attach.ref with
    | some seg => managers.putSegment attach.ref { seg with nattch := seg.nattch + 1 }
    | none => managers
  else managers

def forkInherit (attaches : List ShmAttach) : ShmManagers :=
  attaches.foldl inheritOne managers

/-- One account is released; the second component collects the segments to remove. -/
def releaseOne (touch : ShmSegment → ShmSegment) (acc : ShmManagers × List ShmAttachRef)
    (q : ShmAttachRef) : ShmManagers × List ShmAttachRef :=
  match segment? acc.1 q with
  | none => acc
  | some seg =>
    (putSegment acc.1 q (touch { seg with nattch := seg.nattch - 1 }),
      if seg.markedForDeletion && seg.nattch - 1 == 0 then acc.2 ++ [q] else acc.2)

/-- Accounts are released, and then the segments removed that are marked and not attached any
more. -/
def releaseAll (touch : ShmSegment → ShmSegment) (managers : ShmManagers) (refs : List ShmAttachRef) :
    ShmManagers :=
  let (managers, toRemove) := refs.foldl (releaseOne touch) (managers, [])
  toRemove.foldl removeSegment managers

/-- `rollback_fork_inherit`, which is `exit_cleanup` too. -/
def rollbackForkInherit (attaches : List ShmAttach) : ShmManagers :=
  releaseAll id managers ((attaches.filter ShmAttach.accounted).map ShmAttach.ref)

def releaseDetachedAttachRefs (pid : Nat) (now : Int)
    (refs : List ShmAttachRef) : ShmManagers :=
  releaseAll (fun seg => { seg with dtime := now, lpid := pid }) managers refs

end ShmManagers

/-! ### Address spaces -/

/-- What matters here of an address space: the records, and who holds a handle. -/
structure ShmMm where
  attaches : List ShmAttach
  /-- The processes whose control block holds a handle. -/
  procs : List Nat
  /-- The tasks whose control block holds a handle. -/
  tasks : List TaskId
  /-- Handles that wait to be dropped. -/
  temps : Nat
  deriving DecidableEq

/-- `Arc::strong_count`. -/
def ShmMm.strongCount (mm : ShmMm) : Nat := mm.procs.length + mm.tasks.length + mm.temps

/-- `take_sysv_shm_attaches_for_cleanup`, with `extra` handles held by the caller. -/
def ShmMm.takeForCleanup (mm : ShmMm) (extra : Nat) : ShmMm × Option (List ShmAttach) :=
  if mm.strongCount + extra = 1 then ({ mm with attaches := [] }, some mm.attaches) else (mm, none)

/-- `SHM_MANAGERS`, the address spaces there are, and `NEXT_SHM_ATTACH_ID`. -/
structure ShmState where
  managers : ShmManagers
  mms : OrdMap Nat ShmMm
  nextAttachId : Nat

namespace ShmState

/-- Nothing has been created yet. -/
def boot : ShmState := ⟨fun _ => .new, empty, 1⟩

variable (st : ShmState)

/-- The records of an address space; none if it is not there. -/
def records (id : Nat) : List ShmAttach := ((st.mms.get? id).map ShmMm.attaches).getD []

/-- An address space is given other records. -/
def putAttaches (id : Nat) (attaches : List ShmAttach) : ShmState :=
  match st.mms.get? id with
  | none => st
  | some mm => { st with mms := st.mms.insert id { mm with attaches := attaches } }

/-- Handles have changed; without any, the address space goes away. -/
def putHandles (id : Nat) (mm : ShmMm) : ShmState :=
  { st with mms := if mm.strongCount = 0 then st.mms.erase id else st.mms.insert id mm }

/-- The records a caller got from `take_sysv_shm_attaches_for_cleanup` are released. -/
def cleanup (taken : Option (List ShmAttach)) : ShmState :=
  match taken with
  | none => st
  | some attaches => { st with managers := st.managers.rollbackForkInherit attaches }

end ShmState

/-! ### System calls -/

def shmMmapMinAddr : Nat := 0x10000

def shmPageSize : Nat := 4096

def shmAlignUp (size : Nat) : Nat := (size + (shmPageSize - 1)) / shmPageSize * shmPageSize

/-- `check_perm`, on the fields of a segment. -/
def ShmSegment.checkPerm (seg : ShmSegment) (req : Nat) (cred : Cred) : Bool :=
  checkIpcAccess ⟨0, seg.uid, seg.gid, seg.cuid, seg.cgid, seg.mode⟩ req cred

/-- `/proc/sys/kernel/shmmax`, `shmmni` and `shmall`, as `write_shm_sysctl` admits them. -/
structure ShmLimits where
  shmmax : Nat
  shmmni : Nat
  shmall : Nat
  shmmax_mem : 1 ≤ shmmax ∧ shmmax ≤ usizeMax - 2 ^ 24
  shmmni_mem : 1 ≤ shmmni ∧ shmmni ≤ 4096
  shmall_mem : 1 ≤ shmall ∧ shmall ≤ usizeMax / shmPageSize

/-- `SHMMAX`, `SHMMNI` and `SHMALL`. -/
def ShmLimits.default : ShmLimits :=
  ⟨usizeMax - 2 ^ 24, 4096, usizeMax / shmPageSize, by decide, by decide, by decide⟩

structure ShmgetFlags where
  creat : Bool
  excl : Bool
  hugetlb : Bool
  mode : Nat

/-- `syscall_shmget`. `available` are the frames that `frame_alloc` can still yield, in its
order. -/
def shmget (managers : ShmManagers) (limits : ShmLimits) (ns : Nat) (cred : Cred) (key size : Nat)
    (flags : ShmgetFlags) (available : List Nat) (now : Int) :
    ShmManagers × Except SyscallError Nat :=
  let mgr := managers ns
  if flags.hugetlb then (managers, .error .einval)
  else
    match if key = 0 then none else mgr.key2id.get? key with
    | some id =>
      if flags.creat ∧ flags.excl then (managers, .error .eexist)
      else
        match mgr.segments.get? id with
        | none => (managers, .error .einval)
        | some seg =>
          if size > seg.size then (managers, .error .einval)
          else if !seg.checkPerm (flags.mode &&& 0o600) cred then (managers, .error .eacces)
          else (managers, .ok id)
    | none =>
      if key ≠ 0 ∧ !flags.creat then (managers, .error .enoent)
      else if size < 1 ∨ size > limits.shmmax then (managers, .error .einval)
      else if mgr.segments.size ≥ limits.shmmni then (managers, .error .enospc)
      else if shmAlignUp size / shmPageSize > limits.shmall - mgr.segments.values.foldl
          (fun acc seg => satAdd acc (shmAlignUp seg.size / shmPageSize)) 0 then
        (managers, .error .enospc)
      else
        let (mgr, id) := mgr.allocId
        let pages := shmAlignUp size / shmPageSize
        -- the identifier is used up even if the frames do not suffice
        if available.length < pages then (update managers ns mgr, .error .enomem)
        else
          let key? := if key = 0 then none else some key
          let seg : ShmSegment :=
            { id := id
              key := key?
              size := size
              mode := flags.mode &&& 0o777
              uid := cred.euid
              gid := cred.egid
              cuid := cred.euid
              cgid := cred.egid
              ctime := now
              atime := 0
              dtime := 0
              cpid := cred.pid
              lpid := 0
              frames := available.take pages
              nattch := 0
              markedForDeletion := false }
          (update managers ns { mgr with
              segments := mgr.segments.insert id seg
              key2id := match key? with
                | some k => mgr.key2id.insert k id
                | none => mgr.key2id }, .ok id)

structure ShmatFlags where
  rdonly : Bool
  rnd : Bool
  remap : Bool

/-- What `shmat` finds in the address space: a free range if it looks for one, the error of the
checks of a fixed address, and whether the mapping could be inserted. -/
structure ShmatEnv where
  freeRange : Option Nat
  refused : Option SyscallError
  inserted : Bool
  now : Int

variable (st : ShmState)

/-- `syscall_shmat`, in the address space `mmId`. -/
def shmat (mmId ns : Nat) (cred : Cred) (shmid shmaddr : Nat) (flags : ShmatFlags)
    (env : ShmatEnv) : ShmState × Except SyscallError Nat :=
  let q : ShmAttachRef := ⟨ns, shmid⟩
  if shmaddr % shmPageSize ≠ 0 ∧ !flags.rnd then (st, .error .einval)
  else
    match st.managers.segment? q, st.mms.get? mmId with
    | some seg, some mm =>
      if !seg.checkPerm 0o400 cred then (st, .error .eacces)
      else if !flags.rdonly ∧ !seg.checkPerm 0o200 cred then (st, .error .eacces)
      else
        let mapLen := shmAlignUp seg.size
        match if shmaddr = 0 then env.freeRange else some (shmaddr / shmPageSize * shmPageSize) with
        | none => (st, .error .enomem)
        | some start =>
          if flags.remap ∧ start < shmMmapMinAddr then (st, .error .einval)
          else if start + mapLen > usizeMax then (st, .error .enomem)
          else
            match if shmaddr = 0 then none else env.refused with
            | some e => (st, .error e)
            | none =>
              match if flags.remap then detachAttachesOverlapping mm.attaches start mapLen
                else some (mm.attaches, []) with
              | none => (st, .error .enomem)
              | some (attaches, detached) =>
                if !env.inserted then (st, .error .enomem)
                else
                  let attach : ShmAttach :=
                    { ipcNsId := ns
                      addr := start
                      shmid := shmid
                      len := mapLen
                      attachId := max st.nextAttachId 1
                      accounted := true }
                  let seg' : ShmSegment :=
                    { seg with nattch := seg.nattch + 1, atime := env.now, lpid := cred.pid }
                  ({ managers := (st.managers.putSegment q seg').releaseDetachedAttachRefs cred.pid
                        env.now detached
                     mms := st.mms.insert mmId { mm with attaches := attaches ++ [attach] }
                     nextAttachId := wrapAdd st.nextAttachId 1 }, .ok start)
    | _, _ => (st, .error .einval)

/-- `syscall_shmdt`, in the address space `mmId`. -/
def shmdt (mmId pid shmaddr : Nat) (now : Int) : ShmState × Except SyscallError Nat :=
  if shmaddr % shmPageSize ≠ 0 then (st, .error .einval)
  else
    match st.mms.get? mmId with
    | none => (st, .error .einval)
    | some mm =>
      match removeSysvShmAttach mm.attaches shmaddr with
      | none => (st, .error .einval)
      | some (a, transferred, rest) =>
        let st := { st with mms := st.mms.insert mmId { mm with attaches := rest } }
        match st.managers.segment? a.ref with
        | none => (st, .ok 0)
        | some seg =>
          let nattch := if a.accounted && !transferred then seg.nattch - 1 else seg.nattch
          let managers :=
            st.managers.putSegment a.ref { seg with nattch := nattch, dtime := now, lpid := pid }
          if seg.markedForDeletion && nattch == 0 then
            ({ st with managers := managers.removeSegment a.ref }, .ok 0)
          else ({ st with managers := managers }, .ok 0)

/-- The commands of `shmctl` that change the state, with what they read from user memory. -/
inductive ShmCmd where
  | ipcRmid
  /-- The owner and mode of the `shmid_ds`, if it can be read. -/
  | ipcSet (ds : Option (Nat × Nat × Nat))
  | shmLock
  | shmUnlock

def shmLocked : Nat := 0o2000

def shmctl (managers : ShmManagers) (ns : Nat) (cred : Cred) (shmid : Nat) (cmd : ShmCmd) (now : Int) :
    ShmManagers × Except SyscallError Nat :=
  let q : ShmAttachRef := ⟨ns, shmid⟩
  match managers.segment? q with
  | none => (managers, .error .einval)
  | some seg =>
    if cred.euid ≠ 0 ∧ cred.euid ≠ seg.uid ∧ cred.euid ≠ seg.cuid then (managers, .error .eperm)
    else
      match cmd with
      | .ipcRmid =>
        let managers := managers.putSegment q { seg with markedForDeletion := true }
        (if seg.nattch = 0 then managers.removeSegment q else managers, .ok 0)
      | .ipcSet none => (managers, .error .efault)
      | .ipcSet (some (uid, gid, mode)) =>
        (managers.putSegment q { seg with
          uid := uid
          gid := gid
          mode := (seg.mode &&& shmLocked) ||| (mode &&& 0o777)
          ctime := now }, .ok 0)
      | .shmLock => (managers.putSegment q { seg with mode := seg.mode ||| shmLocked }, .ok 0)
      | .shmUnlock =>
        (managers.putSegment q { seg with mode := seg.mode - (seg.mode &&& shmLocked) }, .ok 0)

/-- The records part of `mmap` with `MAP_FIXED`. -/
def mapFixed (mmId pid start len : Nat) (inserted : Bool) (now : Int) : ShmState :=
  match st.mms.get? mmId with
  | none => st
  | some mm =>
    match detachAttachesOverlapping mm.attaches start len with
    | none => st
    | some (attaches, detached) =>
      if !inserted then st
      else
        { st.putAttaches mmId attaches with
          managers := st.managers.releaseDetachedAttachRefs pid now detached }

/-- The move of a range: the record that holds it is split. -/
def moveAttach (attaches : List ShmAttach) (shmid oldAddr oldLen newAddr newLen : Nat) :
    Option (List ShmAttach) :=
  match findAttachContaining attaches shmid oldAddr oldLen with
  | none => none
  | some idx => splitMremapAttach attaches idx oldAddr oldLen newAddr newLen

/-- The records part of `mremap` with `MREMAP_FIXED`, which needs the two ranges to be disjoint.
`shmid` is that of the region, 0 if it has none. -/
def mremapFixed (mmId pid shmid oldAddr len newAddr : Nat) (moved : Bool) (now : Int) :
    ShmState :=
  match st.mms.get? mmId with
  | none => st
  | some mm =>
    if shmid ≠ 0 ∧ findAttachContaining mm.attaches shmid oldAddr len = none then st
    else if oldAddr < newAddr + len ∧ newAddr < oldAddr + len then st
    else
      match detachAttachesOverlapping mm.attaches newAddr len with
      | none => st
      | some (attaches, detached) =>
        -- the record is looked up again in what is left
        match if shmid = 0 then some attaches else moveAttach attaches shmid oldAddr len newAddr len with
        | none => st
        | some attaches =>
          if !moved then st
          else
            { st.putAttaches mmId attaches with
              managers := st.managers.releaseDetachedAttachRefs pid now detached }

/-- The records part of `mremap` without `MREMAP_FIXED`: the range shrinks, or grows in place or
elsewhere. -/
def mremapResize (mmId shmid oldAddr oldLen newAddr newLen : Nat) (resized : Bool) :
    ShmState :=
  match st.mms.get? mmId with
  | none => st
  | some mm =>
    match if shmid = 0 then some mm.attaches
      else moveAttach mm.attaches shmid oldAddr oldLen newAddr newLen with
    | none => st
    | some attaches => if !resized then st else st.putAttaches mmId attaches

/-! ### Processes and tasks -/

/-- A process starts with an address space of its own. -/
def startProcess (mmId pid : Nat) (task : TaskId) : ShmState :=
  match st.mms.get? mmId with
  | some _ => st
  | none => { st with mms := st.mms.insert mmId ⟨[], [pid], [task], 0⟩ }

/-- `fork` without `CLONE_VM`: the child gets a copy of the records. With `CLONE_NEWIPC` it gives
them up again before it runs. -/
def fork (mmId childMm child : Nat) (task : TaskId) (newIpc : Bool) : ShmState :=
  match st.mms.get? mmId, st.mms.get? childMm with
  | some mm, none =>
    let managers := st.managers.forkInherit mm.attaches
    if newIpc then
      { st with
        managers := managers.rollbackForkInherit mm.attaches
        mms := st.mms.insert childMm ⟨[], [child], [task], 0⟩ }
    else
      { st with
        managers := managers
        mms := st.mms.insert childMm ⟨mm.attaches, [child], [task], 0⟩ }
  | _, _ => st

/-- A process or a task that shares the address space (`CLONE_VM`). -/
def share (mmId : Nat) (child : Option Nat) (task : TaskId) : ShmState :=
  match st.mms.get? mmId with
  | none => st
  | some mm =>
    st.putHandles mmId { mm with procs := child.toList ++ mm.procs, tasks := task :: mm.tasks }

/-- `rollback_unstarted_child`: the child's handle is cloned while its control blocks hold
theirs. -/
def rollbackUnstartedChild (mmId : Nat) : ShmState :=
  match st.mms.get? mmId with
  | none => st
  | some mm =>
    let (mm, taken) := mm.takeForCleanup 1
    (st.putHandles mmId mm).cleanup taken

/-- `exec`: the old address space is looked at through a clone of the handle, and then replaced in
the control blocks of the process and of its task. -/
def exec (mmId newMm pid : Nat) (task : TaskId) : ShmState :=
  match st.mms.get? mmId, st.mms.get? newMm with
  | some mm, none =>
    if pid ∈ mm.procs ∧ task ∈ mm.tasks then
      let (mm, taken) := mm.takeForCleanup 1
      let st := st.putHandles mmId { mm with procs := mm.procs.erase pid, tasks := mm.tasks.erase task }
      { st with mms := st.mms.insert newMm ⟨[], [pid], [task], 0⟩ }.cleanup taken
    else st
  | _, _ => st

/-- The exit of a process: the handle of its control block is taken out, and dropped later
(`queue_mm_drop`). Its tasks keep theirs. -/
def exitProcess (mmId pid : Nat) : ShmState :=
  match st.mms.get? mmId with
  | none => st
  | some mm =>
    if pid ∈ mm.procs then
      let (mm, taken) :=
        { mm with procs := mm.procs.erase pid, temps := mm.temps + 1 }.takeForCleanup 0
      (st.putHandles mmId mm).cleanup taken
    else st

/-- The control block of a task is dropped. -/
def dropTask (mmId : Nat) (task : TaskId) : ShmState :=
  match st.mms.get? mmId with
  | none => st
  | some mm => st.putHandles mmId { mm with tasks := mm.tasks.erase task }

/-- The control block of a process is dropped. -/
def dropProcess (mmId pid : Nat) : ShmState :=
  match st.mms.get? mmId with
  | none => st
  | some mm => st.putHandles mmId { mm with procs := mm.procs.erase pid }

/-- A handle that waited to be dropped is dropped. -/
def dropHandle (mmId : Nat) : ShmState :=
  match st.mms.get? mmId with
  | none => st
  | some mm => st.putHandles mmId { mm with temps := mm.temps - 1 }

end HitOS.Ipc
