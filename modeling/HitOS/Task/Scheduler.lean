import HitOS.Task.OnCpu
import HitOS.Lib.Reachable

/-!
# The scheduler

`task/manager.rs`, `task/manager/run_queue.rs`, `task/processor.rs`: tasks, run queues and harts. A
step is one access to an atomic word or one section under the lock of a task. What is done to a run
queue under its lock belongs to the next such access, as nobody sees it in between.

An operation on a task (`wakeup_task`, `TaskManager::add`, `remove`) takes several steps; any number
of numbered operations may be in progress. What a hart does by itself is in its phase: it goes
through the idle loop, takes a task onto its CPU, runs on the kernel stack of the task, and leaves
it. What it starts in the idle loop (a replayed wakeup, a requeue) is an operation like all others.

`fetch` holds the lock of its run queue throughout, so the sections of `add` and `remove` under that
lock wait for it (`HartPhase.fetching`). Which hart an operation chooses, the class and group of a
task, and which entry of a queue a hart takes are left open.
-/

namespace HitOS.Sched

open Function

abbrev Task := Nat

/-! ### Tasks -/

inductive TaskStatus where
  | ready
  | running
  | blocked
  deriving DecidableEq

/-- `TaskControlBlock`, as far as the scheduler reads it; `res` says whether `res` is there. -/
structure Tcb where
  status : TaskStatus
  res : Bool
  onCpu : OnCpu
  readyQueueHart : Option Hart
  inReadyQueue : Bool
  cgroupFrozen : Bool
  parkedByCgroup : Bool
  wakeOnCgroupThaw : Bool
  deriving DecidableEq

/-- `TaskControlBlock::new`. -/
def Tcb.new : Tcb := ⟨.ready, true, .off, none, false, false, false, false⟩

/-- `compare_exchange` of `ready_queue_hart`, from a hart to none. -/
def Tcb.release (c : Tcb) (h : Hart) : Tcb :=
  { c with readyQueueHart := if c.readyQueueHart = some h then none else c.readyQueueHart }

/-! ### Operations -/

/-- Why a task is removed from its run queue. -/
inductive Removal where
  /-- `refresh_task_runqueue` puts it back. -/
  | refresh
  /-- It is to exit, and its `res` is taken afterwards. -/
  | exit
  deriving DecidableEq

/-- The next step of an operation. -/
inductive OpStage where
  /-- `defer_wakeup_if_on_cpu`. -/
  | wakeDefer
  /-- `wake_if_blocked_inner`, under the lock of the task. -/
  | wakeStatus
  /-- `add`: `compare_exchange` of `ready_queue_hart`. -/
  | addCas (hart : Hart)
  /-- `add`: `in_ready_queue` is set. -/
  | addStore (hart : Hart)
  /-- `add`: under the lock of the queue. -/
  | addPush (hart : Hart)
  /-- `add`: `ready_queue_hart` was changed meanwhile, and `in_ready_queue` is cleared again. -/
  | addUndo
  /-- `refresh_task_runqueue` looks at `in_ready_queue`. -/
  | refreshLoad
  /-- `remove`: `swap` of `ready_queue_hart`. -/
  | removeSwap (why : Removal)
  /-- `remove`: under the lock of the queue. -/
  | removeScan (why : Removal) (hart : Hart)
  /-- `remove`: `in_ready_queue` is cleared; so many entries were removed. -/
  | removeStore (why : Removal) (removed : Nat)
  /-- `take_thread_exit_cleanup` takes `res`, under the lock of the task. -/
  | takeRes
  deriving DecidableEq

/-- The run queue whose lock a step needs. -/
def OpStage.lock? : OpStage → Option Hart
  | addPush hart => some hart
  | removeScan _ hart => some hart
  | _ => none

/-- An operation in progress. -/
structure Op where
  task : Task
  stage : OpStage
  deriving DecidableEq

/-! ### Run queues -/

/-- `ReadyQueueSlot`, with the group of a fair task. -/
inductive Slot where
  | rt (idx : Nat)
  | fair (group : Nat)
  deriving DecidableEq

def Slot.isRt : Slot → Bool
  | rt _ => true
  | fair _ => false

/-- An entry of a run queue. -/
structure Entry where
  task : Task
  slot : Slot
  deriving DecidableEq

/-- `add` puts an entry into the queue; `insert_task` overwrites the one that a fair group has. -/
def pushEntry (q : List Entry) (e : Entry) : List Entry :=
  match e.slot with
  | .rt _ => q ++ [e]
  | .fair _ => q.erase e ++ [e]

/-- `remove` takes all entries of a task from the RT queues, and then the one of its fair group, or
else the first one that some fair group has. -/
def removeEntries (q : List Entry) (t : Task) (slot : Slot) : List Entry :=
  let rest := q.filter fun e => ¬(e.task = t ∧ e.slot.isRt = true)
  if ⟨t, slot⟩ ∈ rest then rest.erase ⟨t, slot⟩ else rest.eraseP fun e => e.task = t

/-- How often a task is in a queue. -/
def entries (t : Task) (q : List Entry) : Nat := q.countP fun e => e.task = t

/-! ### Harts -/

/-- How a task leaves its hart. -/
inductive Leave where
  | suspend
  | block
  | exit
  deriving DecidableEq

inductive HartPhase where
  /-- In the idle loop, before `take_pending_blocked`. -/
  | top
  /-- Before `take_pending_ready`. -/
  | requeue
  /-- Before the next `take_pending_drop`. -/
  | clean
  /-- In `fetch`, before the next entry. -/
  | fetch
  /-- `prune_fair_group_front` has looked at the status: whether it is `Ready`. -/
  | looked (e : Entry) (ready : Bool)
  /-- `prune_fair_group_front` drops the entry; whether `ready_queue_hart` is this hart. -/
  | pruning (e : Entry) (queuedHere : Bool)
  /-- `prune_fair_group_front` has chosen the entry. -/
  | selected (e : Entry)
  /-- The entry is taken, before `in_ready_queue` is cleared; whether the task was still queued
  here. -/
  | clearing (e : Entry) (stillQueuedHere : Bool)
  /-- `pop_ready_rt_candidate`, before it looks at the status. -/
  | checking (e : Entry)
  /-- Before `try_mark_on_cpu`. -/
  | marking (e : Entry)
  /-- Before the switch to the task. -/
  | entering (task : Task)
  /-- On the kernel stack of the task. -/
  | running (task : Task)
  /-- On the kernel stack of the task, after `take_current_task`. -/
  | leaving (task : Task) (how : Leave)
  /-- On the kernel stack of the task, before the switch to the idle loop. -/
  | switching (task : Task)
  deriving DecidableEq

/-- `fetch` is in progress, and holds the lock of the run queue. -/
def HartPhase.fetching : HartPhase → Bool
  | fetch | looked .. | pruning .. | selected _ | clearing .. | checking _ | marking _ => true
  | _ => false

/-- `Processor`. -/
structure HartState where
  phase : HartPhase
  pendingReady : Option Task
  pendingBlocked : Option Task
  pendingDrop : List Task
  deriving DecidableEq

/-- The whole machine. -/
structure Machine where
  tcb : Task → Tcb
  created : Task → Bool
  queue : Hart → List Entry
  hart : Hart → HartState
  ops : Nat → Option Op

namespace Machine

/-- No task is there, and all harts are idle. -/
def boot : Machine :=
  ⟨fun _ => .new, fun _ => false, fun _ => [], fun _ => ⟨.top, none, none, []⟩, fun _ => none⟩

variable (m : Machine)

def setTcb (t : Task) (c : Tcb) : Machine := { m with tcb := update m.tcb t c }

def setOp (id : Nat) (op : Option Op) : Machine := { m with ops := update m.ops id op }

def setQueue (h : Hart) (q : List Entry) : Machine :=
  { m with queue := update m.queue h q }

def setHart (h : Hart) (x : HartState) : Machine :=
  { m with hart := update m.hart h x }

/-- A hart goes on to a phase. -/
def goto (h : Hart) (phase : HartPhase) : Machine :=
  m.setHart h { m.hart h with phase := phase }

/-! ### Steps of operations -/

/-- `wake_if_blocked_inner` under the lock of the task: the task, and whether it is to be
enqueued. -/
def wakeIfBlocked (c : Tcb) : Tcb × Bool :=
  if c.res = false then (c, false)
  else if c.status = .blocked then
    if c.cgroupFrozen then ({ c with wakeOnCgroupThaw := true }, false)
    else ({ c with status := .ready, parkedByCgroup := false, wakeOnCgroupThaw := false }, true)
  else (c, false)

/-- An operation takes its next step. `target` is the hart it chooses, `slot` the class of the
task. -/
def opStep (id : Nat) (op : Op) (target : Hart) (slot : Slot) : Machine :=
  let t := op.task
  let c := m.tcb t
  match op.stage with
  | .wakeDefer =>
    (m.setTcb t { c with onCpu := c.onCpu.defer.1 }).setOp id
      (if c.onCpu.defer.2 then none else some ⟨t, .wakeStatus⟩)
  | .wakeStatus =>
    (m.setTcb t (wakeIfBlocked c).1).setOp id (if (wakeIfBlocked c).2 then some ⟨t, .addCas target⟩ else none)
  | .addCas hart =>
    if c.readyQueueHart = none then
      (m.setTcb t { c with readyQueueHart := some hart }).setOp id (some ⟨t, .addStore hart⟩)
    else m.setOp id none
  | .addStore hart => (m.setTcb t { c with inReadyQueue := true }).setOp id (some ⟨t, .addPush hart⟩)
  | .addPush hart =>
    if c.readyQueueHart = some hart then (m.setQueue hart (pushEntry (m.queue hart) ⟨t, slot⟩)).setOp id none
    else m.setOp id (some ⟨t, .addUndo⟩)
  | .addUndo => (m.setTcb t { c with inReadyQueue := false }).setOp id none
  | .refreshLoad => m.setOp id (if c.inReadyQueue then some ⟨t, .removeSwap .refresh⟩ else none)
  | .removeSwap why =>
    (m.setTcb t { c with readyQueueHart := none }).setOp id (match c.readyQueueHart with
      | none => some ⟨t, .removeStore why 0⟩
      | some hart => some ⟨t, .removeScan why hart⟩)
  | .removeScan why hart =>
    let q := removeEntries (m.queue hart) t slot
    (m.setQueue hart q).setOp id (some ⟨t, .removeStore why (entries t (m.queue hart) - entries t q)⟩)
  | .removeStore .refresh removed =>
    (m.setTcb t { c with inReadyQueue := false }).setOp id
      (if removed = 0 then none else some ⟨t, .addCas target⟩)
  | .removeStore .exit _ => (m.setTcb t { c with inReadyQueue := false }).setOp id (some ⟨t, .takeRes⟩)
  | .takeRes => (m.setTcb t { c with res := false }).setOp id none

/-- An operation goes on, unless it waits for a lock. -/
def opNext (id : Nat) (target : Hart) (slot : Slot) : Option Machine :=
  match m.ops id with
  | none => none
  | some op =>
    match op.stage.lock? with
    | some hart => if (m.hart hart).phase.fetching then none else some (m.opStep id op target slot)
    | none => some (m.opStep id op target slot)

/-! ### Steps of harts -/

/-- What a hart does next. `id` is the number of the operation it starts. -/
inductive HartAct where
  | takePendingBlocked (id : Nat)
  | takePendingReady (id : Nat) (target : Hart)
  | takePendingDrop
  /-- The cleaning is over for now, and `fetch` takes the lock. -/
  | lockQueue
  /-- `pop_ready_rt_candidate` takes an entry, up to its `compare_exchange`. -/
  | popRt (e : Entry)
  /-- `prune_fair_group_front` looks at the status of an entry. -/
  | look (e : Entry)
  /-- It looks at `ready_queue_hart`. -/
  | load
  /-- It drops a stale entry, up to its `compare_exchange`. -/
  | prune
  /-- `pop_ready_fair_candidate` takes the chosen entry, up to its `compare_exchange`. -/
  | take
  /-- `in_ready_queue` is cleared. -/
  | clear
  /-- `pop_ready_rt_candidate` looks at the status. -/
  | check
  | tryMarkOnCpu
  /-- There is nothing to run. -/
  | giveUp
  | switchIn
  /-- The task sets its own status, as `sys_sleep` does before it blocks. -/
  | presleep
  | discardDeferredWakeup
  | takeCurrentTask (how : Leave)
  /-- The status of the task is set, and the task put where the idle loop finds it. -/
  | setPending
  | switchOut
  deriving DecidableEq

def finishRunning (t : Task) : Machine := m.setTcb t { m.tcb t with onCpu := .off }

/-- An entry is taken from the queue of a hart, and `ready_queue_hart` exchanged for none. -/
def claim (h : Hart) (e : Entry) : Machine :=
  let c := m.tcb e.task
  ((m.setQueue h ((m.queue h).erase e)).setTcb e.task (c.release h)).goto h
    (.clearing e (decide (c.readyQueueHart = some h)))

/-- A stale entry is dropped, and `ready_queue_hart` exchanged for none if it was this hart. -/
def dropStale (h : Hart) (e : Entry) (queuedHere : Bool) : Machine :=
  let c := m.tcb e.task
  ((m.setQueue h ((m.queue h).erase e)).setTcb e.task (if queuedHere then c.release h else c)).goto h
    (.clearing e false)

/-- The task sets its status, and is put where the idle loop finds it. -/
def setPending (h : Hart) (t : Task) : Leave → Machine
  | .suspend =>
    (m.setTcb t { m.tcb t with status := .ready }).setHart h
      { m.hart h with phase := .switching t, pendingReady := some t }
  | .block =>
    if (m.tcb t).status = .ready then
      m.setHart h { m.hart h with phase := .switching t, pendingReady := some t }
    else
      (m.setTcb t { m.tcb t with status := .blocked }).setHart h
        { m.hart h with phase := .switching t, pendingBlocked := some t }
  | .exit =>
    (m.setTcb t { m.tcb t with res := false }).setHart h
      { m.hart h with phase := .switching t, pendingDrop := (m.hart h).pendingDrop ++ [t] }

/-- A hart takes its next step; `none` if it is not its next one. -/
def hartStep (h : Hart) : HartAct → Option Machine
  | .takePendingBlocked id =>
    match (m.hart h).phase, (m.hart h).pendingBlocked with
    | .top, none => some (m.goto h .requeue)
    | .top, some t =>
      let m' := (m.finishRunning t).setHart h { m.hart h with phase := .requeue, pendingBlocked := none }
      -- a wakeup that was deferred is made up for
      if (m.tcb t).onCpu.hasPending then
        if m.ops id = none then some (m'.setOp id (some ⟨t, .wakeDefer⟩)) else none
      else some m'
    | _, _ => none
  | .takePendingReady id target =>
    match (m.hart h).phase, (m.hart h).pendingReady with
    | .requeue, none => some (m.goto h .clean)
    | .requeue, some t =>
      if m.ops id = none then
        some (((m.finishRunning t).setHart h { m.hart h with phase := .clean, pendingReady := none }).setOp id
          (some ⟨t, .addCas target⟩))
      else none
    | _, _ => none
  | .takePendingDrop =>
    match (m.hart h).phase, (m.hart h).pendingDrop with
    | .clean, t :: rest => some ((m.finishRunning t).setHart h { m.hart h with pendingDrop := rest })
    | _, _ => none
  | .lockQueue => if (m.hart h).phase = .clean then some (m.goto h .fetch) else none
  | .popRt e =>
    if (m.hart h).phase = .fetch ∧ e.slot.isRt = true ∧ e ∈ m.queue h then some (m.claim h e) else none
  | .look e =>
    if (m.hart h).phase = .fetch ∧ e.slot.isRt = false ∧ e ∈ m.queue h then
      some (m.goto h (.looked e (decide ((m.tcb e.task).status = .ready))))
    else none
  | .load =>
    match (m.hart h).phase with
    | .looked e ready =>
      if (m.tcb e.task).readyQueueHart = some h ∧ ready = true then some (m.goto h (.selected e))
      else some (m.goto h (.pruning e (decide ((m.tcb e.task).readyQueueHart = some h))))
    | _ => none
  | .prune =>
    match (m.hart h).phase with
    | .pruning e queuedHere => some (m.dropStale h e queuedHere)
    | _ => none
  | .take =>
    match (m.hart h).phase with
    | .selected e => if e ∈ m.queue h then some (m.claim h e) else some (m.goto h .fetch)
    | _ => none
  | .clear =>
    match (m.hart h).phase with
    | .clearing e stillQueuedHere =>
      some ((m.setTcb e.task { m.tcb e.task with inReadyQueue := false }).goto h
        (if stillQueuedHere then if e.slot.isRt then .checking e else .marking e else .fetch))
    | _ => none
  | .check =>
    match (m.hart h).phase with
    | .checking e => some (m.goto h (if (m.tcb e.task).status = .ready then .marking e else .fetch))
    | _ => none
  | .tryMarkOnCpu =>
    match (m.hart h).phase with
    | .marking e =>
      let c := m.tcb e.task
      some ((m.setTcb e.task { c with onCpu := (c.onCpu.tryMark h).1 }).goto h
        (if (c.onCpu.tryMark h).2 then .entering e.task else .fetch))
    | _ => none
  | .giveUp => if (m.hart h).phase = .fetch then some (m.goto h .top) else none
  | .switchIn =>
    match (m.hart h).phase with
    | .entering t => some ((m.setTcb t { m.tcb t with status := .running }).goto h (.running t))
    | _ => none
  | .presleep =>
    match (m.hart h).phase with
    | .running t => some (m.setTcb t { m.tcb t with status := .blocked })
    | _ => none
  | .discardDeferredWakeup =>
    match (m.hart h).phase with
    | .running t => some (m.setTcb t { m.tcb t with onCpu := (m.tcb t).onCpu.discard })
    | _ => none
  | .takeCurrentTask how =>
    match (m.hart h).phase with
    | .running t => some (m.goto h (.leaving t how))
    | _ => none
  | .setPending =>
    match (m.hart h).phase with
    | .leaving t how => some (m.setPending h t how)
    | _ => none
  | .switchOut =>
    match (m.hart h).phase with
    | .switching _ => some (m.goto h .top)
    | _ => none

/-! ### Runs -/

/-- Who takes a step, and which one. -/
inductive Label where
  /-- A new task, which `add_task` enqueues. -/
  | spawn (task : Task) (id : Nat) (target : Hart)
  /-- Someone calls `wakeup_task`. -/
  | wake (task : Task) (id : Nat)
  /-- Someone calls `refresh_task_runqueue`. -/
  | refresh (task : Task) (id : Nat)
  /-- The process of the task exits, and the task is removed. -/
  | remove (task : Task) (id : Nat)
  /-- An operation goes on. -/
  | op (id : Nat) (target : Hart) (slot : Slot)
  /-- A hart goes on. -/
  | hart (h : Hart) (act : HartAct)
  deriving DecidableEq

/-- An operation begins, under a number that is free. -/
def start (t : Task) (id : Nat) (stage : OpStage) : Option Machine :=
  if m.created t = true ∧ m.ops id = none then some (m.setOp id (some ⟨t, stage⟩)) else none

/-- **One step** of the machine. -/
def exec : Label → Option Machine
  | .spawn t id target =>
    if m.created t = false ∧ m.ops id = none then
      some ({ m with created := update m.created t true }.setOp id (some ⟨t, .addCas target⟩))
    else none
  | .wake t id => m.start t id .wakeDefer
  | .refresh t id => m.start t id .refreshLoad
  | .remove t id => m.start t id (.removeSwap .exit)
  | .op id target slot => m.opNext id target slot
  | .hart h act => m.hartStep h act

/-- The states of all runs whose steps meet a condition. -/
def Runs (cond : Machine → Label → Prop) : Machine → Prop :=
  Reachable (· = boot) fun m m' => ∃ l, cond m l ∧ m.exec l = some m'

/-- The steps of a list, one after the other. -/
def execs (ls : List Label) : Option Machine := ls.foldlM exec m

/-- What a list of steps leads to is reached by a run. -/
theorem runs_of_execs {ls : List Label} {m : Machine} (hls : boot.execs ls = some m) :
    Runs (fun _ _ => True) m :=
  foldlM_invariant (.start rfl) (fun _ l _ _ hm hl => hm.step ⟨l, trivial, hl⟩) hls

/-- A new task is enqueued on an idle hart as a fair task, and the hart switches to it. -/
def spawnAndEnter (t : Task) (h : Hart) (id : Nat) : List Label :=
  [.spawn t id h, .op id h (.fair 0), .op id h (.fair 0), .op id h (.fair 0),
    .hart h (.takePendingBlocked id), .hart h (.takePendingReady id h), .hart h .lockQueue,
    .hart h (.look ⟨t, .fair 0⟩), .hart h .load, .hart h .take, .hart h .clear, .hart h .tryMarkOnCpu,
    .hart h .switchIn]

/-! ### Frames -/

section Frames

variable {m : Machine} {t t' : Task} {id id' : Nat} {h h' : Hart} {c : Tcb} {o : Option Op} {q : List Entry}
  {x : HartState} {p : HartPhase}

@[simp] theorem setTcb_queue : (m.setTcb t c).queue = m.queue := rfl
@[simp] theorem setTcb_hart : (m.setTcb t c).hart = m.hart := rfl
@[simp] theorem setTcb_self : (m.setTcb t c).tcb t = c := update_self ..
theorem setTcb_of_ne (hne : t' ≠ t) : (m.setTcb t c).tcb t' = m.tcb t' := update_of_ne hne ..

@[simp] theorem setOp_tcb : (m.setOp id o).tcb = m.tcb := rfl
@[simp] theorem setOp_created : (m.setOp id o).created = m.created := rfl
@[simp] theorem setOp_queue : (m.setOp id o).queue = m.queue := rfl
@[simp] theorem setOp_hart : (m.setOp id o).hart = m.hart := rfl
@[simp] theorem setOp_self : (m.setOp id o).ops id = o := update_self ..
theorem setOp_of_ne (hne : id' ≠ id) : (m.setOp id o).ops id' = m.ops id' := update_of_ne hne ..

@[simp] theorem setQueue_self : (m.setQueue h q).queue h = q := update_self ..
theorem setQueue_of_ne (hne : h' ≠ h) : (m.setQueue h q).queue h' = m.queue h' := update_of_ne hne ..

@[simp] theorem setHart_tcb : (m.setHart h x).tcb = m.tcb := rfl
@[simp] theorem setHart_self : (m.setHart h x).hart h = x := update_self ..

@[simp] theorem goto_tcb : (m.goto h p).tcb = m.tcb := rfl
@[simp] theorem goto_queue : (m.goto h p).queue = m.queue := rfl

end Frames

end Machine

end HitOS.Sched
