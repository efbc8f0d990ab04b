import HitOS.Task.Scheduler

/-!
# What one step of the scheduler does

`HartMove` has one constructor for each way a hart can take a step, with what it has seen and the
state afterwards; `hartMove_of_hartStep` says that there are no others. The invariants are proved by
cases over it. For an operation, `opTcb` is what its step does to the task, and the lemmas
`opStep_*` say that the step changes nothing else but the operation itself and the run queue whose
lock it takes.
-/

namespace HitOS.Sched

open Option

namespace Machine

/-! ### The steps of an operation -/

/-- What the step of an operation does to its task. -/
def opTcb (c : Tcb) : OpStage → Tcb
  | .wakeDefer => { c with onCpu := c.onCpu.defer.1 }
  | .wakeStatus => (wakeIfBlocked c).1
  | .addCas hart => if c.readyQueueHart = none then { c with readyQueueHart := some hart } else c
  | .addStore _ => { c with inReadyQueue := true }
  | .addUndo | .removeStore _ _ => { c with inReadyQueue := false }
  | .removeSwap _ => { c with readyQueueHart := none }
  | .takeRes => { c with res := false }
  | .addPush _ | .refreshLoad | .removeScan _ _ => c

section OpStep

variable (m : Machine) (id : Nat) (op : Op) (target : Hart) (slot : Slot)

theorem opStep_tcb : (m.opStep id op target slot).tcb =
    Function.update m.tcb op.task (opTcb (m.tcb op.task) op.stage) := by
  obtain ⟨t, stage⟩ := op
  cases stage with
  | addCas =>
    simp only [opStep, opTcb]
    split
    · rfl
    · exact (Function.update_eq_self t m.tcb).symm
  | addPush =>
    simp only [opStep]
    split <;> exact (Function.update_eq_self t m.tcb).symm
  | refreshLoad | removeScan => exact (Function.update_eq_self t m.tcb).symm
  | removeStore why => cases why <;> rfl
  | _ => rfl

theorem opStep_tcb_self : (m.opStep id op target slot).tcb op.task = opTcb (m.tcb op.task) op.stage := by
  rw [opStep_tcb, Function.update_self]

variable {m id op target slot}

theorem opStep_frame : (m.opStep id op target slot).hart = m.hart ∧
    (m.opStep id op target slot).created = m.created := by
  obtain ⟨t, stage⟩ := op
  cases stage with
  | addCas hart | addPush hart =>
    simp only [opStep]
    split <;> exact ⟨rfl, rfl⟩
  | removeStore why => cases why <;> exact ⟨rfl, rfl⟩
  | _ => exact ⟨rfl, rfl⟩

@[simp]
theorem opStep_hart : (m.opStep id op target slot).hart = m.hart := opStep_frame.1

@[simp]
theorem opStep_created : (m.opStep id op target slot).created = m.created := opStep_frame.2

theorem opStep_ops_of_ne {id' : Nat} (hne : id' ≠ id) : (m.opStep id op target slot).ops id' = m.ops id' := by
  obtain ⟨t, stage⟩ := op
  cases stage with
  | addCas hart | addPush hart =>
    simp only [opStep]
    split <;> exact setOp_of_ne hne
  | removeStore why => cases why <;> exact setOp_of_ne hne
  | _ => exact setOp_of_ne hne

/-- An operation stays on its task. -/
theorem opStep_task {o : Op} (ho : (m.opStep id op target slot).ops id = some o) : o.task = op.task := by
  obtain ⟨t, stage⟩ := op
  cases stage with
  | wakeDefer | wakeStatus | refreshLoad =>
    simp only [opStep, setOp_self] at ho
    split at ho <;> cases ho
    rfl
  | addCas hart | addPush hart =>
    simp only [opStep] at ho
    split at ho <;> rw [setOp_self] at ho <;> cases ho
    rfl
  | removeSwap =>
    simp only [opStep, setOp_self] at ho
    split at ho <;> cases ho <;> rfl
  | removeStore why =>
    cases why with
    | refresh =>
      simp only [opStep, setOp_self] at ho
      split at ho <;> cases ho
      rfl
    | exit =>
      simp only [opStep, setOp_self] at ho
      cases ho
      rfl
  | _ =>
    simp only [opStep, setOp_self] at ho
    cases ho <;> rfl

/-- Only the sections under a lock change a run queue. -/
theorem opStep_queue_of_ne {h : Hart} (hne : op.stage.lock? ≠ some h) :
    (m.opStep id op target slot).queue h = m.queue h := by
  obtain ⟨t, stage⟩ := op
  cases stage with
  | addCas =>
    simp only [opStep]
    split <;> rfl
  | addPush hart =>
    have hh : h ≠ hart := fun heq => hne (heq ▸ rfl)
    simp only [opStep]
    split
    · exact setQueue_of_ne hh
    · rfl
  | removeScan => exact setQueue_of_ne fun heq => hne (heq ▸ rfl)
  | removeStore why => cases why <;> rfl
  | _ => rfl

end OpStep

section Start

variable {m m' : Machine} {id : Nat} {t : Task} {target : Hart}

/-- An operation that goes on takes its next step. -/
theorem opNext_eq {slot : Slot} (h : m.opNext id target slot = some m') :
    ∃ op, m.ops id = some op ∧ m' = m.opStep id op target slot := by
  unfold opNext at h
  split at h
  · cases h
  next op hop =>
  refine ⟨op, hop, ?_⟩
  split at h
  · split at h
    · cases h
    · exact (some.inj h).symm
  · exact (some.inj h).symm

theorem start_eq {stage : OpStage} (h : m.start t id stage = some m') :
    m.created t = true ∧ m.ops id = none ∧ m' = m.setOp id (some ⟨t, stage⟩) := by
  unfold start at h
  split at h
  · next hc =>
    cases h
    exact ⟨hc.1, hc.2, rfl⟩
  · cases h

/-- A new task changes only `created` and the operations. -/
theorem spawn_eq (h : m.exec (.spawn t id target) = some m') : m.created t = false ∧ m.ops id = none ∧
      m' = { m with created := Function.update m.created t true }.setOp id (some ⟨t, .addCas target⟩) := by
  simp only [exec] at h
  split at h
  · next hc =>
    cases h
    exact ⟨hc.1, hc.2, rfl⟩
  · cases h

end Start

/-! ### The steps of a hart -/

/-- The ways a hart can take a step. -/
inductive HartMove (m : Machine) (h : Hart) : HartAct → Machine → Prop
  | noBlocked {id : Nat} (hp : (m.hart h).phase = .top) (hs : (m.hart h).pendingBlocked = none) :
      HartMove m h (.takePendingBlocked id) (m.goto h .requeue)
  | finishBlocked {id : Nat} {t : Task} (hp : (m.hart h).phase = .top)
      (hs : (m.hart h).pendingBlocked = some t) (hw : (m.tcb t).onCpu.hasPending = false) :
      HartMove m h (.takePendingBlocked id)
        ((m.finishRunning t).setHart h { m.hart h with phase := .requeue, pendingBlocked := none })
  | replay {id : Nat} {t : Task} (hp : (m.hart h).phase = .top) (hs : (m.hart h).pendingBlocked = some t)
      (hw : (m.tcb t).onCpu.hasPending = true) (hid : m.ops id = none) :
      HartMove m h (.takePendingBlocked id)
        (((m.finishRunning t).setHart h { m.hart h with phase := .requeue, pendingBlocked := none }).setOp id
          (some ⟨t, .wakeDefer⟩))
  | noReady {id : Nat} {target : Hart} (hp : (m.hart h).phase = .requeue)
      (hs : (m.hart h).pendingReady = none) :
      HartMove m h (.takePendingReady id target) (m.goto h .clean)
  | finishReady {id : Nat} {target : Hart} {t : Task} (hp : (m.hart h).phase = .requeue)
      (hs : (m.hart h).pendingReady = some t) (hid : m.ops id = none) :
      HartMove m h (.takePendingReady id target)
        (((m.finishRunning t).setHart h { m.hart h with phase := .clean, pendingReady := none }).setOp id
          (some ⟨t, .addCas target⟩))
  | finishDrop {t : Task} {rest : List Task} (hp : (m.hart h).phase = .clean)
      (hs : (m.hart h).pendingDrop = t :: rest) :
      HartMove m h .takePendingDrop ((m.finishRunning t).setHart h { m.hart h with pendingDrop := rest })
  | lockQueue (hp : (m.hart h).phase = .clean) : HartMove m h .lockQueue (m.goto h .fetch)
  | popRt {e : Entry} (hp : (m.hart h).phase = .fetch) (hrt : e.slot.isRt = true) (he : e ∈ m.queue h) :
      HartMove m h (.popRt e) (m.claim h e)
  | look {e : Entry} (hp : (m.hart h).phase = .fetch) (hrt : e.slot.isRt = false) (he : e ∈ m.queue h) :
      HartMove m h (.look e) (m.goto h (.looked e (decide ((m.tcb e.task).status = .ready))))
  | select {e : Entry} (hp : (m.hart h).phase = .looked e true)
      (hq : (m.tcb e.task).readyQueueHart = some h) :
      HartMove m h .load (m.goto h (.selected e))
  | stale {e : Entry} {ready : Bool} (hp : (m.hart h).phase = .looked e ready)
      (hq : ¬((m.tcb e.task).readyQueueHart = some h ∧ ready = true)) :
      HartMove m h .load (m.goto h (.pruning e (decide ((m.tcb e.task).readyQueueHart = some h))))
  | prune {e : Entry} {here : Bool} (hp : (m.hart h).phase = .pruning e here) :
      HartMove m h .prune (m.dropStale h e here)
  | take {e : Entry} (hp : (m.hart h).phase = .selected e) (he : e ∈ m.queue h) :
      HartMove m h .take (m.claim h e)
  | takeNone {e : Entry} (hp : (m.hart h).phase = .selected e) (he : e ∉ m.queue h) :
      HartMove m h .take (m.goto h .fetch)
  | clear {e : Entry} {still : Bool} (hp : (m.hart h).phase = .clearing e still) :
      HartMove m h .clear ((m.setTcb e.task { m.tcb e.task with inReadyQueue := false }).goto h
        (if still then if e.slot.isRt then .checking e else .marking e else .fetch))
  | check {e : Entry} (hp : (m.hart h).phase = .checking e) :
      HartMove m h .check (m.goto h (if (m.tcb e.task).status = .ready then .marking e else .fetch))
  | mark {e : Entry} (hp : (m.hart h).phase = .marking e) (ho : (m.tcb e.task).onCpu = .off) :
      HartMove m h .tryMarkOnCpu
        ((m.setTcb e.task { m.tcb e.task with onCpu := .on h false }).goto h (.entering e.task))
  | markFailed {e : Entry} {h' : Hart} {pending : Bool} (hp : (m.hart h).phase = .marking e)
      (ho : (m.tcb e.task).onCpu = .on h' pending) :
      HartMove m h .tryMarkOnCpu ((m.setTcb e.task (m.tcb e.task)).goto h .fetch)
  | giveUp (hp : (m.hart h).phase = .fetch) : HartMove m h .giveUp (m.goto h .top)
  | switchIn {t : Task} (hp : (m.hart h).phase = .entering t) :
      HartMove m h .switchIn ((m.setTcb t { m.tcb t with status := .running }).goto h (.running t))
  | presleep {t : Task} (hp : (m.hart h).phase = .running t) :
      HartMove m h .presleep (m.setTcb t { m.tcb t with status := .blocked })
  | discard {t : Task} (hp : (m.hart h).phase = .running t) : HartMove m h .discardDeferredWakeup
        (m.setTcb t { m.tcb t with onCpu := (m.tcb t).onCpu.discard })
  | takeCurrentTask {t : Task} {how : Leave} (hp : (m.hart h).phase = .running t) :
      HartMove m h (.takeCurrentTask how) (m.goto h (.leaving t how))
  | suspend {t : Task} (hp : (m.hart h).phase = .leaving t .suspend) :
      HartMove m h .setPending ((m.setTcb t { m.tcb t with status := .ready }).setHart h
        { m.hart h with phase := .switching t, pendingReady := some t })
  | blockReady {t : Task} (hp : (m.hart h).phase = .leaving t .block) (hr : (m.tcb t).status = .ready) :
      HartMove m h .setPending (m.setHart h { m.hart h with phase := .switching t, pendingReady := some t })
  | block {t : Task} (hp : (m.hart h).phase = .leaving t .block) (hr : (m.tcb t).status ≠ .ready) :
      HartMove m h .setPending ((m.setTcb t { m.tcb t with status := .blocked }).setHart h
        { m.hart h with phase := .switching t, pendingBlocked := some t })
  | exit {t : Task} (hp : (m.hart h).phase = .leaving t .exit) :
      HartMove m h .setPending ((m.setTcb t { m.tcb t with res := false }).setHart h
        { m.hart h with phase := .switching t, pendingDrop := (m.hart h).pendingDrop ++ [t] })
  | switchOut {t : Task} (hp : (m.hart h).phase = .switching t) : HartMove m h .switchOut (m.goto h .top)

/-- **A hart takes no other steps.** -/
theorem hartMove_of_hartStep {m m' : Machine} {h : Hart} {act : HartAct}
    (hstep : m.hartStep h act = some m') : HartMove m h act m' := by
  cases act <;> simp only [hartStep] at hstep
  case takePendingBlocked id =>
    split at hstep
    · next hp hs =>
      cases hstep
      exact .noBlocked hp hs
    · next t hp hs =>
      split at hstep
      · next hw =>
        -- a wakeup came while the task was on the CPU
        split at hstep <;> cases hstep
        next hid => exact .replay hp hs hw hid
      · next hw =>
        cases hstep
        exact .finishBlocked hp hs (by simpa using hw)
    · cases hstep
  case takePendingReady id target =>
    split at hstep
    · next hp hs =>
      cases hstep
      exact .noReady hp hs
    · next t hp hs =>
      split at hstep <;> cases hstep
      next hid => exact .finishReady hp hs hid
    · cases hstep
  case takePendingDrop =>
    split at hstep <;> cases hstep
    next hp hs => exact .finishDrop hp hs
  case popRt e =>
    split at hstep <;> cases hstep
    next hc => exact .popRt hc.1 hc.2.1 hc.2.2
  case look e =>
    split at hstep <;> cases hstep
    next hc => exact .look hc.1 hc.2.1 hc.2.2
  case load =>
    split at hstep
    · next e _ hp =>
      split at hstep <;> cases hstep
      · next hc => exact .select (hc.2 ▸ hp) hc.1
      · next hc => exact .stale hp hc
    · cases hstep
  case take =>
    split at hstep
    · next e hp =>
      split at hstep <;> cases hstep
      · next he => exact .take hp he
      · next he => exact .takeNone hp he
    · cases hstep
  case tryMarkOnCpu =>
    split at hstep
    · next e hp =>
      cases ho : (m.tcb e.task).onCpu with
      | off =>
        simp only [ho] at hstep
        cases hstep
        exact .mark hp ho
      | on h' pending =>
        -- the word is written back as it was
        have hsame : { m.tcb e.task with onCpu := .on h' pending } = m.tcb e.task := by rw [← ho]
        simp only [ho, OnCpu.tryMark, hsame] at hstep
        cases hstep
        exact .markFailed hp ho
    · cases hstep
  case setPending =>
    split at hstep <;> cases hstep
    next t how hp =>
    cases how with
    | suspend => exact .suspend hp
    | block =>
      simp only [setPending]
      -- a task that was woken in between is put aside as ready
      split
      · next hr => exact .blockReady hp hr
      · next hr => exact .block hp hr
    | exit => exact .exit hp
  case lockQueue | prune | clear | check | giveUp | switchIn | presleep | discardDeferredWakeup |
      takeCurrentTask | switchOut =>
    -- one phase, and no choice in it
    split at hstep <;> cases hstep
    next hp =>
    constructor
    exact hp

/-! ### Frames of a hart -/

section Frames

variable {m m' : Machine} {h h' : Hart} {act : HartAct}

/-- A step of a hart leaves the other harts alone. -/
theorem HartMove.hart_of_ne (hmove : HartMove m h act m') (hne : h' ≠ h) : m'.hart h' = m.hart h' := by
  cases hmove <;> first
    | rfl
    | exact Function.update_of_ne hne ..

theorem HartMove.created (hmove : HartMove m h act m') : m'.created = m.created := by
  cases hmove <;> rfl

theorem goto_hart_self {p : HartPhase} : (m.goto h p).hart h = { m.hart h with phase := p } := setHart_self

end Frames

/-! ### The operations of a step -/

/-- The operation that a step begins or goes on with. -/
def Label.id? : Label → Option Nat
  | .spawn _ id _ | .wake _ id | .refresh _ id | .remove _ id | .op id _ _ => some id
  | .hart _ (.takePendingBlocked id) | .hart _ (.takePendingReady id _) => some id
  | .hart _ _ => none

/-- A step leaves the other operations alone. -/
theorem exec_ops_of_ne {m m' : Machine} {l : Label} {id : Nat} (hstep : m.exec l = some m')
    (hne : l.id? ≠ some id) : m'.ops id = m.ops id := by
  cases l with
  | spawn =>
    obtain ⟨-, -, rfl⟩ := spawn_eq hstep
    exact setOp_of_ne fun heq => hne (heq ▸ rfl)
  | wake t id' | refresh t id' | remove t id' =>
    obtain ⟨-, -, rfl⟩ := start_eq hstep
    exact setOp_of_ne fun heq => hne (heq ▸ rfl)
  | op =>
    obtain ⟨_, -, rfl⟩ := opNext_eq hstep
    exact opStep_ops_of_ne fun heq => hne (heq ▸ rfl)
  | hart =>
    cases hartMove_of_hartStep hstep with
    -- the two steps of a hart that begin an operation
    | replay | finishReady => exact setOp_of_ne fun heq => hne (heq ▸ rfl)
    | _ => rfl

/-- Operations that a list of steps does not mention are not there afterwards. -/
theorem execs_ops_none {ls : List Label} {m : Machine} {id : Nat} (hls : boot.execs ls = some m)
    (hne : ∀ l ∈ ls, l.id? ≠ some id) : m.ops id = none := by
  refine foldlM_invariant (I := fun m => m.ops id = none) rfl (fun _ l _ hl hnone hexec => ?_) hls
  rw [exec_ops_of_ne hexec (hne l hl), hnone]

end Machine

end HitOS.Sched
