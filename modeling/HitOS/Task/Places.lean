import HitOS.Task.View

/-!
# Where a task is

A task is at one place: on a CPU, blocked, in one run queue, in the hand of a hart that has taken it
from its queue and not yet marked it, or carried by an operation that is about to enqueue it. `At`
is what the view of a task says when it is at a place: `ready_queue_hart`, the entries in the run
queues, the operations, the on-CPU word and the status all agree. Each step about the task takes it
from a place to a place (`At.opStep`, `At.hartMove`).

This needs care at three points, where the source tests and updates in separate steps (`Careful`).
-/

namespace HitOS.Sched

open Option Machine HartState

/-! ### Places -/

/-- The operation is about to enqueue its task, or to take it out in order to do so. -/
def OpStage.carries : OpStage → Bool
  | addCas _ | addStore _ | addPush _ | removeScan .refresh _ => true
  | removeStore .refresh removed => removed != 0
  | _ => false

/-- The operation is part of the exit of its task. -/
def OpStage.exits : OpStage → Bool
  | removeSwap .exit | removeScan .exit _ | removeStore .exit _ | takeRes => true
  | _ => false

/-- The places of a task. -/
inductive Place where
  /-- Marked on the CPU of a hart, and not yet finished there. -/
  | cpu (h : Hart)
  | blocked
  /-- In the hands of an operation. -/
  | carried (id : Nat) (stage : OpStage)
  | queued (h : Hart)
  | inHand (h : Hart)

namespace Place

/-- The hart that the on-CPU word names. -/
def hart? : Place → Option Hart
  | cpu h => some h
  | _ => none

/-- `ready_queue_hart`. -/
def marker : Place → Option Hart
  | queued h | carried _ (.addStore h) | carried _ (.addPush h) => some h
  | _ => none

/-- The run queue that has an entry. -/
def queue : Place → Option Hart
  | queued h | carried _ (.removeScan _ h) => some h
  | _ => none

/-- The operation that has the task. -/
def op : Place → Option (Nat × OpStage)
  | carried id stage => some (id, stage)
  | _ => none

def hand : Place → Option Hart
  | inHand h => some h
  | _ => none

/-- The status, where the place says it. -/
def status : Place → Option TaskStatus
  | cpu _ => none
  | blocked => some .blocked
  | _ => some .ready

end Place

/-- **A task is at a place.** -/
structure At (v : View) (p : Place) : Prop where
  onCpu : v.tcb.onCpu.hart? = p.hart?
  marker : v.tcb.readyQueueHart = p.marker
  /-- It is in the run queue of the place once, and in no other. -/
  count : ∀ h, v.count h = if p.queue = some h then 1 else 0
  /-- No other operation is about to enqueue it. -/
  ops : ∀ id s, s.carries = true → (v.stage id = some s ↔ p.op = some (id, s))
  carries : ∀ id s, p.op = some (id, s) → s.carries = true
  hand : ∀ h, (v.phase h).inHand = true ↔ p.hand = some h
  /-- A hart has an eye on it only in its own queue, and is going to take it. -/
  eyed : ∀ h b, (v.phase h).eye = some b → b = true ∧ p = .queued h
  status : ∀ st, p.status = some st → v.tcb.status = st
  /-- A wakeup that has found it off the CPU is right about that. -/
  waking : ∀ id, v.stage id = some .wakeStatus → p.hart? = none
  /-- A task that was put aside is still on the CPU, and has its new status. -/
  blockedOn : ∀ h, v.blockedOn h = true → p = .cpu h ∧ v.tcb.status = .blocked
  readyOn : ∀ h, v.readyOn h = true → p = .cpu h ∧ v.tcb.status = .ready

/-- A task that is there and does not exit. -/
structure View.Alive (v : View) : Prop where
  created : v.created = true
  res : v.tcb.res = true
  stays : ∀ id s, v.stage id = some s → s.exits = false

/-- What holds of every task. -/
structure Placed (v : View) : Prop where
  unborn : v.created = false → v = .unborn
  place : v.Alive → ∃ p, At v p
  thawed : v.tcb.cgroupFrozen = false

namespace Machine

/-! ### The condition -/

/-- **The care that a run takes**, at the three points where a test and an update are separate
steps. -/
structure Careful (m : Machine) (l : Label) : Prop where
  /-- `refresh_task_runqueue` exchanges `ready_queue_hart` neither between the exchange and the push
  of an `add` of the same task, nor while a hart has its eye on the entry. -/
  swap : ∀ id target slot t, l = .op id target slot → m.ops id = some ⟨t, .removeSwap .refresh⟩ →
    (∀ id' h, m.stage t id' ≠ some (.addStore h) ∧ m.stage t id' ≠ some (.addPush h)) ∧
    ∀ h, ((m.hart h).phase.about t).eye = none
  /-- A hart turns to no entry that `refresh_task_runqueue` is about to take out. -/
  fetch : ∀ h e, l = .hart h (.popRt e) ∨ l = .hart h (.look e) →
    ∀ id h', m.stage e.task id ≠ some (.removeScan .refresh h')
  /-- A hart marks no task that a wakeup has found off the CPU and not yet looked at. -/
  mark : ∀ h e, l = .hart h .tryMarkOnCpu → (m.hart h).phase = .marking e → ∀ id,
    m.stage e.task id ≠ some .wakeStatus

end Machine

/-! ### Operations on a task -/

variable {v v' : View} {p p' : Place} {o : Option OpStage} {op : Op} {x : HartState} {s : OpStage} {e : Entry}
  {m : Machine} {t : Task} {slot : Slot} {id : Nat}

/-- The harts do with a task what they did. -/
structure SameHarts (v v' : View) : Prop where
  phase : v'.phase = v.phase
  blockedOn : v'.blockedOn = v.blockedOn
  readyOn : v'.readyOn = v.readyOn

/-- An operation takes a task from a place to a place. -/
theorem At.change (ha : At v p) (id : Nat) (hharts : SameHarts v v')
    (hother : ∀ id', id' ≠ id → v'.stage id' = v.stage id')
    (honCpu : v'.tcb.onCpu.hart? = v.tcb.onCpu.hart?) (hhart : p'.hart? = p.hart?)
    (hmarker : v'.tcb.readyQueueHart = p'.marker)
    (hcount : ∀ h, v'.count h = if p'.queue = some h then 1 else 0)
    (hself : ∀ s, s.carries = true → (v'.stage id = some s ↔ p'.op = some (id, s)))
    (hop : ∀ id' s, id' ≠ id → (p'.op = some (id', s) ↔ p.op = some (id', s)))
    (hcarries : ∀ s, p'.op = some (id, s) → s.carries = true) (hhand : p'.hand = p.hand)
    (heyed : ∀ h, p = .queued h → p' = .queued h ∨ (v.phase h).eye = none)
    (hstatus : ∀ st, p'.status = some st → v'.tcb.status = st)
    (hwaking : v'.stage id = some .wakeStatus → p'.hart? = none)
    (hcpu : ∀ h, p = .cpu h → p' = .cpu h ∧ v'.tcb.status = v.tcb.status) : At v' p' where
  onCpu := honCpu.trans (ha.onCpu.trans hhart.symm)
  marker := hmarker
  count := hcount
  ops id' s hs := by
    by_cases hid : id' = id
    · subst hid
      exact hself s hs
    · rw [hother id' hid, ha.ops id' s hs, hop id' s hid]
  carries id' s hps := by
    by_cases hid : id' = id
    · subst hid
      exact hcarries s hps
    · exact ha.carries id' s ((hop id' s hid).mp hps)
  hand h := by rw [hharts.phase, ha.hand, hhand]
  eyed h b hb := by
    rw [hharts.phase] at hb
    obtain ⟨hb', hp⟩ := ha.eyed h b hb
    refine ⟨hb', (heyed h hp).resolve_right fun hnone => ?_⟩
    rw [hnone] at hb
    cases hb
  status := hstatus
  waking id' hid' := by
    by_cases hid : id' = id
    · subst hid
      exact hwaking hid'
    · rw [hhart]
      exact ha.waking id' (hother id' hid ▸ hid')
  blockedOn h hh := by
    obtain ⟨hp, hst⟩ := ha.blockedOn h (hharts.blockedOn ▸ hh)
    exact ⟨(hcpu h hp).1, (hcpu h hp).2.trans hst⟩
  readyOn h hh := by
    obtain ⟨hp, hst⟩ := ha.readyOn h (hharts.readyOn ▸ hh)
    exact ⟨(hcpu h hp).1, (hcpu h hp).2.trans hst⟩

/-- The place of a task that an operation carries. -/
theorem At.eq_carried {id : Nat} (ha : At v p) (hs : v.stage id = some s)
    (hc : s.carries = true) : p = .carried id s := by
  have hop := (ha.ops id s hc).mp hs
  cases p with
  | carried =>
    cases hop
    rfl
  | _ => cases hop

/-- An operation that does not carry the task, before and after its step. -/
theorem At.stay (ha : At v p) (id : Nat) (hharts : SameHarts v v')
    (hother : ∀ id', id' ≠ id → v'.stage id' = v.stage id')
    (honCpu : v'.tcb.onCpu.hart? = v.tcb.onCpu.hart?)
    (hmarker : v'.tcb.readyQueueHart = v.tcb.readyQueueHart)
    (hstatus : v'.tcb.status = v.tcb.status)
    (hcount : v'.count = v.count) (hbefore : ∀ s, v.stage id = some s → s.carries = false)
    (hafter : ∀ s, v'.stage id = some s → s.carries = false)
    (hwaking : v'.stage id = some .wakeStatus → p.hart? = none) : At v' p := by
  have hop : ∀ s, p.op ≠ some (id, s) := by
    intro s hps
    have hc := ha.carries id s hps
    rw [hbefore s ((ha.ops id s hc).mpr hps)] at hc
    cases hc
  refine ha.change id hharts hother honCpu rfl (hmarker.trans ha.marker) (hcount ▸ ha.count)
    (fun s hs => iff_of_false (fun hst => ?_) (hop s)) (fun _ _ _ => Iff.rfl)
    (fun s hps => absurd hps (hop s)) rfl (fun h hp => .inl hp)
    (fun st hst => hstatus.trans (ha.status st hst))
    hwaking fun h hp => ⟨hp, hstatus⟩
  rw [hafter s hst] at hs
  cases hs

namespace Machine

section Operation

variable {target : Hart}

theorem sameHarts_opStep : SameHarts (m.view t) ((m.opStep id op target slot).view t) := by
  constructor <;> simp only [view, opStep_hart]

theorem opStep_stage_of_ne (id' : Nat) (hne : id' ≠ id) :
    (m.opStep id op target slot).stage t id' = m.stage t id' :=
  stage_congr (opStep_ops_of_ne hne)

theorem opStep_stage_self (h : (m.opStep id ⟨t, s⟩ target slot).ops id = o.map fun s' => ⟨t, s'⟩) :
    (m.opStep id ⟨t, s⟩ target slot).stage t id = o := by
  cases o with
  | none => exact stage_of_none h
  | some => exact stage_eq_some.mpr h

theorem opStep_view_onCpu : ((m.opStep id op target slot).view t).tcb.onCpu.hart? =
    (m.view t).tcb.onCpu.hart? := opStep_onCpu t

/-- Outside the sections under a lock, no run queue changes. -/
theorem opStep_count (hlock : op.stage.lock? = none) :
    ((m.opStep id op target slot).view t).count = (m.view t).count := by
  funext h
  simp only [view]
  rw [opStep_queue_of_ne]
  rw [hlock]
  exact (by rintro ⟨⟩)

end Operation

end Machine

section Operation

open Machine

variable {target hart : Hart}

/-- The step of an operation that does not carry its task and does nothing to its place. -/
theorem At.opStep_stay (ha : At (m.view t) p) (hop : m.ops id = some ⟨t, s⟩)
    (hs : s.carries = false)
    (hmarker : (opTcb (m.tcb t) s).readyQueueHart = (m.tcb t).readyQueueHart)
    (hstatus : (opTcb (m.tcb t) s).status = (m.tcb t).status) (hlock : s.lock? = none)
    (hnext : (m.opStep id ⟨t, s⟩ target slot).ops id = o.map fun s' => ⟨t, s'⟩)
    (ho : ∀ s', o = some s' → s'.carries = false := by intros; contradiction)
    (hw : o = some .wakeStatus → p.hart? = none := by intros; contradiction) :
    At ((m.opStep id ⟨t, s⟩ target slot).view t) p := by
  have htcb := opStep_tcb_self m id ⟨t, s⟩ target slot
  refine ha.stay id sameHarts_opStep opStep_stage_of_ne opStep_view_onCpu ?_ ?_ (opStep_count hlock)
    ?_ ?_ ?_
  · simp only [view, htcb, hmarker]
  · simp only [view, htcb, hstatus]
  · intro s' hs'
    cases (stage_eq_some.mp hs').symm.trans hop
    exact hs
  · intro s' hs'
    exact ho s' ((opStep_stage_self hnext).symm.trans hs')
  · intro hs'
    exact hw ((opStep_stage_self hnext).symm.trans hs')

/-- The step of an operation that carries its task from here on, or goes on to carry it. -/
theorem At.opStep_carry (ha : At (m.view t) p) (hp : p.hart? = none ∧ p.hand = none)
    (hmine : ∀ id' s', id' ≠ id → p.op ≠ some (id', s')) (s' : OpStage)
    (hnext : (m.opStep id ⟨t, s⟩ target slot).ops id = some ⟨t, s'⟩) (hc : s'.carries = true)
    (hstatus : (opTcb (m.tcb t) s).status = .ready)
    (hmarker : (opTcb (m.tcb t) s).readyQueueHart = (Place.carried id s').marker)
    (hcount : ∀ h, entries t ((m.opStep id ⟨t, s⟩ target slot).queue h) =
      if (Place.carried id s').queue = some h then 1 else 0)
    (heye : ∀ h, p = .queued h →
      ((m.hart h).phase.about t).eye = none := by intros; contradiction) :
    At ((m.opStep id ⟨t, s⟩ target slot).view t) (.carried id s') := by
  have htcb := opStep_tcb_self m id ⟨t, s⟩ target slot
  have hstage : (m.opStep id ⟨t, s⟩ target slot).stage t id = some s' := stage_eq_some.mpr hnext
  refine ha.change id sameHarts_opStep opStep_stage_of_ne opStep_view_onCpu hp.1.symm ?_ hcount
    (fun s₁ _ => ?_) (fun id' s₁ hid => ?_) (fun s₁ hs₁ => ?_) hp.2.symm
    (fun h hq => .inr (heye h hq))
    (fun st hst => ?_) (fun _ => rfl) ?_
  · simp only [view, htcb, hmarker]
  · simp [view, hstage, Place.op]
  · exact iff_of_false (by simp [Place.op, symm hid]) (hmine id' s₁ hid)
  · cases hs₁
    exact hc
  · simp only [view, htcb, hstatus]
    exact some.inj hst
  · rintro h rfl
    cases hp.1

/-- A wakeup finds a task blocked, and carries it to a run queue. -/
theorem At.opStep_wake (ha : At (m.view t) .blocked) (hres : (m.tcb t).res = true)
    (hthawed : (m.tcb t).cgroupFrozen = false) :
    At ((m.opStep id ⟨t, .wakeStatus⟩ target slot).view t) (.carried id (.addCas target)) := by
  have hst : (m.tcb t).status = .blocked := ha.status _ rfl
  have hwake : wakeIfBlocked (m.tcb t) =
      ({ m.tcb t with status := .ready, parkedByCgroup := false, wakeOnCgroupThaw := false },
        true) := by
    simp [wakeIfBlocked, hres, hst, hthawed]
  refine ha.opStep_carry ⟨rfl, rfl⟩ nofun _ ?_ rfl ?_ ?_ fun h => ?_
  · simp [opStep, hwake]
  · rw [opTcb, hwake]
  · rw [opTcb, hwake]
    exact ha.marker
  · exact (congrFun (opStep_count rfl) h).trans (ha.count h)

/-- `add` puts the task into a run queue. -/
theorem At.opStep_push (ha : At (m.view t) (.carried id (.addPush hart))) :
    At ((m.opStep id ⟨t, .addPush hart⟩ target slot).view t) (.queued hart) := by
  have htcb := opStep_tcb_self m id ⟨t, .addPush hart⟩ target slot
  have hmarker : (m.tcb t).readyQueueHart = some hart := ha.marker
  have hstep : m.opStep id ⟨t, .addPush hart⟩ target slot =
      (m.setQueue hart (pushEntry (m.queue hart) ⟨t, slot⟩)).setOp id none := by
    simp [opStep, hmarker]
  have hstage : (m.opStep id ⟨t, .addPush hart⟩ target slot).stage t id = none :=
    stage_of_none (by rw [hstep, setOp_self])
  refine ha.change id sameHarts_opStep opStep_stage_of_ne opStep_view_onCpu rfl ?_ ?_
    (fun s' _ => ?_) (fun id' s' hid => ?_) (by intros; contradiction) rfl
    (by intros; contradiction) ?_ (fun _ => rfl) (by intros; contradiction)
  · simp only [view, htcb]
    exact ha.marker
  · intro h
    simp only [view, hstep, setOp_queue]
    by_cases hh : h = hart
    · subst hh
      have h0 : entries t (m.queue h) = 0 := ha.count h
      rw [setQueue_self]
      exact (entries_push_self (e := ⟨t, slot⟩) h0).trans (if_pos rfl).symm
    · rw [setQueue_of_ne hh]
      exact (ha.count h).trans (if_neg fun heq => hh (some.inj heq).symm).symm
  · simp only [view, hstage]
    exact iff_of_false (by rintro ⟨⟩) (by rintro ⟨⟩)
  · simp [Place.op, symm hid]
  · rintro _ ⟨⟩
    simp only [view, htcb]
    exact ha.status _ rfl

/-- `refresh_task_runqueue` takes over a task that is in a run queue and that no hart has an eye
on. -/
theorem At.opStep_swap (ha : At (m.view t) (.queued hart))
    (heye : ∀ h, ((m.hart h).phase.about t).eye = none) :
    At ((m.opStep id ⟨t, .removeSwap .refresh⟩ target slot).view t)
      (.carried id (.removeScan .refresh hart)) := by
  have hmarker : (m.tcb t).readyQueueHart = some hart := ha.marker
  refine ha.opStep_carry ⟨rfl, rfl⟩ nofun _ ?_ rfl (ha.status _ rfl) rfl (fun h => ?_) fun h _ =>
    heye h
  · simp [opStep, hmarker]
  · exact (congrFun (opStep_count rfl) h).trans (ha.count h)

/-- **The step of an operation** takes its task from a place to a place. -/
theorem At.opStep (ha : At (m.view t) p) (hop : m.ops id = some ⟨t, s⟩)
    (hres : (m.tcb t).res = true)
    (hthawed : (m.tcb t).cgroupFrozen = false) (hexit : s.exits = false)
    (hcare : s = .removeSwap .refresh →
      (∀ id' h, m.stage t id' ≠ some (.addStore h) ∧ m.stage t id' ≠ some (.addPush h)) ∧
      ∀ h, ((m.hart h).phase.about t).eye = none) :
    ∃ p', At ((m.opStep id ⟨t, s⟩ target slot).view t) p' := by
  have hstage : m.stage t id = some s := stage_eq_some.mpr hop
  have hmine id' s' (hid : id' ≠ id) : (Place.carried id s).op ≠ some (id', s') := by
    simp [Place.op, hid.symm]
  cases s with
  | wakeDefer =>
    cases ho : (m.tcb t).onCpu with
    | off =>
      refine ⟨p, ha.opStep_stay hop rfl rfl rfl rfl (o := some .wakeStatus) ?_ ?_ fun _ => ?_⟩
      · simp [opStep, ho, OnCpu.defer]
      · rintro _ ⟨⟩
        rfl
      · exact ha.onCpu.symm.trans (by simp only [view, ho]; rfl)
    | on =>
      refine ⟨p, ha.opStep_stay hop rfl rfl rfl rfl (o := none) ?_⟩
      simp [opStep, ho, OnCpu.defer]
  | wakeStatus =>
    by_cases hst : (m.tcb t).status = .blocked
    · -- it is off the CPU, so that it is where a blocked task is
      have hblocked : p = .blocked := by
        have hoff := ha.waking id hstage
        cases p with
        | blocked => rfl
        | cpu => cases hoff
        | _ => cases hst.symm.trans (ha.status _ rfl)
      subst hblocked
      exact ⟨_, ha.opStep_wake hres hthawed⟩
    · have hsame : wakeIfBlocked (m.tcb t) = (m.tcb t, false) := by simp [wakeIfBlocked, hst]
      refine ⟨p, ha.opStep_stay hop rfl ?_ ?_ rfl (o := none) ?_⟩
      · rw [opTcb, hsame]
      · rw [opTcb, hsame]
      · simp [opStep, hsame]
  | addCas hart =>
    obtain rfl := ha.eq_carried hstage rfl
    have hnone : (m.tcb t).readyQueueHart = none := ha.marker
    refine ⟨_, ha.opStep_carry ⟨rfl, rfl⟩ hmine (.addStore hart) ?_ rfl ?_ ?_ fun h => ?_⟩
    · simp [opStep, hnone]
    · simpa [opTcb, hnone, view] using ha.status _ rfl
    · simp [opTcb, hnone, Place.marker]
    · exact (congrFun (opStep_count rfl) h).trans (ha.count h)
  | addStore hart =>
    obtain rfl := ha.eq_carried hstage rfl
    refine ⟨_, ha.opStep_carry ⟨rfl, rfl⟩ hmine (.addPush hart) ?_ rfl (ha.status _ rfl) ha.marker
      fun h => ?_⟩
    · simp [opStep]
    · exact (congrFun (opStep_count rfl) h).trans (ha.count h)
  | addPush =>
    obtain rfl := ha.eq_carried hstage rfl
    exact ⟨_, ha.opStep_push⟩
  | addUndo =>
    refine ⟨p, ha.opStep_stay hop rfl rfl rfl rfl (o := none) ?_⟩
    simp [opStep]
  | refreshLoad =>
    cases hq : (m.tcb t).inReadyQueue with
    | true =>
      refine ⟨p, ha.opStep_stay hop rfl rfl rfl rfl (o := some (.removeSwap .refresh)) ?_ ?_⟩
      · simp [opStep, hq]
      · rintro _ ⟨⟩
        rfl
    | false =>
      refine ⟨p, ha.opStep_stay hop rfl rfl rfl rfl (o := none) ?_⟩
      simp [opStep, hq]
  | removeSwap why =>
    cases why with
    | exit => cases hexit
    | refresh =>
    obtain ⟨hadd, heye⟩ := hcare rfl
    cases hmarker : (m.tcb t).readyQueueHart with
    | none =>
      refine ⟨p, ha.opStep_stay hop rfl ?_ rfl rfl (o := some (.removeStore .refresh 0)) ?_ ?_⟩
      · exact hmarker.symm
      · simp [opStep, hmarker]
      · rintro _ ⟨⟩
        rfl
    | some hart =>
      -- only a task in a run queue has the mark, as no `add` is between its exchange and its push
      have hqueued : p = .queued hart := by
        have hmark : p.marker = some hart := ha.marker.symm.trans hmarker
        cases p with
        | queued =>
          cases hmark
          rfl
        | carried id' s' =>
          have hst : m.stage t id' = some s' := (ha.ops id' s' (ha.carries id' s' rfl)).mpr rfl
          cases s' with
          | addStore h => exact absurd hst (hadd id' h).1
          | addPush h => exact absurd hst (hadd id' h).2
          | _ => cases hmark
        | _ => cases hmark
      subst hqueued
      exact ⟨_, ha.opStep_swap heye⟩
  | removeScan why hart =>
    cases why with
    | exit => cases hexit
    | refresh =>
    obtain rfl := ha.eq_carried hstage rfl
    have hone : entries t (m.queue hart) = 1 := (ha.count hart).trans (if_pos rfl)
    have hgone : entries t (removeEntries (m.queue hart) t slot) = 0 := entries_remove_self hone
    refine ⟨_, ha.opStep_carry ⟨rfl, rfl⟩ hmine (.removeStore .refresh 1) ?_ rfl (ha.status _ rfl)
      ha.marker fun h => ?_⟩
    · simp [opStep, hone, hgone]
    by_cases hh : h = hart
    · subst hh
      simpa [opStep, Place.queue] using hgone
    · have hne : some hart ≠ some h := fun heq => hh (some.inj heq).symm
      rw [@opStep_queue_of_ne m id ⟨t, .removeScan .refresh hart⟩ target slot h hne]
      exact (ha.count h).trans (if_neg hne)
  | removeStore why removed =>
    cases why with
    | exit => cases hexit
    | refresh =>
    by_cases h0 : removed = 0
    · subst h0
      refine ⟨p, ha.opStep_stay hop rfl rfl rfl rfl (o := none) ?_⟩
      simp [opStep]
    have hc : (OpStage.removeStore .refresh removed).carries = true := by simp [OpStage.carries, h0]
    obtain rfl := ha.eq_carried hstage hc
    refine ⟨_, ha.opStep_carry ⟨rfl, rfl⟩ hmine (.addCas target) ?_ rfl (ha.status _ rfl) ha.marker
      fun h => ?_⟩
    · simp [opStep, h0]
    · exact (congrFun (opStep_count rfl) h).trans (ha.count h)
  | takeRes => cases hexit

end Operation

/-! ### Steps of a hart with a task -/

section Turns

variable {h : Hart}

/-- A hart takes a task from a place to a place, and the operations on it are where they were. -/
theorem At.move (ha : At v p) (honCpu : v'.tcb.onCpu.hart? = p'.hart?)
    (hmarker : v'.tcb.readyQueueHart = p'.marker)
    (hcount : ∀ h', v'.count h' = if p'.queue = some h' then 1 else 0)
    (hstage : v'.stage = v.stage) (hop : p'.op = p.op)
    (hphase : ∀ h', h' ≠ h → v'.phase h' = v.phase h')
    (hhand : (v'.phase h).inHand = true ↔ p'.hand = some h)
    (hhands : ∀ h', h' ≠ h → (p.hand = some h' ↔ p'.hand = some h'))
    (heye : ∀ b, (v'.phase h).eye = some b → b = true ∧ p' = .queued h)
    (heyes : ∀ h', h' ≠ h → p = .queued h' → p' = .queued h')
    (hstatus : ∀ st, p'.status = some st → v'.tcb.status = st)
    (hwaking : ∀ id, v.stage id = some .wakeStatus → p'.hart? = none)
    (hblocked : ∀ h', v'.blockedOn h' = true → p' = .cpu h' ∧ v'.tcb.status = .blocked)
    (hready : ∀ h', v'.readyOn h' = true → p' = .cpu h' ∧ v'.tcb.status = .ready) : At v' p' where
  onCpu := honCpu
  marker := hmarker
  count := hcount
  ops := by rw [hstage, hop]; exact ha.ops
  carries := by rw [hop]; exact ha.carries
  hand h' := by
    by_cases hh : h' = h
    · subst hh
      exact hhand
    · rw [hphase h' hh, ha.hand, hhands h' hh]
  eyed h' b hb := by
    by_cases hh : h' = h
    · subst hh
      exact heye b hb
    · obtain ⟨hb, hp⟩ := ha.eyed h' b (hphase h' hh ▸ hb)
      exact ⟨hb, heyes h' hh hp⟩
  status := hstatus
  waking := by rw [hstage]; exact hwaking
  blockedOn := hblocked
  readyOn := hready

end Turns

section HartMoves

open Machine

variable {m' : Machine} {u : Task} {h : Hart} {act : HartAct} {q : HartPhase}

section

variable (hmove : HartMove m h act m')

include hmove

theorem Machine.HartMove.view_phase_of_ne :
    ∀ h', h' ≠ h → (m'.view t).phase h' = (m.view t).phase h' := by
  intro _ hh
  simp only [view, hmove.hart_of_ne hh]

theorem Machine.HartMove.view_slots_of_ne :
    ∀ h', h' ≠ h → (m'.view t).blockedOn h' = (m.view t).blockedOn h' ∧
      (m'.view t).readyOn h' = (m.view t).readyOn h' := by
  intro _ hh
  simp only [view, hmove.hart_of_ne hh, and_self]

/-- A step that changes only the phase leaves what was put aside. -/
theorem Machine.HartMove.view_slots (hhart : m'.hart h = { m.hart h with phase := q }) :
    (m'.view t).blockedOn = (m.view t).blockedOn ∧ (m'.view t).readyOn = (m.view t).readyOn := by
  constructor
  all_goals
    funext h'
    simp only [view]
    by_cases hh : h' = h
    · subst hh
      rw [hhart]
    · rw [hmove.hart_of_ne hh]

end

/-- A task that a hart holds is on its CPU. -/
theorem At.eq_cpu (ha : At (m.view t) p) (ho : Owned m) (hheld : t ∈ (m.hart h).held) :
    p = .cpu h := by
  have hcpu : p.hart? = some h := ha.onCpu.symm.trans ((ho.held_iff h t).mp hheld)
  cases p with
  | cpu =>
    cases hcpu
    rfl
  | _ => cases hcpu

theorem At.eq_inHand (ha : At (m.view t) p) (hhand : ((m.view t).phase h).inHand = true) :
    p = .inHand h := by
  have hp := (ha.hand h).mp hhand
  cases p with
  | inHand =>
    cases hp
    rfl
  | _ => cases hp

/-- A task in the queue of a hart, which `refresh_task_runqueue` is not about to take out. -/
theorem At.eq_queued (ha : At (m.view e.task) p) (he : e ∈ m.queue h)
    (hscan : ∀ id h', m.stage e.task id ≠ some (.removeScan .refresh h')) : p = .queued h := by
  have hq : p.queue = some h := by
    by_contra hne
    have h0 : entries e.task (m.queue h) = 0 := (ha.count h).trans (if_neg hne)
    exact absurd (entries_pos he) (by rw [h0]; exact lt_irrefl 0)
  cases p with
  | queued =>
    cases hq
    rfl
  | carried id s =>
    have hc := ha.carries id s rfl
    have hstage : m.stage e.task id = some s := (ha.ops id s hc).mpr rfl
    cases s with
    | removeScan why h' =>
      cases why with
      | refresh => exact absurd hstage (hscan id h')
      | exit => cases hc
    | _ => cases hq
  | _ => cases hq

/-- The entry that was put into the hand of a hart. -/
theorem At.claim (ha : At (m.view e.task) (.queued h)) (he : e ∈ m.queue h)
    (hmove : HartMove m h act (m.claim h e)) : At ((m.claim h e).view e.task) (.inHand h) := by
  have hmarker : (m.tcb e.task).readyQueueHart = some h := ha.marker
  have hphase : ((m.claim h e).view e.task).phase h = .clearing e true := by
    simp only [view, Machine.claim, goto_hart_self, hmarker]
    exact about_self rfl
  obtain ⟨hb, hr⟩ := hmove.view_slots goto_hart_self
  have honCpu : ((m.claim h e).tcb e.task).onCpu = (m.tcb e.task).onCpu := by
    simp [Machine.claim, Tcb.release]
  have hstatus : ((m.claim h e).tcb e.task).status = (m.tcb e.task).status := by
    simp [Machine.claim, Tcb.release]
  refine ha.move ((congrArg _ honCpu).trans ha.onCpu) ?_ (fun h' => ?_) rfl rfl
    hmove.view_phase_of_ne
    (iff_of_true (by rw [hphase]; rfl) rfl)
    (fun h' hh => iff_of_false (by rintro ⟨⟩) fun heq => hh (some.inj heq).symm)
    (hphase ▸ (by intros; contradiction)) ?_
    (fun st hst => hstatus.trans (ha.status st hst)) ha.waking
    (fun h' hbl => (by cases (ha.blockedOn h' (hb ▸ hbl)).1)) fun h' hrd =>
    (by cases (ha.readyOn h' (hr ▸ hrd)).1)
  · simp [view, Machine.claim, Tcb.release, hmarker, Place.marker]
  · have hcount := ha.count h'
    simp only [view, Machine.claim, goto_queue, setTcb_queue] at hcount ⊢
    by_cases hh : h' = h
    · subst hh
      rw [setQueue_self, entries_erase_self he, hcount]
      simp [Place.queue]
    · rw [setQueue_of_ne hh, hcount]
      simp [Place.queue, Ne.symm hh]
  · rintro _ hh ⟨⟩
    exact absurd rfl hh

theorem eq_of_task? (hp : (m.hart h).phase = q) (hsub : (m.hart h).phase.task? = some t)
    (hu : q.task? = some u) : u = t := by
  rw [hp, hu] at hsub
  exact some.inj hsub

/-- The task that the phase of a hart holds is on its CPU. -/
theorem At.eq_cpu_of_phase (ha : At (m.view t) p) (ho : Owned m) (hp : (m.hart h).phase = q)
    (hsub : (m.hart h).phase.task? = some t) (hu : q.task? = some u) (hq : q.holds = q.task?) :
    u = t ∧ p = .cpu h := by
  obtain rfl := eq_of_task? hp hsub hu
  refine ⟨rfl, ha.eq_cpu ho ?_⟩
  simp [held, hp, hq, hu]

theorem view_phase_eq (hp : (m.hart h).phase = q) (hq : q.task? = some t) :
    (m.view t).phase h = q := by
  simp only [view, hp]
  exact about_self hq

theorem about_inHand (hq : q.inHand = false) : (q.about t).inHand = false := by
  unfold HartPhase.about
  split
  · exact hq
  · rfl

theorem about_eye (hq : q.eye = none) : (q.about t).eye = none := by
  unfold HartPhase.about
  split
  · exact hq
  · rfl

/-- A step after which a task is on the CPU, in the run queues and in the hands of operations as
before. -/
structure Stays (m m' : Machine) (t : Task) : Prop where
  onCpu : (m'.tcb t).onCpu.hart? = (m.tcb t).onCpu.hart?
  marker : (m'.tcb t).readyQueueHart = (m.tcb t).readyQueueHart
  queue : m'.queue = m.queue
  ops : m'.ops = m.ops

section

variable (hmove : HartMove m h act m') (hstays : Stays m m' t)

include hmove hstays

/-- A hart turns to another phase with a task, and the task stays where it is. -/
theorem At.turn_to (ha : At (m.view t) p) (hhart : m'.hart h = { m.hart h with phase := q })
    (hstatus : (m'.tcb t).status = (m.tcb t).status)
    (hhand : (q.about t).inHand = ((m.hart h).phase.about t).inHand)
    (heye : ∀ b, (q.about t).eye = some b → b = true ∧ p = .queued h) : At (m'.view t) p := by
  obtain ⟨hb, hr⟩ := hmove.view_slots hhart
  have hphase : (m'.view t).phase h = q.about t := by simp only [view, hhart]
  have hst : (m'.view t).tcb.status = (m.view t).tcb.status := hstatus
  refine ha.move (hstays.onCpu.trans ha.onCpu) (hstays.marker.trans ha.marker) ?_ ?_ rfl
    hmove.view_phase_of_ne ?_
    (fun _ _ => Iff.rfl) (hphase ▸ heye) (fun _ _ hp => hp) (fun st h => hst.trans (ha.status st h))
    ha.waking
    ?_ ?_
  · simpa only [view, hstays.queue] using ha.count
  · funext id
    exact stage_congr (by rw [hstays.ops])
  · rw [hphase, hhand]
    exact ha.hand h
  · rw [hb, hst]
    exact ha.blockedOn
  · rw [hr, hst]
    exact ha.readyOn

/-- A hart goes on with the task on its CPU. -/
theorem At.cpu_to (ha : At (m.view t) (.cpu h)) (hhart : m'.hart h = x)
    (hq : x.phase.inHand = false ∧ x.phase.eye = none)
    (hblocked : x.pendingBlocked = some t → (m'.tcb t).status = .blocked)
    (hready : x.pendingReady = some t → (m'.tcb t).status = .ready) : At (m'.view t) (.cpu h) := by
  subst hhart
  refine ha.move (hstays.onCpu.trans ha.onCpu) (hstays.marker.trans ha.marker) ?_ ?_ rfl
    hmove.view_phase_of_ne
    (iff_of_false (by simp [view, about_inHand hq.1]) nofun) (fun _ _ => Iff.rfl)
    (by simp [view, about_eye hq.2])
    (fun _ _ hp => hp) nofun ha.waking (fun h' hb => ?_) fun h' hr => ?_
  · simpa only [view, hstays.queue] using ha.count
  · funext id
    exact stage_congr (by rw [hstays.ops])
  all_goals by_cases hh : h' = h
  · subst hh
    exact ⟨rfl, hblocked (of_decide_eq_true hb)⟩
  · cases (ha.blockedOn h' ((hmove.view_slots_of_ne h' hh).1 ▸ hb)).1
    exact absurd rfl hh
  · subst hh
    exact ⟨rfl, hready (of_decide_eq_true hr)⟩
  · cases (ha.readyOn h' ((hmove.view_slots_of_ne h' hh).2 ▸ hr)).1
    exact absurd rfl hh

/-- The same for a hart that has put nothing aside. -/
theorem At.cpu_goto (ha : At (m.view t) (.cpu h)) (hhart : m'.hart h = { m.hart h with phase := q })
    (hq : q.inHand = false ∧ q.eye = none) (hblocked : (m.hart h).pendingBlocked = none)
    (hready : (m.hart h).pendingReady = none) : At (m'.view t) (.cpu h) :=
  ha.cpu_to hmove hstays hhart hq (fun hbl => nomatch hblocked.symm.trans hbl)
    fun hrd => nomatch hready.symm.trans hrd

end

/-- `finish_running` of a task that was put aside. -/
theorem At.finish_of (ha : At (m.view t) (.cpu h)) (id : Nat) (hmove : HartMove m h act m')
    (htcb : m'.tcb t = { m.tcb t with onCpu := .off }) (hqueue : m'.queue = m.queue)
    (hother : ∀ id', id' ≠ id → m'.ops id' = m.ops id') (hold : (m.hart h).phase.task? = none)
    (hhart : m'.hart h = x)
    (hnew : x.phase.task? = none) (hblocked : x.pendingBlocked ≠ some t)
    (hready : x.pendingReady ≠ some t)
    (hp : p'.hart? = none ∧ p'.marker = none ∧ p'.queue = none ∧ p'.hand = none)
    (hself : ∀ s, s.carries = true → (m'.stage t id = some s ↔ p'.op = some (id, s)))
    (hop : ∀ id' s, p'.op = some (id', s) → id' = id ∧ s.carries = true)
    (hstatus : ∀ st, p'.status = some st → (m.tcb t).status = st) : At (m'.view t) p' := by
  subst hhart
  -- no other hart has put it aside
  have hslots h' : (m'.view t).blockedOn h' = false ∧ (m'.view t).readyOn h' = false := by
    by_cases hh : h' = h
    · subst hh
      exact ⟨decide_eq_false hblocked, decide_eq_false hready⟩
    obtain ⟨hb, hr⟩ := hmove.view_slots_of_ne h' hh
    rw [hb, hr]
    refine ⟨Bool.eq_false_iff.mpr fun hbt => ?_, Bool.eq_false_iff.mpr fun hrt => ?_⟩
    · cases (ha.blockedOn h' hbt).1
      exact hh rfl
    · cases (ha.readyOn h' hrt).1
      exact hh rfl
  have hphase : (m'.view t).phase = (m.view t).phase := by
    funext h'
    by_cases hh : h' = h
    · subst hh
      simp only [view]
      rw [about_of_ne (by rw [hnew]; exact (by rintro ⟨⟩)),
        about_of_ne (by rw [hold]; exact (by rintro ⟨⟩))]
    · exact hmove.view_phase_of_ne h' hh
  exact
    { onCpu := by
        rw [hp.1]
        simp only [view, htcb]
        rfl
      marker := by
        rw [hp.2.1]
        simp only [view, htcb]
        exact ha.marker
      count := fun h' => by
        rw [hp.2.2.1]
        simp only [view, hqueue]
        exact ha.count h'
      ops := fun id' s hs => by
        by_cases hid : id' = id
        · subst hid
          exact hself s hs
        · rw [show (m'.view t).stage id' = (m.view t).stage id' from stage_congr (hother id' hid),
            ha.ops id' s hs]
          exact iff_of_false (by rintro ⟨⟩) fun hps => hid (hop id' s hps).1
      carries := fun id' s hps => (hop id' s hps).2
      hand := fun h' => by
        rw [hphase, ha.hand, hp.2.2.2]
        rfl
      eyed := fun h' b hb => (by cases (ha.eyed h' b (hphase ▸ hb)).2)
      status := fun st hst => by
        simp only [view, htcb]
        exact hstatus st hst
      waking := fun _ _ => hp.1
      blockedOn := fun h' hb => (by cases (hslots h').1.symm.trans hb)
      readyOn := fun h' hb => (by cases (hslots h').2.symm.trans hb) }

/-- **A step of a hart with a task** that does not exit takes it from a place to a place. -/
theorem At.hartMove (ha : At (m.view t) p) (ho : Owned m) (hmove : HartMove m h act m')
    (hsub : m.subject h act = some t) (hcare : Careful m (.hart h act))
    (hres : (m'.tcb t).res = true) (hdrop : t ∉ (m.hart h).pendingDrop) :
    ∃ p', At (m'.view t) p' := by
  have hx := ho.slots h
  have hmove' := hmove
  cases hmove with
  | noBlocked _ hs | noReady _ hs => cases hs.symm.trans hsub
  | @finishBlocked id u hp hs hw =>
    cases hs.symm.trans hsub
    obtain rfl := ha.eq_cpu ho (h := h) (by simp [held, hs])
    have hst : (m.tcb t).status = .blocked := (ha.blockedOn h (decide_eq_true hs)).2
    refine ⟨.blocked, ha.finish_of id hmove' setTcb_self rfl (fun _ _ => rfl) (hp ▸ rfl)
      setHart_self rfl (by rintro ⟨⟩) (fun hrd => ?_) ⟨rfl, rfl, rfl, rfl⟩ (fun s hs' => ?_)
        (by intros; contradiction)
      fun _ hst' => hst.trans (some.inj hst')⟩
    · cases hst.symm.trans (ha.readyOn h (decide_eq_true hrd)).2
    · exact iff_of_false (fun hid => (by cases (ha.ops id s hs').mp hid)) (by rintro ⟨⟩)
  | @replay id u hp hs hw hid =>
    cases hs.symm.trans hsub
    obtain rfl := ha.eq_cpu ho (h := h) (by simp [held, hs])
    have hst : (m.tcb t).status = .blocked := (ha.blockedOn h (decide_eq_true hs)).2
    refine ⟨.blocked, ha.finish_of id hmove' setTcb_self rfl (fun _ hne => setOp_of_ne hne)
      (hp ▸ rfl)
      setHart_self rfl (by rintro ⟨⟩) (fun hrd => ?_) ⟨rfl, rfl, rfl, rfl⟩ (fun s hs' => ?_)
        (by intros; contradiction)
      fun _ hst' => hst.trans (some.inj hst')⟩
    · cases hst.symm.trans (ha.readyOn h (decide_eq_true hrd)).2
    · refine iff_of_false (fun hid' => ?_) (by rintro ⟨⟩)
      cases (stage_eq_some.mp hid').symm.trans setOp_self
      cases hs'
  | @finishReady id target u hp hs hid =>
    cases hs.symm.trans hsub
    obtain rfl := ha.eq_cpu ho (h := h) (by simp [held, hs])
    have hst : (m.tcb t).status = .ready := (ha.readyOn h (decide_eq_true hs)).2
    refine ⟨.carried id (.addCas target), ha.finish_of id hmove' setTcb_self rfl
      (fun _ hne => setOp_of_ne hne) (hp ▸ rfl) setHart_self rfl
      (fun hbl => (by cases (hx.noBlocked hp rfl).symm.trans hbl)) (by rintro ⟨⟩)
      ⟨rfl, rfl, rfl, rfl⟩ (fun _ _ => ?_) ?_
      fun _ hst' => hst.trans (some.inj hst')⟩
    · rw [stage_eq_some]
      simp [Place.op]
    · rintro id' s ⟨⟩
      exact ⟨rfl, rfl⟩
  | @finishDrop u rest hp hs =>
    rw [subject, hs] at hsub
    cases hsub
    exact absurd (hs ▸ (.head _)) hdrop
  | lockQueue hp | giveUp hp =>
    have hsub : (m.hart h).phase.task? = some t := hsub
    rw [hp] at hsub
    cases hsub
  | @popRt e hp hrt he =>
    cases hsub
    obtain rfl := ha.eq_queued he (hcare.fetch h e (.inl rfl))
    exact ⟨_, ha.claim he hmove'⟩
  | @look e hp hrt he =>
    cases hsub
    obtain rfl := ha.eq_queued he (hcare.fetch h e (.inr rfl))
    have hst : (m.tcb e.task).status = .ready := ha.status _ rfl
    refine ⟨_, ha.turn_to hmove' ⟨rfl, rfl, rfl, rfl⟩ goto_hart_self rfl ?_ ?_⟩
    · rw [about_inHand rfl, about_inHand (hp ▸ rfl)]
    · intro b hbe
      rw [about_self rfl] at hbe
      cases hbe
      exact ⟨decide_eq_true hst, rfl⟩
  -- from here on the step is about the task that the phase is about
  | @select e hp hq =>
    obtain rfl := eq_of_task? hp hsub rfl
    obtain ⟨-, hqueued⟩ := ha.eyed h true (by rw [view_phase_eq hp rfl]; rfl)
    refine ⟨_, ha.turn_to hmove' ⟨rfl, rfl, rfl, rfl⟩ goto_hart_self rfl ?_ ?_⟩
    · rw [about_inHand rfl, about_inHand (hp ▸ rfl)]
    · intro b hbe
      rw [about_self rfl] at hbe
      cases hbe
      exact ⟨rfl, hqueued⟩
  | @stale e ready hp hq =>
    obtain rfl := eq_of_task? hp hsub rfl
    obtain ⟨rfl, rfl⟩ := ha.eyed h ready (by rw [view_phase_eq hp rfl]; rfl)
    exact absurd ⟨ha.marker, rfl⟩ hq
  | @prune e here hp =>
    obtain rfl := eq_of_task? hp hsub rfl
    cases (ha.eyed h false (by rw [view_phase_eq hp rfl]; rfl)).1
  | @take e hp he =>
    obtain rfl := eq_of_task? hp hsub rfl
    obtain ⟨-, rfl⟩ := ha.eyed h true (by rw [view_phase_eq hp rfl]; rfl)
    exact ⟨_, ha.claim he hmove'⟩
  | @takeNone e hp he =>
    refine ⟨_, ha.turn_to hmove' ⟨rfl, rfl, rfl, rfl⟩ goto_hart_self rfl ?_ ?_⟩
    · rw [about_inHand rfl, about_inHand (hp ▸ rfl)]
    · exact (by intros; contradiction)
  | @clear e still hp =>
    obtain rfl := eq_of_task? hp hsub rfl
    refine ⟨_, ha.turn_to hmove' ⟨by simp, by simp, rfl, rfl⟩ goto_hart_self (by simp) ?_ ?_⟩
    · rw [hp, about_self (p := .clearing e still) rfl]
      cases still with
      | true =>
        rw [if_pos rfl]
        split <;> (rw [about_self rfl]; rfl)
      | false => rfl
    · intro b hbe
      rw [about_eye] at hbe
      · cases hbe
      · split
        · split <;> rfl
        · rfl
  | @check e hp =>
    obtain rfl := eq_of_task? hp hsub rfl
    obtain rfl : p = .inHand h := ha.eq_inHand (by rw [view_phase_eq hp rfl]; rfl)
    have hst : (m.tcb e.task).status = .ready := ha.status _ rfl
    refine ⟨_, ha.turn_to hmove' ⟨rfl, rfl, rfl, rfl⟩ goto_hart_self rfl ?_ ?_⟩
    · rw [if_pos hst, hp, about_self rfl, about_self rfl]
      rfl
    · rw [if_pos hst, about_eye rfl]
      exact (by intros; contradiction)
  | @mark e hp hoff =>
    obtain rfl := eq_of_task? hp hsub rfl
    obtain rfl : p = .inHand h := ha.eq_inHand (by rw [view_phase_eq hp rfl]; rfl)
    obtain ⟨hbl, hrd⟩ := hmove'.view_slots goto_hart_self
    refine ⟨.cpu h, ha.move ?_ ?_ ha.count rfl rfl hmove'.view_phase_of_ne
      (iff_of_false ?_ (by rintro ⟨⟩))
      (fun _ hh => iff_of_false (fun heq => hh (some.inj heq).symm) (by rintro ⟨⟩)) ?_
      (by intros; contradiction) (by intros; contradiction)
      (fun id hw => absurd hw (hcare.mark h e rfl hp id))
      (fun h' hb => (by cases (ha.blockedOn h' (hbl ▸ hb)).1))
      fun h' hr => (by cases (ha.readyOn h' (hrd ▸ hr)).1)⟩
    · simp [view, OnCpu.hart?, Place.hart?]
    · simpa [view, Place.marker] using ha.marker
    · simp [view, goto_hart_self, about_inHand (q := .entering e.task) rfl]
    · simp [view, goto_hart_self, about_eye (q := .entering e.task) rfl]
  | @markFailed e h' pending hp hon =>
    obtain rfl := eq_of_task? hp hsub rfl
    obtain rfl : p = .inHand h := ha.eq_inHand (by rw [view_phase_eq hp rfl]; rfl)
    have hoff : (m.tcb e.task).onCpu.hart? = none := ha.onCpu
    rw [hon] at hoff
    cases hoff
  -- the task is on the CPU, and stays there
  | @switchIn u hp | @takeCurrentTask u _ hp =>
    obtain ⟨rfl, rfl⟩ := ha.eq_cpu_of_phase ho hp hsub rfl rfl
    exact ⟨.cpu h, ha.cpu_goto hmove' ⟨by simp, by simp, rfl, rfl⟩ goto_hart_self ⟨rfl, rfl⟩
      (hx.noBlocked hp rfl)
      (hx.noReady hp rfl)⟩
  | @presleep u hp | @discard u hp =>
    obtain ⟨rfl, rfl⟩ := ha.eq_cpu_of_phase ho hp hsub rfl rfl
    exact ⟨.cpu h, ha.cpu_goto hmove' ⟨by simp, by simp, rfl, rfl⟩ rfl ⟨hp ▸ rfl, hp ▸ rfl⟩
      (hx.noBlocked hp rfl)
      (hx.noReady hp rfl)⟩
  | @suspend u hp =>
    obtain ⟨rfl, rfl⟩ := ha.eq_cpu_of_phase ho hp hsub rfl rfl
    exact ⟨.cpu h, ha.cpu_to hmove' ⟨by simp, by simp, rfl, rfl⟩ setHart_self ⟨rfl, rfl⟩
      (fun hbl => (by cases (hx.noBlocked hp rfl).symm.trans hbl)) fun _ => by simp⟩
  | @blockReady u hp hst =>
    obtain ⟨rfl, rfl⟩ := ha.eq_cpu_of_phase ho hp hsub rfl rfl
    exact ⟨.cpu h, ha.cpu_to hmove' ⟨rfl, rfl, rfl, rfl⟩ setHart_self ⟨rfl, rfl⟩
      (fun hbl => (by cases (hx.noBlocked hp rfl).symm.trans hbl)) fun _ => hst⟩
  | @block u hp hst =>
    obtain ⟨rfl, rfl⟩ := ha.eq_cpu_of_phase ho hp hsub rfl rfl
    exact ⟨.cpu h, ha.cpu_to hmove' ⟨by simp, by simp, rfl, rfl⟩ setHart_self ⟨rfl, rfl⟩
      fun _ => by simp
      fun hrd => (by cases (hx.noReady hp rfl).symm.trans hrd)⟩
  | @exit u hp =>
    obtain rfl := eq_of_task? hp hsub rfl
    simp at hres
  | @switchOut u hp =>
    obtain rfl := eq_of_task? hp hsub rfl
    obtain rfl := ha.eq_cpu ho (hx.switching u hp)
    exact ⟨.cpu h, ha.cpu_to hmove' ⟨rfl, rfl, rfl, rfl⟩ goto_hart_self ⟨rfl, rfl⟩
      (fun hbl => (ha.blockedOn h (decide_eq_true hbl)).2) fun hrd =>
      (ha.readyOn h (decide_eq_true hrd)).2⟩

end HartMoves

end HitOS.Sched
