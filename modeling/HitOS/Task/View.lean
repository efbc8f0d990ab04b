import HitOS.Task.Ownership

/-!
# The view of one task

What the machine says of one task (`Machine.view`): its control block, its entries in the run
queues, the operations on it, and what the harts do with it. A step about another task leaves the
view alone, whether a hart takes it (`HartMove.view_of_ne`) or an operation (`opStep_view_of_ne`).
-/

namespace HitOS.Sched

open List Function Option

/-! ### Entries of a task -/

section Entries

variable {t u : Task} {q : List Entry} {e : Entry}

theorem entries_erase_of_ne (hne : e.task ≠ t) : entries t (q.erase e) = entries t q := by
  simp [entries, countP_erase, hne]

theorem entries_erase_self (he : e ∈ q) : entries e.task (q.erase e) = entries e.task q - 1 := by
  simp [entries, countP_erase, he]

theorem entries_pos (he : e ∈ q) : 0 < entries e.task q := countP_pos_iff.mpr ⟨e, he, by simp⟩

theorem entries_push_of_ne (hne : e.task ≠ t) : entries t (pushEntry q e) = entries t q := by
  unfold pushEntry
  split
  · simp [entries, hne]
  · simp [entries, hne, countP_erase]

/-- The first entry of a task. -/
theorem entries_push_self (h0 : entries e.task q = 0) : entries e.task (pushEntry q e) = 1 := by
  have hmem : e ∉ q := fun he => by
    have := entries_pos he
    omega
  unfold pushEntry
  split
  · simpa [entries] using h0
  · rw [erase_of_not_mem hmem]
    simpa [entries] using h0

theorem entries_eraseP_of_ne (hne : u ≠ t) : entries t (q.eraseP fun e => e.task = u) = entries t q := by
  obtain heq | ⟨e, _, _, -, he, hq, hrest⟩ := exists_or_eq_self_of_eraseP (fun e => e.task = u) q
  · rw [heq]
  · have : e.task ≠ t := fun heq => hne ((of_decide_eq_true he).symm.trans heq)
    rw [hrest, hq]
    simp [entries, this]

theorem entries_eraseP_self : entries t (q.eraseP fun e => e.task = t) = entries t q - 1 := by
  obtain heq | ⟨e, _, _, -, he, hq, hrest⟩ := exists_or_eq_self_of_eraseP (fun e => e.task = t) q
  · -- the task is not there
    have h0 : entries t q = 0 := by
      refine countP_eq_zero.mpr fun e he hp => ?_
      have hlen := length_eraseP_of_mem (p := fun e => decide (e.task = t)) he hp
      rw [heq] at hlen
      have := length_pos_of_mem he
      omega
    rw [heq, h0]
  · rw [hrest, hq]
    simp [entries, of_decide_eq_true he]

variable {slot : Slot}

theorem entries_remove_of_ne (hne : u ≠ t) : entries t (removeEntries q u slot) = entries t q := by
  have hrest : entries t (q.filter fun e => ¬(e.task = u ∧ e.slot.isRt = true)) = entries t q := by
    unfold entries
    rw [countP_filter]
    refine countP_congr fun e _ => ?_
    simp only [Bool.and_eq_true, decide_eq_true_eq]
    exact ⟨fun h => h.1, fun h => ⟨h, fun hc => hne (hc.1.symm.trans h)⟩⟩
  unfold removeEntries
  simp only
  split
  · rw [entries_erase_of_ne hne, hrest]
  · rw [entries_eraseP_of_ne hne, hrest]

/-- The only entry of a task goes. -/
theorem entries_remove_self (h1 : entries t q = 1) : entries t (removeEntries q t slot) = 0 := by
  have hrest : entries t (q.filter fun e => ¬(e.task = t ∧ e.slot.isRt = true)) ≤ 1 :=
    h1 ▸ Sublist.countP_le filter_sublist
  unfold removeEntries
  simp only
  split
  · next he =>
    rw [entries_erase_self he]
    exact Nat.sub_eq_zero_of_le hrest
  · rw [entries_eraseP_self]
    exact Nat.sub_eq_zero_of_le hrest

end Entries

/-! ### Phases -/

def HartPhase.task? : HartPhase → Option Task
  | looked e _ | pruning e _ | selected e | clearing e _ | checking e | marking e => some e.task
  | entering t | running t | leaving t _ | switching t => some t
  | top | requeue | clean | fetch => none

/-- A phase, if it is about a task. -/
def HartPhase.about (p : HartPhase) (t : Task) : HartPhase := if p.task? = some t then p else .top

/-- The hart has taken the entry, and `ready_queue_hart` with it. -/
def HartPhase.inHand : HartPhase → Bool
  | clearing _ true | checking _ | marking _ => true
  | _ => false

/-- The hart has its eye on an entry that is still in its queue: whether it will take it. -/
def HartPhase.eye : HartPhase → Option Bool
  | looked _ ready => some ready
  | selected _ => some true
  | pruning _ _ => some false
  | _ => none

/-! ### The view of a task -/

/-- What the machine says of one task. -/
structure View where
  created : Bool
  tcb : Tcb
  /-- How often it is in each run queue. -/
  count : Hart → Nat
  /-- The operations on it. -/
  stage : Nat → Option OpStage
  /-- What each hart does with it. -/
  phase : Hart → HartPhase
  /-- It is in `pending_blocked`. -/
  blockedOn : Hart → Bool
  /-- It is in `pending_ready`. -/
  readyOn : Hart → Bool

/-- The view of a task that is not there yet. -/
def View.unborn : View :=
  ⟨false, .new, fun _ => 0, fun _ => none, fun _ => .top, fun _ => false, fun _ => false⟩

namespace Machine

variable {p : HartPhase} {op o : Op}

/-- The next step of an operation, if it is on a task. -/
def stage (m : Machine) (t : Task) (id : Nat) : Option OpStage :=
  match m.ops id with
  | some op => if op.task = t then some op.stage else none
  | none => none

def view (m : Machine) (t : Task) : View where
  created := m.created t
  tcb := m.tcb t
  count h := entries t (m.queue h)
  stage := m.stage t
  phase h := (m.hart h).phase.about t
  blockedOn h := (m.hart h).pendingBlocked = some t
  readyOn h := (m.hart h).pendingReady = some t

/-- The task that a step of a hart is about. -/
def subject (m : Machine) (h : Hart) : HartAct → Option Task
  | .takePendingBlocked _ => (m.hart h).pendingBlocked
  | .takePendingReady _ _ => (m.hart h).pendingReady
  | .takePendingDrop => (m.hart h).pendingDrop.head?
  | .popRt e | .look e => some e.task
  | _ => (m.hart h).phase.task?

variable {m m' : Machine} {t u : Task} {h target : Hart} {act : HartAct} {id : Nat} {s : OpStage}

theorem about_of_ne (hne : p.task? ≠ some t) : p.about t = .top := if_neg hne

theorem about_self (heq : p.task? = some t) : p.about t = p := if_pos heq

theorem stage_eq_some : m.stage t id = some s ↔ m.ops id = some ⟨t, s⟩ := by
  unfold stage
  cases hop : m.ops id with
  | none => simp
  | some op =>
    obtain ⟨u, _⟩ := op
    by_cases hu : u = t
    · simp
    · simp [hu]

theorem stage_congr (hops : m'.ops id = m.ops id) : m'.stage t id = m.stage t id := by
  simp only [stage, hops]

/-- An operation on another task. -/
theorem stage_of_ne (hop : m.ops id = some op) (hne : op.task ≠ t) : m.stage t id = none := by
  simp only [stage, hop, if_neg hne]

theorem stage_of_none (hop : m.ops id = none) : m.stage t id = none := by
  simp only [stage, hop]

theorem view_congr (hcreated : m'.created t = m.created t) (htcb : m'.tcb t = m.tcb t)
    (hcount : ∀ h, entries t (m'.queue h) = entries t (m.queue h))
    (hstage : ∀ id, m'.stage t id = m.stage t id)
    (hphase : ∀ h, (m'.hart h).phase.about t = (m.hart h).phase.about t)
    (hblocked : ∀ h, (m'.hart h).pendingBlocked = some t ↔ (m.hart h).pendingBlocked = some t)
    (hready : ∀ h, (m'.hart h).pendingReady = some t ↔ (m.hart h).pendingReady = some t) :
    m'.view t = m.view t := by
  simp only [view, View.mk.injEq, hcreated, htcb, true_and]
  exact ⟨funext hcount, funext hstage, funext hphase, funext fun h => decide_eq_decide.mpr (hblocked h),
    funext fun h => decide_eq_decide.mpr (hready h)⟩

/-- A step about another task changes nothing for it in the state of the hart. -/
theorem view_of_hart {x : HartState} (hhart : m'.hart = update m.hart h x)
    (hphase : x.phase.about t = (m.hart h).phase.about t)
    (hblocked : x.pendingBlocked = some t ↔ (m.hart h).pendingBlocked = some t)
    (hready : x.pendingReady = some t ↔ (m.hart h).pendingReady = some t)
    (htcb : m'.tcb t = m.tcb t := by rfl)
    (hstage : ∀ id, m'.stage t id = m.stage t id := by exact fun _ => rfl)
    (hcount : ∀ h', entries t (m'.queue h') = entries t (m.queue h') := by exact fun _ => rfl)
    (hcreated : m'.created = m.created := by rfl) : m'.view t = m.view t := by
  refine view_congr (by rw [hcreated]) htcb hcount hstage ?_ ?_ ?_
  all_goals
    intro h'
    rw [hhart]
    by_cases hh : h' = h
    · subst hh
      rwa [update_self]
    · rw [update_of_ne hh]

/-- The hart changes its phase only. -/
theorem view_of_phase (hhart : m'.hart = update m.hart h { m.hart h with phase := p })
    (hold : (m.hart h).phase.task? ≠ some t) (hnew : p.task? ≠ some t) (htcb : m'.tcb t = m.tcb t := by rfl)
    (hcount : ∀ h', entries t (m'.queue h') = entries t (m.queue h') := by exact fun _ => rfl)
    (hcreated : m'.created = m.created := by rfl) (hops : m'.ops = m.ops := by rfl) : m'.view t = m.view t :=
  view_of_hart hhart ((about_of_ne hnew).trans (about_of_ne hold).symm) Iff.rfl Iff.rfl htcb
    (fun _ => stage_congr (by rw [hops])) hcount hcreated

/-- Only the queue of the hart changes, by an entry of another task. -/
theorem entries_update_erase {e : Entry} (hne : e.task ≠ t) (h' : Hart) :
    entries t (update m.queue h ((m.queue h).erase e) h') = entries t (m.queue h') := by
  by_cases hh : h' = h
  · subst hh
    rw [update_self, entries_erase_of_ne hne]
  · rw [update_of_ne hh]

theorem stage_setOp_of_ne (hid : m.ops id = none) (hne : o.task ≠ t) (id' : Nat) :
    (m.setOp id (some o)).stage t id' = m.stage t id' := by
  by_cases hh : id' = id
  · subst hh
    rw [stage_of_ne setOp_self hne, stage_of_none hid]
  · exact stage_congr (setOp_of_ne hh)

theorem ne_of_task? (hp : (m.hart h).phase = p) (hsub : (m.hart h).phase.task? ≠ some t)
    (hu : p.task? = some u) : u ≠ t := by
  rintro rfl
  exact hsub (hp ▸ hu)

theorem task?_ne {q : HartPhase} (hp : (m.hart h).phase = p) (hsub : (m.hart h).phase.task? ≠ some t)
    (hq : q.task? = p.task?) : q.task? ≠ some t := by
  rwa [hq, ← hp]

/-- **A step of a hart about another task** leaves the view of a task alone. -/
theorem HartMove.view_of_ne (hmove : HartMove m h act m') (hx : SlotsOk (m.hart h))
    (hsub : m.subject h act ≠ some t) : m'.view t = m.view t := by
  have hleave : ∀ {u how}, (m.hart h).phase = .leaving u how → m.subject h .switchOut ≠ some t →
      u ≠ t ∧ (HartPhase.switching u).about t = (m.hart h).phase.about t :=
    fun hp hsub => ⟨ne_of_task? hp hsub rfl,
      (about_of_ne (task?_ne (q := .switching _) hp hsub rfl)).trans (about_of_ne hsub).symm⟩
  cases hmove with
  | noBlocked hp | noReady hp | lockQueue hp | giveUp hp =>
    exact view_of_phase rfl (by rw [hp]; exact nofun) nofun
  | @finishBlocked id u hp hs hw =>
    have hne : u ≠ t := fun heq => hsub (hs.trans (heq ▸ rfl))
    refine view_of_hart rfl ?_ (iff_of_false nofun (by rwa [hs, some_inj])) Iff.rfl (setTcb_of_ne hne.symm)
    rw [hp]
    rfl
  | @replay id u hp hs hw hid =>
    have hne : u ≠ t := fun heq => hsub (hs.trans (heq ▸ rfl))
    refine view_of_hart rfl ?_ (iff_of_false nofun (by rwa [hs, some_inj])) Iff.rfl
      (setTcb_of_ne hne.symm) (stage_setOp_of_ne hid hne)
    rw [hp]
    rfl
  | @finishReady id target u hp hs hid =>
    have hne : u ≠ t := fun heq => hsub (hs.trans (heq ▸ rfl))
    refine view_of_hart rfl ?_ Iff.rfl (iff_of_false nofun (by rwa [hs, some_inj]))
      (setTcb_of_ne hne.symm) (stage_setOp_of_ne hid hne)
    rw [hp]
    rfl
  | @finishDrop u rest hp hs =>
    have hne : u ≠ t := fun heq => hsub (by simp [subject, hs, heq])
    exact view_of_hart rfl rfl Iff.rfl Iff.rfl (setTcb_of_ne hne.symm)
  | @popRt e hp hrt he =>
    have hne : e.task ≠ t := fun heq => hsub (heq ▸ rfl)
    exact view_of_phase rfl (by rw [hp]; exact nofun) (by simpa [HartPhase.task?] using hne)
      (setTcb_of_ne hne.symm) (entries_update_erase hne)
  | @look e hp hrt he =>
    have hne : e.task ≠ t := fun heq => hsub (heq ▸ rfl)
    exact view_of_phase rfl (by rw [hp]; exact nofun) (by simpa [HartPhase.task?] using hne)
  -- from here on the step is about the task that the phase is about
  | select hp | stale hp | takeCurrentTask hp =>
    exact view_of_phase rfl hsub (task?_ne hp hsub rfl)
  | takeNone hp | switchOut hp => exact view_of_phase rfl hsub nofun
  | check hp =>
    refine view_of_phase rfl hsub ?_
    split
    · exact task?_ne hp hsub rfl
    · exact nofun
  | prune hp | take hp =>
    have hne := ne_of_task? hp hsub rfl
    exact view_of_phase rfl hsub (task?_ne hp hsub rfl) (setTcb_of_ne hne.symm) (entries_update_erase hne)
  | clear hp =>
    have hne := ne_of_task? hp hsub rfl
    refine view_of_phase rfl hsub ?_ (setTcb_of_ne hne.symm)
    split
    · split <;> exact task?_ne hp hsub rfl
    · exact nofun
  | mark hp | switchIn hp =>
    have hne := ne_of_task? hp hsub rfl
    exact view_of_phase rfl hsub (task?_ne hp hsub rfl) (setTcb_of_ne hne.symm)
  | markFailed hp =>
    have hne := ne_of_task? hp hsub rfl
    exact view_of_phase rfl hsub nofun (setTcb_of_ne hne.symm)
  | presleep hp | discard hp =>
    have hne := ne_of_task? hp hsub rfl
    exact view_congr rfl (setTcb_of_ne hne.symm) (fun _ => rfl) (fun _ => rfl) (fun _ => rfl)
      (fun _ => Iff.rfl) fun _ => Iff.rfl
  -- a task that leaves goes to a place that was empty
  | suspend hp =>
    obtain ⟨hne, habout⟩ := hleave hp hsub
    exact view_of_hart rfl habout Iff.rfl (iff_of_false (hne ∘ some.inj) (hx.noReady hp rfl ▸ nofun))
      (setTcb_of_ne hne.symm)
  | blockReady hp =>
    obtain ⟨hne, habout⟩ := hleave hp hsub
    exact view_of_hart rfl habout Iff.rfl (iff_of_false (hne ∘ some.inj) (hx.noReady hp rfl ▸ nofun))
  | block hp =>
    obtain ⟨hne, habout⟩ := hleave hp hsub
    exact view_of_hart rfl habout (iff_of_false (hne ∘ some.inj) (hx.noBlocked hp rfl ▸ nofun)) Iff.rfl
      (setTcb_of_ne hne.symm)
  | exit hp =>
    obtain ⟨hne, habout⟩ := hleave hp hsub
    exact view_of_hart rfl habout Iff.rfl Iff.rfl (setTcb_of_ne hne.symm)

/-- The step of an operation changes only the entries of its task. -/
theorem opStep_entries_of_ne (hne : op.task ≠ t) (h : Hart) :
    entries t ((m.opStep id op target slot).queue h) = entries t (m.queue h) := by
  by_cases hl : op.stage.lock? = some h
  · obtain ⟨u, stage⟩ := op
    cases stage with
    | addPush hart =>
      obtain rfl : hart = h := some.inj hl
      simp only [opStep]
      split
      · rw [setOp_queue, setQueue_self, entries_push_of_ne hne]
      · rfl
    | removeScan _ hart =>
      obtain rfl : hart = h := some.inj hl
      simp only [opStep, setOp_queue, setQueue_self]
      exact entries_remove_of_ne hne
    | _ => cases hl
  · rw [opStep_queue_of_ne hl]

/-- **The step of an operation on another task** leaves the view of a task alone. -/
theorem opStep_view_of_ne (hop : m.ops id = some op)
    (hne : op.task ≠ t) : (m.opStep id op target slot).view t = m.view t := by
  refine view_congr (by rw [opStep_created]) (by rw [opStep_tcb, update_of_ne hne.symm])
    (opStep_entries_of_ne hne) (fun id' => ?_) fun h => by rw [opStep_hart] fun h => by rw [opStep_hart]
    fun h => by rw [opStep_hart]
  by_cases hid : id' = id
  · subst hid
    rw [stage_of_ne hop hne]
    cases ho : (m.opStep id' op target slot).ops id' with
    | none => exact stage_of_none ho
    | some => exact stage_of_ne ho (opStep_task ho ▸ hne)
  · exact stage_congr (opStep_ops_of_ne hid)

theorem setOp_view_of_ne (hid : m.ops id = none) (hne : o.task ≠ t) :
    (m.setOp id (some o)).view t = m.view t :=
  view_congr rfl rfl (fun _ => rfl) (stage_setOp_of_ne hid hne) (fun _ => rfl) (fun _ => Iff.rfl)
    fun _ => Iff.rfl

end Machine

end HitOS.Sched
