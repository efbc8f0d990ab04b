import HitOS.Task.Moves

/-!
# A task runs on one hart

`held` lists the tasks that a hart has marked on its CPU and not yet finished: the one it enters,
runs or leaves, and those it has put aside for its idle loop. `Owned` says that the on-CPU word of a
task names the hart that holds it. A step of a hart keeps what it holds (`Owned.keep`), takes one
more task, whose word was `OFF_CPU` (`Owned.acquire`), or lets one go (`Owned.release`).

A hart that is on the kernel stack of a task holds it (`SlotsOk` for a task that is about to be
switched away), so no two harts are on the same stack: `one_hart_on_stack`.
-/

namespace HitOS.Sched

open Option HartPhase HartState List

/-! ### What a hart holds -/

/-- The task on whose kernel stack a hart is. -/
def HartPhase.onStack : HartPhase → Option Task
  | running t | leaving t _ | switching t => some t
  | _ => none

def HartPhase.holds : HartPhase → Option Task
  | entering t | running t | leaving t _ => some t
  | _ => none

/-- The tasks that a hart holds. -/
def HartState.held (x : HartState) : List Task :=
  x.phase.holds.toList ++ x.pendingBlocked.toList ++ x.pendingReady.toList ++ x.pendingDrop

/-- A task may wait in `pending_blocked`. -/
def HartPhase.keepsBlocked : HartPhase → Bool
  | top | switching _ => true
  | _ => false

/-- A task may wait in `pending_ready`. -/
def HartPhase.keepsReady : HartPhase → Bool
  | top | requeue | switching _ => true
  | _ => false

/-- The places of a hart for tasks that it has put aside. -/
structure SlotsOk (x : HartState) : Prop where
  /-- `pending_blocked` is emptied at the top of the idle loop. -/
  blocked : x.phase.keepsBlocked = false → x.pendingBlocked = none
  /-- `pending_ready` is emptied next. -/
  ready : x.phase.keepsReady = false → x.pendingReady = none
  /-- A task that is about to be switched away was put aside. -/
  switching : ∀ t, x.phase = .switching t → t ∈ x.held

variable {x : HartState} {p : HartPhase} {c : Tcb}

/-- Outside the top of the loop and a switch, `pending_blocked` is empty. -/
theorem SlotsOk.noBlocked (hx : SlotsOk x) (hp : x.phase = p)
    (hk : p.keepsBlocked = false) : x.pendingBlocked = none := hx.blocked (hp ▸ hk)

theorem SlotsOk.noReady (hx : SlotsOk x) (hp : x.phase = p)
    (hk : p.keepsReady = false) : x.pendingReady = none := hx.ready (hp ▸ hk)

namespace Machine

variable {m m' : Machine} {h h' : Hart} {act : HartAct} {t : Task}

/-! ### The places of a hart -/

/-- A phase that keeps nothing aside, after the places were empty. -/
theorem SlotsOk.phase (hb : x.pendingBlocked = none) (hr : p.keepsReady = false → x.pendingReady = none)
    (hs : ∀ t, p ≠ .switching t) : SlotsOk { x with phase := p } :=
  ⟨fun _ => hb, hr, fun t ht => absurd ht (hs t)⟩

theorem HartMove.slotsOk (hmove : HartMove m h act m') (hx : SlotsOk (m.hart h)) : SlotsOk (m'.hart h) := by
  cases hmove with
  | noBlocked _ hs =>
    rw [goto_hart_self]
    exact SlotsOk.phase hs nofun nofun
  | finishBlocked hp | replay hp =>
    simp only [setOp_hart, setHart_self]
    exact ⟨fun _ => rfl, nofun, nofun⟩
  | noReady hp hs =>
    rw [goto_hart_self]
    exact SlotsOk.phase (hx.noBlocked hp rfl) (fun _ => hs) nofun
  | finishReady hp =>
    rw [setOp_hart, setHart_self]
    exact ⟨fun _ => hx.noBlocked hp rfl, fun _ => rfl, nofun⟩
  | finishDrop hp =>
    rw [setHart_self]
    refine ⟨fun _ => hx.noBlocked hp rfl, fun _ => hx.noReady hp rfl, fun t ht => ?_⟩
    exact nomatch hp.symm.trans ht
  | clear hp =>
    rw [goto_hart_self]
    refine SlotsOk.phase (hx.noBlocked hp rfl) (fun _ => hx.noReady hp rfl) fun t ht => ?_
    split at ht
    · split at ht <;> cases ht
    · cases ht
  | check hp =>
    rw [goto_hart_self]
    refine SlotsOk.phase (hx.noBlocked hp rfl) (fun _ => hx.noReady hp rfl) fun t ht => ?_
    split at ht <;> cases ht
  | presleep | discard => exact hx
  | suspend hp | blockReady hp | block hp | exit hp =>
    rw [setHart_self]
    refine ⟨nofun, nofun, fun t ht => ?_⟩
    cases ht
    simp [held]
  | switchOut hp | giveUp hp =>
    rw [goto_hart_self]
    exact ⟨nofun, nofun, nofun⟩
  | lockQueue hp | look hp | select hp | stale hp | takeNone hp | takeCurrentTask hp =>
    rw [goto_hart_self]
    exact SlotsOk.phase (hx.noBlocked hp rfl) (fun _ => hx.noReady hp rfl) nofun
  | popRt hp | prune hp | take hp | mark hp | markFailed hp | switchIn hp =>
    exact goto_hart_self.symm ▸ SlotsOk.phase (hx.noBlocked hp rfl) (fun _ => hx.noReady hp rfl) nofun

/-! ### Taking and letting go -/

theorem onCpu_setTcb (hc : c.onCpu.hart? = (m.tcb t).onCpu.hart?) (u : Task) :
    ((m.setTcb t c).tcb u).onCpu.hart? = (m.tcb u).onCpu.hart? := by
  by_cases hu : u = t
  · subst hu
    rw [setTcb_self, hc]
  · rw [setTcb_of_ne hu]

theorem onCpu_setTcb_of_ne : ∀ u, u ≠ t → ((m.setTcb t c).tcb u).onCpu.hart? = (m.tcb u).onCpu.hart? := by
  intro u hu
  rw [setTcb_of_ne hu]

theorem wakeIfBlocked_onCpu : (wakeIfBlocked c).1.onCpu = c.onCpu := by
  unfold wakeIfBlocked
  split
  · rfl
  · split
    · split <;> rfl
    · rfl

/-- An operation does not change on which hart a task is. -/
theorem opTcb_onCpu {stage : OpStage} : (opTcb c stage).onCpu.hart? = c.onCpu.hart? := by
  cases stage with
  | wakeDefer => exact OnCpu.hart?_defer _
  | wakeStatus => exact congrArg _ wakeIfBlocked_onCpu
  | addCas =>
    simp only [opTcb]
    split <;> rfl
  | _ => rfl

theorem opStep_onCpu {id : Nat} {op : Op} {target : Hart} {slot : Slot} (u : Task) :
    ((m.opStep id op target slot).tcb u).onCpu.hart? = (m.tcb u).onCpu.hart? := by
  rw [opStep_tcb]
  exact onCpu_setTcb opTcb_onCpu u

/-- What a step of a hart does to the tasks it holds. -/
inductive HeldChange (m m' : Machine) (h : Hart) : Prop
  | keep (hheld : (m'.hart h).held.Perm (m.hart h).held)
      (hcpu : ∀ u, (m'.tcb u).onCpu.hart? = (m.tcb u).onCpu.hart?)
  | release (t : Task) (hheld : (m.hart h).held.Perm (t :: (m'.hart h).held))
      (hoff : (m'.tcb t).onCpu.hart? = none)
      (hcpu : ∀ u, u ≠ t → (m'.tcb u).onCpu.hart? = (m.tcb u).onCpu.hart?)
  | acquire (t : Task) (hheld : (m'.hart h).held.Perm (t :: (m.hart h).held))
      (hoff : (m.tcb t).onCpu.hart? = none) (hon : (m'.tcb t).onCpu.hart? = some h)
      (hcpu : ∀ u, u ≠ t → (m'.tcb u).onCpu.hart? = (m.tcb u).onCpu.hart?)

/-- A phase after which a hart holds the same tasks. -/
theorem HeldChange.of_phase {q : HartPhase} (hp : (m.hart h).phase = p)
    (hhart : m'.hart h = { m.hart h with phase := q }) (hholds : q.holds = p.holds)
    (hcpu : ∀ u, (m'.tcb u).onCpu.hart? = (m.tcb u).onCpu.hart?) : HeldChange m m' h := by
  refine .keep ?_ hcpu
  rw [hhart]
  simp only [held, hp, hholds]
  exact .refl _

/-- `finish_running` of a task that was put aside. -/
theorem HeldChange.of_finish (hhart : m'.hart h = x) (hheld : (m.hart h).held.Perm (t :: x.held))
    (htcb : m'.tcb = (m.finishRunning t).tcb) : HeldChange m m' h := by
  refine .release t (hhart ▸ hheld) ?_ fun u hu => ?_
  · rw [htcb]
    simp only [finishRunning, setTcb_self]
    rfl
  · rw [htcb]
    exact onCpu_setTcb_of_ne u hu

theorem HartMove.heldChange (hmove : HartMove m h act m') (hx : SlotsOk (m.hart h)) : HeldChange m m' h := by
  cases hmove with
  -- the idle loop lets go of what was put aside
  | finishBlocked hp hs | replay hp hs | finishReady hp hs =>
    refine .of_finish setHart_self ?_ rfl
    simp [held, hp, hs, holds]
  | finishDrop hp hs =>
    refine .of_finish setHart_self ?_ rfl
    simp [held, hs, hx.noBlocked hp rfl, hx.noReady hp rfl]
  -- `try_mark_on_cpu` takes a task that is on no hart
  | @mark e hp ho =>
    refine .acquire e.task ?_ (by rw [ho]; rfl) ?_ onCpu_setTcb_of_ne
    · rw [goto_hart_self]
      simp [held, hp, holds]
    · rw [goto_tcb, setTcb_self]
      rfl
  -- a task that leaves goes to one of the places, which was empty
  | suspend hp | block hp | exit hp =>
    refine .keep ?_ (onCpu_setTcb rfl)
    simp [held, hp, hx.noBlocked hp rfl, hx.noReady hp rfl, holds]
  | blockReady hp =>
    refine .keep ?_ fun _ => rfl
    simp [held, hp, hx.noReady hp rfl, holds]
  | presleep => exact .keep (.refl _) (onCpu_setTcb rfl)
  | discard => exact .keep (.refl _) (onCpu_setTcb (OnCpu.hart?_discard _))
  | noBlocked hp | noReady hp | lockQueue hp | look hp | select hp | stale hp | takeNone hp | giveUp hp
  | takeCurrentTask hp | switchOut hp => exact .of_phase hp goto_hart_self rfl fun _ => rfl
  | check hp =>
    refine .of_phase hp goto_hart_self ?_ fun _ => rfl
    split <;> rfl
  | clear hp =>
    refine .of_phase hp goto_hart_self ?_ (onCpu_setTcb rfl)
    split
    · split <;> rfl
    · rfl
  | prune hp =>
    refine .of_phase hp goto_hart_self rfl (onCpu_setTcb ?_)
    split <;> rfl
  | popRt hp | take hp | markFailed hp | switchIn hp =>
    exact .of_phase hp goto_hart_self rfl (onCpu_setTcb rfl)

/-! ### Ownership -/

/-- The on-CPU words name the harts that hold the tasks. -/
structure Owned (m : Machine) : Prop where
  /-- A hart holds the tasks whose word names it. -/
  held_iff : ∀ h t, t ∈ (m.hart h).held ↔ (m.tcb t).onCpu.hart? = some h
  /-- It holds each once. -/
  nodup : ∀ h, (m.hart h).held.Nodup
  /-- What it has put aside is where the idle loop looks for it. -/
  slots : ∀ h, SlotsOk (m.hart h)

theorem Owned.keep (ho : Owned m) (hhart : m'.hart = m.hart)
    (hcpu : ∀ u, (m'.tcb u).onCpu.hart? = (m.tcb u).onCpu.hart?) : Owned m' where
  held_iff h t := by rw [hhart, hcpu, ho.held_iff]
  nodup h := by rw [hhart]; exact ho.nodup h
  slots h := by rw [hhart]; exact ho.slots h

/-- What a hart holds after its step has words that name it, and the words that name other harts do
not change. -/
theorem HeldChange.owned (hc : HeldChange m m' h) (ho : Owned m) :
    (∀ u, u ∈ (m'.hart h).held ↔ (m'.tcb u).onCpu.hart? = some h) ∧ (m'.hart h).held.Nodup ∧
      ∀ u h', h' ≠ h → ((m.tcb u).onCpu.hart? = some h' ↔ (m'.tcb u).onCpu.hart? = some h') := by
  cases hc with
  | keep hheld hcpu =>
    refine ⟨fun u => ?_, hheld.nodup_iff.mpr (ho.nodup h), fun u _ _ => by rw [hcpu u]⟩
    rw [hheld.mem_iff, ho.held_iff, hcpu]
  | release t hheld hoff hcpu =>
    obtain ⟨hnot, hrest⟩ := nodup_cons.mp (hheld.nodup_iff.mp (ho.nodup h))
    have ht : (m.tcb t).onCpu.hart? = some h := (ho.held_iff h t).mp (hheld.mem_iff.mpr (.head _))
    refine ⟨fun u => ?_, hrest, fun u h' hh => ?_⟩ <;> by_cases hu : u = t
    · -- the task is held by nobody any more
      subst hu
      rw [hoff]
      exact iff_of_false hnot nofun
    · rw [hcpu u hu, ← ho.held_iff, hheld.mem_iff, mem_cons, or_iff_right hu]
    · subst hu
      rw [hoff, ht]
      exact iff_of_false (fun heq => hh (some.inj heq).symm) nofun
    · rw [hcpu u hu]
  | acquire t hheld hoff hon hcpu =>
    -- the task was held by nobody
    have hnot : t ∉ (m.hart h).held := fun hmem => nomatch hoff.symm.trans ((ho.held_iff h t).mp hmem)
    refine ⟨fun u => ?_, hheld.nodup_iff.mpr (nodup_cons.mpr ⟨hnot, ho.nodup h⟩), fun u h' hh => ?_⟩ <;>
      by_cases hu : u = t
    · subst hu
      exact iff_of_true (hheld.mem_iff.mpr (.head _)) hon
    · rw [hheld.mem_iff, mem_cons, or_iff_right hu, ho.held_iff, hcpu u hu]
    · subst hu
      rw [hoff, hon]
      exact iff_of_false nofun fun heq => hh (some.inj heq).symm
    · rw [hcpu u hu]

/-- **A step of a hart** keeps the ownership. -/
theorem Owned.hartMove (ho : Owned m) (hmove : HartMove m h act m') : Owned m' := by
  obtain ⟨hheld, hnodup, hother⟩ := (hmove.heldChange (ho.slots h)).owned ho
  refine ⟨fun h' u => ?_, fun h' => ?_, fun h' => ?_⟩ <;> by_cases hh : h' = h
  · exact hh ▸ hheld u
  · rw [hmove.hart_of_ne hh, ho.held_iff, hother u h' hh]
  · exact hh ▸ hnodup
  · rw [hmove.hart_of_ne hh]
    exact ho.nodup h'
  · exact hh ▸ hmove.slotsOk (ho.slots h)
  · rw [hmove.hart_of_ne hh]
    exact ho.slots h'

theorem owned_boot : Owned boot where
  held_iff _ _ := iff_of_false not_mem_nil nofun
  nodup _ := .nil
  slots _ := ⟨nofun, nofun, nofun⟩

/-- **One step** keeps the ownership, whoever takes it. -/
theorem Owned.exec (ho : Owned m) {l : Label} (hstep : m.exec l = some m') : Owned m' := by
  cases l with
  | spawn =>
    obtain ⟨-, -, rfl⟩ := spawn_eq hstep
    exact ho.keep rfl fun _ => rfl
  | wake t id | refresh t id | remove t id =>
    obtain ⟨-, -, rfl⟩ := start_eq hstep
    exact ho.keep rfl fun _ => rfl
  | op id target slot =>
    obtain ⟨op, -, rfl⟩ := opNext_eq hstep
    exact ho.keep opStep_hart opStep_onCpu
  | hart => exact ho.hartMove (hartMove_of_hartStep hstep)

theorem Runs.owned {cond : Machine → Label → Prop} (hrun : Runs cond m) : Owned m :=
  hrun.invariant (fun _ hboot => hboot ▸ owned_boot) fun _ _ ho ⟨_, _, hstep⟩ => ho.exec hstep

/-- A hart holds the task on whose stack it is. -/
theorem Owned.held_of_onStack (ho : Owned m) (hs : (m.hart h).phase.onStack = some t) :
    t ∈ (m.hart h).held := by
  cases hp : (m.hart h).phase with
  | switching =>
    rw [hp] at hs
    cases hs
    exact (ho.slots h).switching t hp
  | running u | leaving u how =>
    rw [hp] at hs
    cases hs
    simp [held, hp, holds]
  | _ =>
    rw [hp] at hs
    cases hs

/-- **A task never runs on two harts**: over all interleavings of any number of harts, tasks and
operations, at most one hart is on the kernel stack of a task, and it is the one that the word of
the task names. -/
theorem one_hart_on_stack {m : Machine} (hrun : Runs (fun _ _ => True) m) (t : Task) (h h' : Hart)
    (hs : (m.hart h).phase.onStack = some t) (hs' : (m.hart h').phase.onStack = some t) :
    h = h' ∧ (m.tcb t).onCpu.hart? = some h := by
  have ho := hrun.owned
  have hcpu := (ho.held_iff h t).mp (ho.held_of_onStack hs)
  have hcpu' := (ho.held_iff h' t).mp (ho.held_of_onStack hs')
  exact ⟨some.inj (hcpu.symm.trans hcpu'), hcpu⟩

/-- A new task is enqueued on hart 1, which fetches it and switches to it. -/
theorem one_hart_on_stack_first : ∃ m, Runs (fun _ _ => True) m ∧ (m.hart 1).phase.onStack = some 7 ∧
    ∀ h, (m.hart h).phase.onStack = some 7 → 1 = h ∧ (m.tcb 7).onCpu.hart? = some 1 := by
  obtain ⟨m, hm⟩ : ∃ m, boot.execs (spawnAndEnter 7 1 0) = some m := isSome_iff_exists.mp (by decide)
  have hon : (boot.execs (spawnAndEnter 7 1 0)).map (fun m => (m.hart 1).phase.onStack) = some (some 7) := by
    decide
  rw [hm] at hon
  have hrun := runs_of_execs hm
  exact ⟨m, hrun, some.inj hon, fun h hs => one_hart_on_stack hrun 7 1 h (some.inj hon) hs⟩

end Machine

end HitOS.Sched
