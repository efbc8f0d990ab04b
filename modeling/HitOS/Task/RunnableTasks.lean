import HitOS.Task.Places

/-!
# No runnable task is lost

`PlaceInv` says of every task that is there and does not exit that it is at one place, and of every
task that is not there yet that nothing is known about it. Steps that take the care of `Careful`
keep it (`PlaceInv.exec`), so a task that is `Ready`, on no hart and in no operation is in exactly
one run queue, once: `ready_task_queued_once`.

Without that care it is lost: `refresh_loses_ready_task` is a run in which `refresh_task_runqueue`
exchanges `ready_queue_hart` while `add` is between its exchange and its push.
-/

namespace HitOS.Sched

open Function Option View Bool List

namespace Machine

variable {m m' : Machine} {t u : Task} {h : Hart} {act : HartAct} {id : Nat} {s : OpStage} {target : Hart}
  {slot : Slot} {l : Label} {c : Tcb}

/-! ### What no step undoes -/

/-- The freezer of a task is left alone, and a task that has exited is not brought back. -/
structure Keeps (c c' : Tcb) : Prop where
  thawed : c'.cgroupFrozen = c.cgroupFrozen
  res : c'.res = true → c.res = true

theorem keeps_setTcb (hc : Keeps (m.tcb t) c) : Keeps (m.tcb u) ((m.setTcb t c).tcb u) := by
  by_cases hut : u = t
  · subst hut
    rwa [setTcb_self]
  · rw [setTcb_of_ne hut]
    exact ⟨rfl, id⟩

theorem opTcb_keeps (s : OpStage) : Keeps c (opTcb c s) := by
  cases s with
  | wakeStatus =>
    simp only [opTcb, wakeIfBlocked]
    split
    · exact ⟨rfl, id⟩
    · split
      · split <;> exact ⟨rfl, id⟩
      · exact ⟨rfl, id⟩
  | addCas =>
    simp only [opTcb]
    split <;> exact ⟨rfl, id⟩
  | takeRes => exact ⟨rfl, (by intros; contradiction)⟩
  | _ => exact ⟨rfl, id⟩

theorem HartMove.keeps (hmove : HartMove m h act m') : Keeps (m.tcb t) (m'.tcb t) := by
  cases hmove with
  | prune =>
    refine keeps_setTcb ?_
    split <;> exact ⟨rfl, id⟩
  | exit =>
    refine keeps_setTcb ?_
    exact ⟨rfl, nofun⟩
  | finishBlocked | replay | finishReady | finishDrop | popRt | take | clear | mark | markFailed | switchIn
  | presleep | discard | suspend | block =>
    refine keeps_setTcb ?_
    exact ⟨rfl, id⟩
  | _ => exact ⟨rfl, id⟩

/-- A step of a hart leaves the operations in progress alone. -/
theorem HartMove.ops_of_some (hmove : HartMove m h act m') {o : Op} (hop : m.ops id = some o) :
    m'.ops id = some o := by
  cases hmove with
  | @replay id' t hp hs hw hid | @finishReady id' target t hp hs hid =>
    have hne : id ≠ id' := fun heq => nomatch (heq ▸ hop).symm.trans hid
    exact (setOp_of_ne hne).trans hop
  | _ => exact hop

/-- An operation that is part of an exit stays so, or the task has no `res` any more. -/
theorem opStep_exits (hs : s.exits = true) :
    (∃ s', (m.opStep id ⟨t, s⟩ target slot).stage t id = some s' ∧ s'.exits = true) ∨
      ((m.opStep id ⟨t, s⟩ target slot).tcb t).res = false := by
  cases s with
  | removeSwap why =>
    cases why with
    | refresh => cases hs
    | exit =>
      left
      -- without a mark there is no run queue to search
      cases hq : (m.tcb t).readyQueueHart with
      | none => exact ⟨.removeStore .exit 0, stage_eq_some.mpr (by simp [opStep, hq]), rfl⟩
      | some hart => exact ⟨.removeScan .exit hart, stage_eq_some.mpr (by simp [opStep, hq]), rfl⟩
  | removeScan why | removeStore why =>
    cases why with
    | refresh => cases hs
    | exit => exact .inl ⟨_, stage_eq_some.mpr setOp_self, rfl⟩
  | takeRes =>
    right
    rw [opStep_tcb_self m id ⟨t, .takeRes⟩]
    rfl
  | _ => cases hs

/-- A task that is alive after a step of an operation was so before. -/
theorem alive_of_opStep (hop : m.ops id = some ⟨t, s⟩)
    (halive : ((m.opStep id ⟨t, s⟩ target slot).view t).Alive) : (m.view t).Alive where
  created := (congrFun opStep_created t).symm.trans halive.created
  res := (opTcb_keeps s).res (opStep_tcb_self m id ⟨t, s⟩ target slot ▸ halive.res)
  stays id' s₁ hs := by
    by_cases hid : id' = id
    · subst hid
      cases (stage_eq_some.mp hs).symm.trans hop
      -- an operation that exits would do so after the step, too
      by_contra hne
      obtain ⟨s', hs', hexit⟩ | hres := opStep_exits (eq_true_of_not_eq_false hne)
      · rw [halive.stays id' s' hs'] at hexit
        cases hexit
      · cases hres.symm.trans halive.res
    · exact halive.stays id' s₁ ((opStep_stage_of_ne id' hid).trans hs)

/-! ### The invariant -/

/-- **Every task is at a place.** -/
structure PlaceInv (m : Machine) : Prop where
  owned : Owned m
  /-- A task that is to be dropped has exited. -/
  dropped : ∀ h t, t ∈ (m.hart h).pendingDrop → (m.tcb t).res = false
  placed : ∀ t, Placed (m.view t)

theorem placeInv_boot : PlaceInv boot where
  owned := owned_boot
  dropped _ _ hmem := nomatch hmem
  placed _ := ⟨fun _ => rfl, fun halive => (nomatch halive.created), rfl⟩

/-- No hart does anything with a task that is not there. -/
theorem PlaceInv.created_of_subject (hinv : PlaceInv m) (hmove : HartMove m h act m')
    (hsub : m.subject h act = some t) : m.created t = true := by
  by_contra hne
  have hview : m.view t = .unborn := (hinv.placed t).unborn (eq_false_of_not_eq_true hne)
  -- neither the phase of a hart nor a run queue has the task
  have hphase : (m.hart h).phase.task? ≠ some t := fun heq => by
    have htop : (m.hart h).phase.about t = .top := congrFun (congrArg phase hview) h
    rw [about_self heq] at htop
    rw [htop] at heq
    cases heq
  have hqueue : ∀ e : Entry, e.task = t → e ∉ m.queue h := fun e he hmem => by
    have h0 : entries t (m.queue h) = 0 := congrFun (congrArg count hview) h
    exact absurd (entries_pos hmem) (by rw [he, h0]; exact lt_irrefl 0)
  cases act with
  | takePendingBlocked =>
    have hb : decide ((m.hart h).pendingBlocked = some t) = false := congrFun (congrArg blockedOn hview) h
    exact of_decide_eq_false hb hsub
  | takePendingReady =>
    have hr : decide ((m.hart h).pendingReady = some t) = false := congrFun (congrArg readyOn hview) h
    exact of_decide_eq_false hr hsub
  | takePendingDrop =>
    have hres : (m.tcb t).res = true := congrArg (fun v => v.tcb.res) hview
    cases hres.symm.trans (hinv.dropped h t (mem_of_mem_head? hsub))
  | popRt e =>
    cases hmove with
    | popRt _ _ he => exact hqueue e (some.inj hsub) he
  | look e =>
    cases hmove with
    | look _ _ he => exact hqueue e (some.inj hsub) he
  | _ => exact hphase hsub

/-! ### Steps -/

/-- An operation begins on a task. -/
theorem placed_start (hpl : Placed (m.view t)) (hcreated : m.created t = true)
    (hid : m.ops id = none) (hs : s.carries = false) (hw : s ≠ .wakeStatus) :
    Placed ((m.setOp id (some ⟨t, s⟩)).view t) where
  unborn hc := nomatch hcreated.symm.trans hc
  thawed := hpl.thawed
  place halive := by
    have hother : ∀ id', id' ≠ id → (m.setOp id (some ⟨t, s⟩)).stage t id' = m.stage t id' :=
      fun _ hne => stage_congr (setOp_of_ne hne)
    have hself : (m.setOp id (some ⟨t, s⟩)).stage t id = some s := stage_eq_some.mpr setOp_self
    have hbefore : m.stage t id = none := stage_of_none hid
    obtain ⟨p, ha⟩ := hpl.place ⟨halive.created, halive.res, fun id' s' hs' => by
      by_cases hh : id' = id
      · subst hh
        cases hbefore.symm.trans hs'
      · exact halive.stays id' s' ((hother id' hh).trans hs')⟩
    refine ⟨p, ha.stay id ⟨rfl, rfl, rfl⟩ hother rfl rfl rfl rfl (fun s' hs' => ?_)
      (fun s' hs' => ?_) fun hw' => ?_⟩
    · cases hbefore.symm.trans hs'
    · cases hself.symm.trans hs'
      exact hs
    · cases hself.symm.trans hw'
      exact absurd rfl hw

theorem PlaceInv.start (hinv : PlaceInv m) (howned : Owned m') (hstep : m.start t id s = some m')
    (hs : s.carries = false) (hw : s ≠ .wakeStatus) : PlaceInv m' := by
  obtain ⟨hc, hid, rfl⟩ := start_eq hstep
  refine ⟨howned, hinv.dropped, fun u => ?_⟩
  by_cases hut : u = t
  · subst hut
    exact placed_start (hinv.placed u) hc hid hs hw
  · rw [setOp_view_of_ne hid (symm hut)]
    exact hinv.placed u

/-- A new task is carried to its first run queue. -/
theorem placed_spawn (hview : m.view t = .unborn) :
    Placed (({ m with created := update m.created t true }.setOp id (some ⟨t, .addCas target⟩)).view t) where
  unborn hc := by simp [view] at hc
  thawed := congrArg (fun v => v.tcb.cgroupFrozen) hview
  place _ := by
    have htcb : m.tcb t = .new := congrArg View.tcb hview
    -- the `add` that carries it is the only operation on it
    have hstage id' : ({ m with created := update m.created t true }.setOp id
        (some ⟨t, .addCas target⟩)).stage t id' = if id' = id then some (.addCas target) else none := by
      by_cases hh : id' = id
      · subst hh
        rw [if_pos rfl]
        exact stage_eq_some.mpr setOp_self
      · rw [if_neg hh]
        exact (stage_congr (setOp_of_ne hh)).trans (congrFun (congrArg View.stage hview) id')
    have hphase : ∀ h, (m.hart h).phase.about t = .top := congrFun (congrArg phase hview)
    refine ⟨.carried id (.addCas target), ?_, ?_, ?_, ?_, ?_, ?_, ?_, ?_, ?_, ?_, ?_⟩
    · simp only [view, setOp_tcb, htcb]
      rfl
    · simp only [view, setOp_tcb, htcb]
      rfl
    · exact congrFun (congrArg count hview)
    · intro id' s _
      simp only [view, hstage, Place.op]
      by_cases hh : id' = id
      · simp [hh]
      · simp [hh, Ne.symm hh]
    · rintro id' s ⟨⟩
      rfl
    · intro h
      simp only [view, setOp_hart, hphase]
      exact iff_of_false (by rintro ⟨⟩) (by rintro ⟨⟩)
    · intro h b hb
      simp only [view, setOp_hart, hphase] at hb
      cases hb
    · rintro _ ⟨⟩
      simp only [view, setOp_tcb, htcb]
      rfl
    · exact fun _ _ => rfl
    · intro h hb
      cases (congrFun (congrArg blockedOn hview) h).symm.trans hb
    · intro h hb
      cases (congrFun (congrArg readyOn hview) h).symm.trans hb

/-- The step of an operation on its task. -/
theorem placed_opStep (hpl : Placed (m.view t)) (hop : m.ops id = some ⟨t, s⟩)
    (hcare : Careful m (.op id target slot)) : Placed ((m.opStep id ⟨t, s⟩ target slot).view t) where
  unborn hc := by
    have hc' : m.created t = false := (congrFun opStep_created t).symm.trans hc
    have hnone : m.stage t id = none := congrFun (congrArg View.stage (hpl.unborn hc')) id
    cases hnone.symm.trans (stage_eq_some.mpr hop)
  thawed := by
    simp only [view, opStep_tcb_self m id ⟨t, s⟩ target slot]
    exact (opTcb_keeps s).thawed.trans hpl.thawed
  place halive := by
    have halive' := alive_of_opStep hop halive
    obtain ⟨p, ha⟩ := hpl.place halive'
    refine ha.opStep hop halive'.res hpl.thawed (halive'.stays id s (stage_eq_some.mpr hop)) ?_
    rintro rfl
    exact hcare.swap id target slot t rfl hop

/-- A step of a hart with a task. -/
theorem placed_hartMove (hinv : PlaceInv m) (hmove : HartMove m h act m') (hsub : m.subject h act = some t)
    (hcare : Careful m (.hart h act)) : Placed (m'.view t) where
  unborn hc := by
    have hc' : m.created t = false := (congrFun hmove.created t).symm.trans hc
    cases hc'.symm.trans (hinv.created_of_subject hmove hsub)
  thawed := hmove.keeps.thawed.trans (hinv.placed t).thawed
  place halive := by
    have halive' : (m.view t).Alive := ⟨(congrFun hmove.created t).symm.trans halive.created,
      hmove.keeps.res halive.res,
      fun id s hs => halive.stays id s (stage_eq_some.mpr (hmove.ops_of_some (stage_eq_some.mp hs)))⟩
    obtain ⟨p, ha⟩ := (hinv.placed t).place halive'
    refine ha.hartMove hinv.owned hmove hsub hcare halive.res fun hmem => ?_
    cases (hinv.dropped h t hmem).symm.trans halive'.res

/-- A task that is to be dropped was so before, or exits in this step. -/
theorem HartMove.dropped (hmove : HartMove m h act m')
    (hdrop : ∀ h t, t ∈ (m.hart h).pendingDrop → (m.tcb t).res = false) (h' : Hart) (t : Task)
    (hmem : t ∈ (m'.hart h').pendingDrop) : (m'.tcb t).res = false := by
  have hold (hmem' : t ∈ (m.hart h').pendingDrop) : (m'.tcb t).res = false :=
    eq_false_iff.mpr fun hres => (by cases (hdrop h' t hmem').symm.trans (hmove.keeps.res hres))
  by_cases hh : h' = h
  · subst hh
    cases hmove with
    | finishDrop _ hs =>
      rw [setHart_self] at hmem
      exact hold (hs ▸ .tail _ hmem)
    | @exit u hp =>
      rw [setHart_self] at hmem
      obtain hmem | hmem := mem_append.mp hmem
      · exact hold hmem
      · obtain rfl := mem_singleton.mp hmem
        simp
    | _ =>
      -- the other steps leave the list alone
      refine hold ?_
      simpa [claim, dropStale, goto_hart_self, setQueue] using hmem
  · exact hold (hmove.hart_of_ne hh ▸ hmem)

/-- **One careful step** keeps every task at a place. -/
theorem PlaceInv.exec (hinv : PlaceInv m) (hcare : Careful m l) (hstep : m.exec l = some m') :
    PlaceInv m' := by
  have howned := hinv.owned.exec hstep
  cases l with
  | spawn t id target =>
    obtain ⟨hc, hid, rfl⟩ := spawn_eq hstep
    refine ⟨howned, hinv.dropped, fun u => ?_⟩
    by_cases hut : u = t
    · subst hut
      exact placed_spawn ((hinv.placed u).unborn hc)
    have hview : ({ m with created := update m.created t true }.setOp id
        (some ⟨t, .addCas target⟩)).view u = m.view u :=
      view_congr (update_of_ne hut ..) rfl (fun _ => rfl) (stage_setOp_of_ne hid (symm hut))
        (fun _ => rfl) (fun _ => Iff.rfl) fun _ => Iff.rfl
    rw [hview]
    exact hinv.placed u
  | wake | refresh | remove => exact hinv.start howned hstep rfl nofun
  | op =>
    obtain ⟨⟨t, s⟩, hop, rfl⟩ := opNext_eq hstep
    refine ⟨howned, fun h u hmem => ?_, fun u => ?_⟩
    · rw [opStep_hart] at hmem
      refine eq_false_iff.mpr fun hres => ?_
      rw [opStep_tcb] at hres
      cases (hinv.dropped h u hmem).symm.trans ((keeps_setTcb (opTcb_keeps s)).res hres)
    · by_cases hut : u = t
      · subst hut
        exact placed_opStep (hinv.placed u) hop hcare
      · rw [opStep_view_of_ne hop (symm hut)]
        exact hinv.placed u
  | hart h act =>
    have hmove := hartMove_of_hartStep hstep
    -- a step is about one task at most, and nobody else sees it
    refine ⟨howned, hmove.dropped hinv.dropped, fun u => ?_⟩
    by_cases hsub : m.subject h act = some u
    · exact placed_hartMove hinv hmove hsub hcare
    · rw [hmove.view_of_ne (hinv.owned.slots h) hsub]
      exact hinv.placed u

theorem Runs.placeInv (hrun : Runs Careful m) : PlaceInv m :=
  hrun.invariant (fun _ hboot => hboot ▸ placeInv_boot) fun _ _ hinv ⟨_, hcare, hstep⟩ => hinv.exec hcare hstep

/-! ### Runs with one operation at a time -/

/-- The care of a step in a run where operation 0 is the only one and nobody refreshes. -/
def soloCareful (m : Machine) (l : Label) : Bool :=
  decide (l.id? = none ∨ l.id? = some 0) &&
  match l with
  | .op id _ _ => (m.ops id).all fun op => decide (op.stage ≠ .removeSwap .refresh)
  | .hart _ (.popRt e) | .hart _ (.look e) =>
    match m.stage e.task 0 with
    | some (.removeScan .refresh _) => false
    | _ => true
  | .hart h .tryMarkOnCpu => (m.hart h).phase.task?.all fun t => decide (m.stage t 0 ≠ some .wakeStatus)
  | _ => true

/-- The steps of a list, as long as each is careful. -/
def soloExecs (m : Machine) (ls : List Label) : Option Machine :=
  ls.foldlM (fun m l => if m.soloCareful l then m.exec l else none) m

theorem careful_of_solo (hnone : ∀ id, id ≠ 0 → m.ops id = none) (hs : m.soloCareful l = true) :
    Careful m l := by
  have hstage t id s (hid : m.stage t id = some s) : id = 0 := by
    by_contra hne
    cases (stage_of_none (hnone id hne)).symm.trans hid
  constructor
  · rintro id target slot t rfl hop
    simp [soloCareful, hop] at hs
  · rintro h e hl id h' hid
    obtain rfl := hstage _ id _ hid
    obtain rfl | rfl := hl
    · simp [soloCareful, hid] at hs
    · simp [soloCareful, hid] at hs
  · rintro h e rfl hp id hid
    obtain rfl := hstage _ id _ hid
    simp [soloCareful, hp, HartPhase.task?, hid] at hs

/-- What a careful list of steps leads to is reached by a careful run. -/
theorem runs_of_soloExecs {ls : List Label} (hm : Runs Careful m) (hnone : ∀ id, id ≠ 0 → m.ops id = none)
    (hls : m.soloExecs ls = some m') : Runs Careful m' ∧ ∀ id, id ≠ 0 → m'.ops id = none := by
  refine foldlM_invariant (I := fun m => Runs Careful m ∧ ∀ id, id ≠ 0 → m.ops id = none) ⟨hm, hnone⟩ ?_ hls
  rintro m l _ - ⟨hm, hnone⟩ hexec
  obtain ⟨hs, hn⟩ := ite_none_right_eq_some.mp hexec
  have hid : l.id? = none ∨ l.id? = some 0 := by
    simp only [soloCareful, and_eq_true, decide_eq_true_eq] at hs
    exact hs.1
  refine ⟨.step hm ⟨l, careful_of_solo hnone hs, hn⟩, fun id hne => ?_⟩
  rw [exec_ops_of_ne hn fun heq => ?_]
  · exact hnone id hne
  · obtain h0 | h0 := hid
    · cases h0.symm.trans heq
    · exact hne (some.inj (h0.symm.trans heq)).symm

/-! ### The result -/

/-- **No runnable task is lost**: after any careful run, a task that is there, is `Ready`, is held
by no hart and in the hand of none, and in no operation, is in exactly one run queue, exactly
once. -/
theorem ready_task_queued_once {m : Machine} (hrun : Runs Careful m) (t : Task) (hcreated : m.created t = true)
    (hlive : (m.tcb t).res = true) (hready : (m.tcb t).status = .ready) (hheld : ∀ h, t ∉ (m.hart h).held)
    (hhand : ∀ h, ((m.hart h).phase.about t).inHand = false)
    (hops : ∀ id op, m.ops id = some op → op.task ≠ t) :
    ∃ h, entries t (m.queue h) = 1 ∧ ∀ h', h' ≠ h → entries t (m.queue h') = 0 := by
  have hinv := hrun.placeInv
  have hnone : ∀ id s, m.stage t id ≠ some s := fun id s hs => hops id _ (stage_eq_some.mp hs) rfl
  obtain ⟨p, ha⟩ := (hinv.placed t).place ⟨hcreated, hlive, fun id s hs => absurd hs (hnone id s)⟩
  -- each of the other places is excluded by an assumption
  cases p with
  | queued h =>
    refine ⟨h, (ha.count h).trans (if_pos rfl), fun h' hne => (ha.count h').trans (if_neg fun heq => ?_)⟩
    exact hne (some.inj heq).symm
  | cpu h => exact absurd ((hinv.owned.held_iff h t).mpr ha.onCpu) (hheld h)
  | blocked => cases hready.symm.trans (ha.status _ rfl)
  | carried id s => exact absurd ((ha.ops id s (ha.carries id s rfl)).mpr rfl) (hnone id s)
  | inHand h => cases (hhand h).symm.trans ((ha.hand h).mpr rfl)

/-- A new task is enqueued on hart 1. -/
theorem ready_task_queued_once_new : ∃ m, Runs Careful m ∧ (m.tcb 7).status = .ready ∧
    ∃ h, entries 7 (m.queue h) = 1 ∧ ∀ h', h' ≠ h → entries 7 (m.queue h') = 0 := by
  let ls : List Label := [.spawn 7 0 1, .op 0 1 (.rt 3), .op 0 1 (.rt 3), .op 0 1 (.rt 3)]
  obtain ⟨m, hm⟩ : ∃ m, boot.soloExecs ls = some m := isSome_iff_exists.mp (by decide)
  obtain ⟨hrun, hops⟩ := runs_of_soloExecs (.start rfl) (fun _ _ => rfl) hm
  have hfacts : (boot.soloExecs ls).map (fun m => (m.created 7, (m.tcb 7).res, (m.tcb 7).status, m.ops 0)) =
      some (true, true, .ready, none) := by decide
  have hhart : (boot.soloExecs ls).map (fun m => m.hart) = some boot.hart := rfl
  rw [hm] at hfacts hhart
  simp only [map_some, some_inj, Prod.mk.injEq] at hfacts hhart
  obtain ⟨hcreated, hlive, hready, hop⟩ := hfacts
  refine ⟨m, hrun, hready, ready_task_queued_once hrun 7 hcreated hlive hready ?_ ?_ ?_⟩
  · rw [hhart]
    exact fun _ => not_mem_nil
  · rw [hhart]
    exact fun _ => rfl
  · intro id _ hid
    by_cases h0 : id = 0
    · cases hop.symm.trans (h0 ▸ hid)
    · cases (hops id h0).symm.trans hid

/-- A task is enqueued on hart 1, and someone changes its affinity: `refresh_task_runqueue` finds
`in_ready_queue` set, exchanges `ready_queue_hart` for none, and finds nothing in the run queue. The
`add` then sees that `ready_queue_hart` has changed, and does not push. The task is `Ready` and
nowhere. -/
theorem refresh_loses_ready_task : ∃ m, Runs (fun _ _ => True) m ∧ m.created 7 = true ∧ (m.tcb 7).res = true ∧
    (m.tcb 7).status = .ready ∧ (∀ h, 7 ∉ (m.hart h).held) ∧ (∀ h, ((m.hart h).phase.about 7).inHand = false) ∧
    (∀ id op, m.ops id = some op → op.task ≠ 7) ∧ ∀ h, entries 7 (m.queue h) = 0 := by
  -- operation 0 is the `add`, and 1 the refresh
  let ls : List Label :=
    [.spawn 7 0 1, .op 0 1 (.fair 0), .op 0 1 (.fair 0), .refresh 7 1, .op 1 1 (.fair 0), .op 1 1 (.fair 0),
      .op 1 1 (.fair 0), .op 1 1 (.fair 0), .op 0 1 (.fair 0), .op 0 1 (.fair 0)]
  obtain ⟨m, hm⟩ : ∃ m, boot.execs ls = some m := isSome_iff_exists.mp (by decide)
  have hfacts : (boot.execs ls).map
    (fun m => (m.created 7, (m.tcb 7).res, (m.tcb 7).status, m.ops 0, m.ops 1)) =
      some (true, true, .ready, none, none) := by decide
  have hhart : (boot.execs ls).map (fun m => m.hart) = some boot.hart := rfl
  have hqueue : (boot.execs ls).map (fun m => m.queue) = some (update boot.queue 1 []) := rfl
  rw [hm] at hfacts hhart hqueue
  simp only [map_some, some_inj, Prod.mk.injEq] at hfacts hhart hqueue
  obtain ⟨hcreated, hlive, hready, hop0, hop1⟩ := hfacts
  refine ⟨m, runs_of_execs hm, hcreated, hlive, hready, ?_, ?_, ?_, ?_⟩
  · rw [hhart]
    exact fun _ => not_mem_nil
  · rw [hhart]
    exact fun _ => rfl
  · intro id _ hid
    by_cases h0 : id = 0
    · cases hop0.symm.trans (h0 ▸ hid)
    · by_cases h1 : id = 1
      · cases hop1.symm.trans (h1 ▸ hid)
      · cases (execs_ops_none hm (by simp [ls, Label.id?, Ne.symm h0, Ne.symm h1])).symm.trans hid
  · intro h
    rw [hqueue]
    by_cases h1 : h = 1
    · subst h1
      rfl
    · rw [update_of_ne h1]
      rfl

end Machine

end HitOS.Sched
