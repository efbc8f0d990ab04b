import HitOS.Fs.Cgroup
import HitOS.Syscall.Error
import HitOS.Task.Scheduler

/-!
# The freezer

`fs/cgroupfs/file.rs`: writing `FROZEN` or `THAWED` to a cgroup marks every thread below it, or
takes the mark away (`applyLegacyFreezerState`); a thread or process is only moved between cgroups
that are not frozen (`attachRefused`). A frozen thread is blocked, and a wakeup is put off
(`wakeupTask`).

A thread that is blocked when `FROZEN` is written loses the mark, and is woken if the freezer had
parked it (`setThreadFreezerState` does not return there). `THAWED` does not look at the other
cgroups above a thread, and a process is moved without a look at the cgroups of its threads. In runs
that avoid these three cases the marks are right (`MarksRight`, `freezer_of_careful_run`);
`frozen_twice_wakes` has a run where they are not.
-/

namespace HitOS.Cgroup

open Option CgroupMountState OrdMap

namespace CgroupMountState

variable (st : CgroupMountState)

def frozenAt (path : CgroupPath) : Bool :=
  (st.nodes path).any fun node => node.freezerState = .frozen

def legacyFreezerPathFrozen (path : CgroupPath) : Bool :=
  st.kind = .legacyFreezer && (ancestorPaths path).any st.frozenAt

def subtreeMemberThreads (path : CgroupPath) : List CgroupThreadId :=
  (st.threadAssignments.entries.filter fun e => isDescendantOrSelf e.2 path).map Prod.fst

/-- The cgroup of a thread, or one above it, is frozen. -/
def underFrozen (t : CgroupThreadId) : Bool :=
  (st.threadAssignments.get? t).any st.legacyFreezerPathFrozen

end CgroupMountState

namespace Freezer

open HitOS.Sched (Tcb)
open Sched.Machine (wakeIfBlocked)

/-- `wakeup_task`, without the run queue. -/
def wakeupTask (c : Tcb) : Tcb :=
  match c.onCpu.defer with
  | (onCpu, true) => { c with onCpu := onCpu }
  | (_, false) => (wakeIfBlocked c).1

/-- `set_thread_freezer_state`, and whether the current task has to block. -/
def setThreadFreezerState (c : Tcb) (frozen isCurrent : Bool) : Tcb × Bool :=
  let c := if frozen then { c with cgroupFrozen := true, wakeOnCgroupThaw := false } else c
  if frozen ∧ c.status ≠ .blocked then ({ c with status := .blocked, parkedByCgroup := true }, isCurrent)
  else
    -- a thread that was blocked already comes here also when it is to be frozen
    let shouldWake := c.parkedByCgroup || c.wakeOnCgroupThaw
    let c := { c with cgroupFrozen := false, parkedByCgroup := false, wakeOnCgroupThaw := false }
    (if shouldWake then wakeupTask c else c, false)

/-- A hierarchy, and the threads that exist. -/
structure State where
  mount : CgroupMountState
  tcb : CgroupThreadId → Option Tcb

/-- `apply_legacy_freezer_state`. The loop visits every thread below the path once. -/
def applyLegacyFreezerState (s : State) (path : CgroupPath) (frozen : Bool) (current : Option CgroupThreadId) :
    Except SyscallError (State × Bool) :=
  if s.mount.kind ≠ .legacyFreezer then .error .eopnotsupp
  else
    match s.mount.nodes path with
    | none => .error .enoent
    | some node =>
      let node := { node with freezerState := if frozen then .frozen else .thawed }
      let threads := s.mount.subtreeMemberThreads path
      let set (t : CgroupThreadId) (c : Tcb) : Tcb × Bool := setThreadFreezerState c frozen (current = some t)
      .ok (⟨{ s.mount with nodes := fun p => if p = path then some node else s.mount.nodes p },
          fun t => if t ∈ threads then (s.tcb t).map fun c => (set t c).1 else s.tcb t⟩,
        threads.any fun t => (s.tcb t).any fun c => (set t c).2)

/-- The file `tasks` or `cgroup.procs` of a cgroup, as it was opened. -/
structure CgroupFile where
  relPath : CgroupPath
  openEuid : Nat
  openCgroupNsRoot : CgroupPath

/-- Why something in `oldPath` is not moved to the cgroup of the file. -/
def attachRefused (st : CgroupMountState) (file : CgroupFile) (oldPath : CgroupPath) : Option SyscallError :=
  if (st.nodes file.relPath).isNone then some .enoent
  else if !isDescendantOrSelf file.relPath file.openCgroupNsRoot then some .enoent
  -- without root rights nothing leaves its cgroup
  else if file.openEuid ≠ 0 ∧ oldPath ≠ file.relPath then some .eacces
  else if st.legacyFreezerPathFrozen oldPath || st.legacyFreezerPathFrozen file.relPath then some .ebusy
  else none

def writeTasks (s : State) (file : CgroupFile) (t : CgroupThreadId) : Except SyscallError State :=
  match attachRefused s.mount file (s.mount.pathForThread t) with
  | some e => .error e
  | none => .ok { s with mount := s.mount.attachThread t file.relPath }

def writeProcs (s : State) (file : CgroupFile) (pid : Nat) (live : List CgroupThreadId) :
    Except SyscallError State :=
  match attachRefused s.mount file (s.mount.pathForPid pid) with
  | some e => .error e
  | none => .ok { s with mount := s.mount.attachProcess pid file.relPath live }

/-- What happens in a run. `status` is a thread that runs or blocks on its own. -/
inductive Op
  | write (path : CgroupPath) (frozen : Bool) (current : Option CgroupThreadId)
  | tasks (file : CgroupFile) (t : CgroupThreadId)
  | procs (file : CgroupFile) (pid : Nat) (live : List CgroupThreadId)
  | wake (t : CgroupThreadId)
  | status (t : CgroupThreadId) (status : Sched.TaskStatus)

/-- A call that fails changes nothing. -/
def State.exec (s : State) : Op → State
  | .write path frozen current =>
    match applyLegacyFreezerState s path frozen current with
    | .ok (s', _) => s'
    | .error _ => s
  | .tasks file t => (writeTasks s file t).toOption.getD s
  | .procs file pid live => (writeProcs s file pid live).toOption.getD s
  | .wake t => { s with tcb := fun u => if u = t then (s.tcb t).map wakeupTask else s.tcb u }
  | .status t status =>
    { s with tcb := fun u => if u = t then (s.tcb t).map ({ · with status := status }) else s.tcb u }

/-- No thread below is blocked when `FROZEN` is written; no thread below is under another frozen
cgroup when `THAWED` is; no thread of a process that is moved is in a frozen cgroup; and a frozen
thread neither runs nor blocks on its own. -/
def Op.Careful (s : State) : Op → Prop
  | .write path true _ => ∀ t ∈ s.mount.subtreeMemberThreads path, ∀ c, s.tcb t = some c → c.status ≠ .blocked
  | .write path false _ => ∀ t p, s.mount.threadAssignments.get? t = some p → path <+: p →
      ∀ a ∈ ancestorPaths p, a ≠ path → s.mount.frozenAt a = false
  | .procs file pid live => attachRefused s.mount file (s.mount.pathForPid pid) = none →
      ∀ t ∈ live, s.mount.underFrozen t = false
  | .status t _ => ∀ c, s.tcb t = some c → c.cgroupFrozen = false
  | _ => True

/-! ### What is frozen -/

section Frozen

variable {st : CgroupMountState} {t u : CgroupThreadId} {path p : CgroupPath}

theorem mem_subtreeMemberThreads :
    t ∈ st.subtreeMemberThreads path ↔ ∃ p, st.threadAssignments.get? t = some p ∧ path <+: p := by
  simp [subtreeMemberThreads, isDescendantOrSelf, get?_eq_some_iff]

theorem legacyFreezerPathFrozen_iff : st.legacyFreezerPathFrozen path = true ↔
    st.kind = .legacyFreezer ∧ ∃ a, a <+: path ∧ st.frozenAt a = true := by
  simp [legacyFreezerPathFrozen, ancestorPaths]

/-- Moving a thread does not change what is frozen. -/
theorem frozenAt_setThreadAssignment : (st.setThreadAssignment t path).frozenAt p = st.frozenAt p := by
  -- the counts are in the nodes, so every node on the way up is written
  have hadjust : ∀ (st : CgroupMountState) q add,
    (st.adjustSubtreeThreadCount q add).frozenAt p = st.frozenAt p := by
    intro st _ _
    simp only [frozenAt, adjustSubtreeThreadCount]
    split
    · rw [any_map]
    · rfl
  unfold setThreadAssignment
  dsimp only
  split
  · rfl
  rw [hadjust]
  cases st.threadAssignments.get? t with
  | none => rfl
  | some old => exact hadjust _ old false

theorem setThreadAssignment_kind : (st.setThreadAssignment t path).kind = st.kind := by
  unfold setThreadAssignment
  dsimp only
  split
  · rfl
  · cases st.threadAssignments.get? t <;> rfl

theorem setThreadAssignment_get? : (st.setThreadAssignment t path).threadAssignments.get? u =
    if u = t then some path else st.threadAssignments.get? u := by
  rw [← get?_insert]
  unfold setThreadAssignment
  dsimp only
  split
  · rfl
  · cases st.threadAssignments.get? t <;> rfl

theorem pathFrozen_setThreadAssignment :
    (st.setThreadAssignment t path).legacyFreezerPathFrozen = st.legacyFreezerPathFrozen := by
  funext p
  rw [Bool.eq_iff_iff, legacyFreezerPathFrozen_iff, legacyFreezerPathFrozen_iff, setThreadAssignment_kind]
  simp only [frozenAt_setThreadAssignment]

/-- **A thread that moves** from a cgroup that is not frozen to another. -/
theorem underFrozen_setThreadAssignment (ht : st.underFrozen t = false)
    (hpath : st.legacyFreezerPathFrozen path = false) :
    (st.setThreadAssignment t path).underFrozen u = st.underFrozen u := by
  unfold underFrozen
  rw [setThreadAssignment_get?, pathFrozen_setThreadAssignment]
  split
  · next heq =>
    rw [heq]
    exact hpath.trans ht.symm
  · rfl

theorem underFrozen_attachProcess {pid : Nat} {live : List CgroupThreadId}
    (hlive : ∀ t ∈ live, st.underFrozen t = false) (hpath : st.legacyFreezerPathFrozen path = false) :
    (st.attachProcess pid path live).underFrozen u = st.underFrozen u := by
  -- the threads move one after the other; those still to come are not below a frozen cgroup either
  have hfold : ∀ (live : List CgroupThreadId) (st : CgroupMountState), (∀ t ∈ live, st.underFrozen t = false) →
      st.legacyFreezerPathFrozen path = false →
      (live.foldl (fun st t => st.setThreadAssignment t path) st).underFrozen u = st.underFrozen u := by
    intro live
    induction live with
    | nil => exact fun _ _ _ => rfl
    | cons t _ ih =>
      intro st hlive hpath
      have hsame v := @underFrozen_setThreadAssignment _ t v path (hlive t (.head _)) hpath
      rw [List.foldl_cons, ih _ (fun v hv => (hsame v).trans (hlive v (.tail _ hv)))
        ((congrFun pathFrozen_setThreadAssignment path).trans hpath)]
      exact hsame u
  exact hfold live { st with processAssignments := _ } hlive hpath

theorem attachRefused_eq_none {file : CgroupFile} {oldPath : CgroupPath}
    (h : attachRefused st file oldPath = none) :
    st.legacyFreezerPathFrozen oldPath = false ∧ st.legacyFreezerPathFrozen file.relPath = false := by
  unfold attachRefused at h
  iterate 3
    split at h
    · cases h
  split at h
  · cases h
  · next hno => exact Bool.or_eq_false_iff.mp (Bool.not_eq_true _ ▸ hno)

end Frozen

/-! ### The marks -/

/-- **The invariant**: the frozen threads are those below a frozen cgroup, and they are blocked. -/
structure MarksRight (s : State) : Prop where
  mark : ∀ t c, s.tcb t = some c → c.cgroupFrozen = s.mount.underFrozen t
  blocked : ∀ t c, s.tcb t = some c → c.cgroupFrozen = true → c.status = .blocked

variable {s : State} {t : CgroupThreadId} {c : Tcb} {path : CgroupPath} {frozen : Bool}
  {current : Option CgroupThreadId}

theorem wakeupTask_cgroupFrozen : (wakeupTask c).cgroupFrozen = c.cgroupFrozen := by
  unfold wakeupTask
  split
  · rfl
  unfold wakeIfBlocked
  split
  · rfl
  · split
    · split <;> rfl
    · rfl

/-- A frozen thread stays blocked. -/
theorem wakeupTask_status (hfrozen : c.cgroupFrozen = true) : (wakeupTask c).status = c.status := by
  unfold wakeupTask
  split
  · rfl
  unfold wakeIfBlocked
  split
  · rfl
  · split <;> rfl

theorem frozen_of_not_blocked (hc : c.status ≠ .blocked) {isCurrent : Bool} :
    (setThreadFreezerState c true isCurrent).1.cgroupFrozen = true ∧
      (setThreadFreezerState c true isCurrent).1.status = .blocked := by
  simp [setThreadFreezerState, hc]

/-- What a write does, if it does anything. -/
theorem exec_write : s.exec (.write path frozen current) = s ∨
      s.mount.kind = .legacyFreezer ∧ ∃ node, node.freezerState = (if frozen then .frozen else .thawed) ∧
        s.exec (.write path frozen current) =
          ⟨{ s.mount with nodes := fun p => if p = path then some node else s.mount.nodes p },
            fun t => if t ∈ s.mount.subtreeMemberThreads path then
              (s.tcb t).map fun c => (setThreadFreezerState c frozen (current = some t)).1 else s.tcb t⟩ := by
  simp only [State.exec, applyLegacyFreezerState]
  by_cases hkind : s.mount.kind = .legacyFreezer
  swap
  · rw [if_pos hkind]
    exact .inl rfl
  rw [if_neg (not_not.mpr hkind)]
  cases s.mount.nodes path with
  | none => exact .inl rfl
  | some node => exact .inr ⟨hkind, { node with freezerState := _ }, rfl, rfl⟩

theorem underFrozen_write {node : CgroupNode} (hkind : s.mount.kind = .legacyFreezer) :
    underFrozen { s.mount with nodes := fun p => if p = path then some node else s.mount.nodes p } t = true ↔
      ∃ p, s.mount.threadAssignments.get? t = some p ∧ ∃ a, a <+: p ∧
        (a = path ∧ node.freezerState = .frozen ∨ a ≠ path ∧ s.mount.frozenAt a = true) := by
  simp only [underFrozen, any_eq_true, legacyFreezerPathFrozen_iff, hkind, true_and]
  refine exists_congr fun p => and_congr_right fun _ => exists_congr fun a => and_congr_right fun _ => ?_
  by_cases ha : a = path <;> simp [frozenAt, ha]

theorem MarksRight.write (h : MarksRight s)
    (hcare : Op.Careful s (.write path frozen current)) :
    MarksRight (s.exec (.write path frozen current)) := by
  rcases @exec_write s path frozen current with heq | ⟨hkind, node, hnode, heq⟩
  · rwa [heq]
  rw [heq]
  -- outside of the subtree nothing changes
  have hother t (ht : t ∉ s.mount.subtreeMemberThreads path) :
      underFrozen { s.mount with nodes := fun p => if p = path then some node else s.mount.nodes p } t =
      s.mount.underFrozen t := by
    rw [Bool.eq_iff_iff, underFrozen_write hkind]
    simp only [underFrozen, any_eq_true, legacyFreezerPathFrozen_iff, hkind, true_and]
    refine exists_congr fun p => and_congr_right fun hp => exists_congr fun a => and_congr_right fun ha => ?_
    have hne : a ≠ path := fun heq => ht (mem_subtreeMemberThreads.mpr ⟨p, hp, heq ▸ ha⟩)
    simp [hne]
  -- inside, every thread gets the mark, or loses it
  have hin : ∀ t c', t ∈ s.mount.subtreeMemberThreads path →
      ((s.tcb t).map fun c => (setThreadFreezerState c frozen (current = some t)).1) = some c' →
      c'.cgroupFrozen = frozen ∧ (frozen = true → c'.status = .blocked) := by
    intro t _ ht hmap
    obtain ⟨c, hc, rfl⟩ := map_eq_some_iff.mp hmap
    cases frozen with
    | true => exact (frozen_of_not_blocked (hcare t ht c hc)).imp id fun hb _ => hb
    | false =>
      refine ⟨?_, (by intros; contradiction)⟩
      simp only [setThreadFreezerState, Bool.false_eq_true, false_and, if_false]
      split
      · exact wakeupTask_cgroupFrozen
      · rfl
  constructor
  · intro t c hc
    dsimp only at hc
    split at hc
    · next ht =>
      rw [(hin t c ht hc).1, Bool.eq_iff_iff, underFrozen_write hkind]
      obtain ⟨p, hp, hprefix⟩ := mem_subtreeMemberThreads.mp ht
      cases frozen with
      | true => exact iff_of_true rfl ⟨p, hp, path, hprefix, .inl ⟨rfl, hnode⟩⟩
      | false =>
      -- no other cgroup above the thread is frozen: this is the care that thawing takes
      refine iff_of_false Bool.false_ne_true ?_
      rintro ⟨p', hp', a, ha, ⟨-, hfrozen⟩ | ⟨hne, hfrozen⟩⟩
      · rw [hnode] at hfrozen
        cases hfrozen
      · cases hp.symm.trans hp'
        rw [hcare t p hp hprefix a ((List.mem_inits a p).mpr ha) hne] at hfrozen
        cases hfrozen
    · next ht => exact (h.mark t c hc).trans (hother t ht).symm
  · intro t c hc hfrozen
    dsimp only at hc
    split at hc
    · next ht =>
      obtain ⟨hmark, hblocked⟩ := hin t c ht hc
      exact hblocked (hmark ▸ hfrozen)
    · exact h.blocked t c hc hfrozen

/-- A step that changes one thread and not its mark. -/
theorem MarksRight.setTcb {f : Tcb → Tcb} (h : MarksRight s) (hmark : ∀ c, (f c).cgroupFrozen = c.cgroupFrozen)
    (hblocked : ∀ c, s.tcb t = some c → c.cgroupFrozen = true → (f c).status = c.status) :
    MarksRight { s with tcb := fun u => if u = t then (s.tcb t).map f else s.tcb u } := by
  constructor
  · intro u c hc
    dsimp only at hc
    split at hc
    · next heq =>
      obtain ⟨c₀, hc₀, rfl⟩ := map_eq_some_iff.mp hc
      rw [hmark, heq]
      exact h.mark t c₀ hc₀
    · exact h.mark u c hc
  · intro u c hc hfrozen
    dsimp only at hc
    split at hc
    · obtain ⟨c₀, hc₀, rfl⟩ := map_eq_some_iff.mp hc
      rw [hmark] at hfrozen
      exact (hblocked c₀ hc₀ hfrozen).trans (h.blocked t c₀ hc₀ hfrozen)
    · exact h.blocked u c hc hfrozen

theorem MarksRight.exec (h : MarksRight s) {op : Op} (hcare : op.Careful s) : MarksRight (s.exec op) := by
  cases op with
  | write => exact h.write hcare
  | tasks file t =>
    simp only [State.exec, writeTasks]
    cases hrefused : attachRefused s.mount file (s.mount.pathForThread t) with
    | some => exact h
    | none =>
    -- the old cgroup is the one of the thread, or the root if it has none
    obtain ⟨hold, hnew⟩ := attachRefused_eq_none hrefused
    have ht : s.mount.underFrozen t = false := by
      unfold underFrozen
      unfold pathForThread at hold
      cases hget : s.mount.threadAssignments.get? t with
      | none => rfl
      | some => rwa [hget] at hold
    exact ⟨fun u c hc => (h.mark u c hc).trans (underFrozen_setThreadAssignment ht hnew).symm, h.blocked⟩
  | procs file pid live =>
    simp only [State.exec, writeProcs]
    cases hrefused : attachRefused s.mount file (s.mount.pathForPid pid) with
    | some => exact h
    | none =>
      -- only the cgroup of the process has been looked at; the threads are covered by the care
      have hnew := (attachRefused_eq_none hrefused).2
      exact ⟨fun u c hc => (h.mark u c hc).trans
        (underFrozen_attachProcess (hcare hrefused) hnew).symm, h.blocked⟩
  | wake => exact h.setTcb (fun _ => wakeupTask_cgroupFrozen) fun _ _ => wakeupTask_status
  | status =>
    refine h.setTcb (fun _ => rfl) fun c hc hfrozen => ?_
    rw [hcare c hc] at hfrozen
    cases hfrozen

/-! ### Runs -/

/-- Nothing is frozen. -/
def Thawed (s : State) : Prop :=
  (∀ path, s.mount.frozenAt path = false) ∧ ∀ t c, s.tcb t = some c → c.cgroupFrozen = false

def Step (s s' : State) : Prop := ∃ op, s.exec op = s'

def CarefulStep (s s' : State) : Prop := ∃ op, s.exec op = s' ∧ op.Careful s

theorem Thawed.marksRight (h : Thawed s) : MarksRight s := by
  refine ⟨fun t c hc => (h.2 t c hc).trans ?_,
    fun t c hc hfrozen => by rw [h.2 t c hc] at hfrozen; cases hfrozen⟩
  refine (eq_false_of_ne_true fun hunder => ?_).symm
  rw [underFrozen, any_eq_true] at hunder
  obtain ⟨p, -, hp⟩ := hunder
  obtain ⟨-, a, -, ha⟩ := legacyFreezerPathFrozen_iff.mp hp
  rw [h.1 a] at ha
  cases ha

/-- **The freezer** in careful runs. The frozen threads are those below a frozen cgroup; a write of
`FROZEN` thaws and wakes nothing; a write of `THAWED` changes nothing for a thread that is still
below a frozen cgroup; and a frozen thread is blocked, and stays so when it is woken. -/
theorem freezer_of_careful_run {s : State} (h : Reachable Thawed CarefulStep s) :
    (∀ t path c, s.mount.threadAssignments.get? t = some path → s.tcb t = some c →
        (c.cgroupFrozen = true ↔ s.mount.legacyFreezerPathFrozen path = true)) ∧
      (∀ path current, Op.Careful s (.write path true current) → ∀ t c, s.tcb t = some c →
        ∃ c', (s.exec (.write path true current)).tcb t = some c' ∧
          (c.cgroupFrozen = true → c'.cgroupFrozen = true) ∧ (c.status = .blocked → c'.status = .blocked)) ∧
      (∀ path current, Op.Careful s (.write path false current) → ∀ t,
        (s.exec (.write path false current)).mount.underFrozen t = true →
          (s.exec (.write path false current)).tcb t = s.tcb t) ∧
      ∀ t c, s.tcb t = some c → c.cgroupFrozen = true →
        (wakeupTask c).status = .blocked ∧ (wakeupTask c).cgroupFrozen = true := by
  have hI : MarksRight s := Reachable.invariant (fun _ h0 => h0.marksRight)
    (fun _ _ hI ⟨_, heq, hcare⟩ => heq ▸ hI.exec hcare) h
  refine ⟨fun t path c hpath hc => ?_, fun path current hcare t c hc => ?_, fun path current hcare t ht => ?_,
    fun t c hc hfrozen => ?_⟩
  · rw [hI.mark t c hc, underFrozen, hpath]
    rfl
  · rcases @exec_write s path true current with heq | ⟨-, node, -, heq⟩
    · exact ⟨c, by rw [heq]; exact hc, id, id⟩
    rw [heq]
    dsimp only
    split
    · -- no thread below was blocked, so all of them are frozen now
      next ht =>
      obtain ⟨hmark, hblocked⟩ := frozen_of_not_blocked (hcare t ht c hc)
      exact ⟨_, by rw [hc]; rfl, fun _ => hmark, fun _ => hblocked⟩
    · exact ⟨c, hc, id, id⟩
  · rcases @exec_write s path false current with heq | ⟨hkind, node, hnode, heq⟩
    · rw [heq]
    rw [heq] at ht ⊢
    obtain ⟨p, hp, a, ha, ⟨-, hfrozen⟩ | ⟨hne, hfrozen⟩⟩ := (underFrozen_write hkind).mp ht
    · -- the cgroup that was written is thawed
      rw [hnode] at hfrozen
      cases hfrozen
    -- the thread is not below the path
    refine if_neg fun hmem => ?_
    obtain ⟨_, hp', hprefix⟩ := mem_subtreeMemberThreads.mp hmem
    cases hp.symm.trans hp'
    rw [hcare t p hp hprefix a ((List.mem_inits a p).mpr ha) hne] at hfrozen
    cases hfrozen
  · exact ⟨(wakeupTask_status hfrozen).trans (hI.blocked t c hc hfrozen),
      wakeupTask_cgroupFrozen.trans hfrozen⟩

/-- A hierarchy with one node, and one thread in it that runs. -/
def oneThread : State :=
  ⟨⟨.legacyFreezer, fun p => if p = [] then some {} else none, fun _ => none, empty.insert (toLex (1, 0)) []⟩,
    fun t => if t = toLex (1, 0) then some ⟨.running, true, .off, none, false, false, false, false⟩ else none⟩

theorem oneThread_thawed : Thawed oneThread := by
  constructor
  · intro _
    simp only [frozenAt, oneThread]
    split <;> rfl
  intro t c hc
  dsimp only [oneThread] at hc
  split at hc
  · cases hc
    rfl
  · cases hc

theorem freezer_of_careful_run_frozen : ∃ s c, Reachable Thawed CarefulStep s ∧
    s.tcb (toLex (1, 0)) = some c ∧ c.cgroupFrozen = true ∧ (wakeupTask c).status = .blocked := by
  have h0 : Reachable Thawed CarefulStep oneThread := .start oneThread_thawed
  have h1 := h0.step ⟨.write [] true none, rfl, by
    intro t _ c hc
    dsimp only [oneThread] at hc
    split at hc
    · cases hc
      decide
    · cases hc⟩
  exact ⟨_, _, h1, rfl, rfl, ((freezer_of_careful_run h1).2.2.2 (toLex (1, 0)) _ rfl rfl).1⟩

/-- **`FROZEN` twice.** The first write freezes the thread; the second one finds it blocked, takes
the mark away and wakes it, although its cgroup is frozen. -/
theorem frozen_twice_wakes : ∃ s c, Reachable Thawed Step s ∧ s.mount.legacyFreezerPathFrozen [] = true ∧
    s.mount.threadAssignments.get? (toLex (1, 0)) = some [] ∧ s.tcb (toLex (1, 0)) = some c ∧
      c.cgroupFrozen = false ∧ c.status = .ready := by
  have h0 : Reachable Thawed Step oneThread := .start oneThread_thawed
  have h1 := h0.step ⟨.write [] true none, rfl⟩
  have h2 := h1.step ⟨.write [] true none, rfl⟩
  exact ⟨_, _, h2, rfl, rfl, rfl, rfl, rfl⟩

end Freezer

end HitOS.Cgroup
