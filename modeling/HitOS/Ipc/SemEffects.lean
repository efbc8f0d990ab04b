import HitOS.Ipc.SemOps

/-!
# What the other semaphore calls do

One lemma for each call says everything it can do: `semget_cases`, `semctl_cases` and
`applyUndo_cases`, with `doSemopOps_cases` for a round of `semop`. The invariants of
`HitOS.Ipc.SemHistory` and `HitOS.Ipc.SemWakeups` are derived from these; the first one, that the
values stay in range, is here.
-/

namespace HitOS.Ipc

open List SemState

variable {st : SemState} {ns semid semnum pid : Nat} {cred : Cred} {now : Int} {set : SemSet} {sem : SemEntry}
  {cmd : SemCmd} {entry : SemUndoEntry} {eff : SemEffect (Except SyscallError Nat)}

/-! ### `semget` -/

/-- `semget` finds or refuses, or creates a set under an identifier that is not in use. -/
inductive SemgetCase (st : SemState) (ns : Nat) : SemEffect (Except SyscallError Nat) → Prop
  | unchanged (ret : Except SyscallError Nat) (hret : ∀ id, ret = .ok id → st.set? ns id ≠ none) :
      SemgetCase st ns (st.returns ret)
  | created {id : Nat} {set : SemSet} {mgr : SemManager} (hfree : st.set? ns id = none)
      (hsets : mgr.sets = (st.managers ns).sets.insert id set)
      (hnew : ∃ nsems, set.sems = List.replicate nsems .new) :
      SemgetCase st ns ⟨st.putManager ns mgr, [], [], .ok id⟩

theorem semget_cases {limits : SemLimits} {key : BitVec 64} {nsems : Nat} {flags : SemgetFlags} :
    SemgetCase st ns (semget st limits ns cred key nsems flags now) := by
  have hfail e : SemgetCase st ns (st.returns (.error e)) := .unchanged _ nofun
  unfold semget
  dsimp only
  split
  · -- the key has a set
    split
    · exact hfail _
    split
    · exact hfail _
    next _ hset =>
    split
    · exact hfail _
    split
    · exact hfail _
    refine .unchanged _ fun id' h => ?_
    cases h
    rw [set?, hset]
    exact Option.some_ne_none _
  · iterate 3
      split
      · exact hfail _
    next _ =>
    split
    · exact hfail _
    -- fewer sets than there are identifiers, so that one is free
    have hlimit := (limits.bounded limits.semmni (by simp)).2
    have hfree : (st.managers ns).sets.get? (st.managers ns).allocId.2 = none :=
      nextFree_unused _ _ (by unfold usizeMax; omega)
    exact .created hfree rfl ⟨nsems, rfl⟩

/-! ### `semctl` -/

/-- A command fails, reads or sets what no invariant below is about, removes the set, sets values,
or takes tasks that are gone off a queue. -/
inductive SemctlCase (st : SemState) (alive : TaskId → Bool) (ns semid semnum : Nat) :
    SemCmd → SemEffect (Except SyscallError Nat) → Prop
  | failed (cmd : SemCmd) (e : SyscallError) : SemctlCase st alive ns semid semnum cmd (st.returns (.error e))
  | removed {mgr : SemManager} {set : SemSet} (hset : st.set? ns semid = some set)
      (hsets : mgr.sets = (st.managers ns).sets.erase semid) :
      SemctlCase st alive ns semid semnum .ipcRmid
        ⟨{ st.putManager ns mgr with undos := clearUndoForSet st.undos ns semid },
          [], set.sems.flatMap fun sem => sem.ncntWaiters ++ sem.zcntWaiters, .ok 0⟩
  | chowned {ds : Option (Nat × Nat × Nat)} {set set' : SemSet} (hset : st.set? ns semid = some set)
      (hsems : set'.sems = set.sems) :
      SemctlCase st alive ns semid semnum (.ipcSet ds) ⟨st.putSet ns semid set', [], [], .ok 0⟩
  | allSet {vals : Nat → BitVec 16} {set : SemSet} {pid : Nat} {now : Int}
      (hset : st.set? ns semid = some set)
      (hvals : ∀ i < set.sems.length, ((vals i).toNat : Int) ≤ semvmx) :
      SemctlCase st alive ns semid semnum (.setAll (some vals))
        ⟨{ st.putSet ns semid (set.setAll vals pid now).1 with
            undos := clearUndoForSet st.undos ns semid }, (set.setAll vals pid now).2, [], .ok 0⟩
  | oneSet {arg : BitVec 64} {set : SemSet} {sem : SemEntry} {val : Int} {pid : Nat} {now : Int}
      (hset : st.set? ns semid = some set) (hsem : set.sems[semnum]? = some sem)
      (hval : 0 ≤ val ∧ val ≤ semvmx) :
      SemctlCase st alive ns semid semnum (.setVal arg) ⟨{ st.putSet ns semid
              { set.putSem semnum (wakeSemWaiters { sem with val := val, lastPid := pid }).1 with
                otime := now } with
            undos := clearUndoForSem st.undos ns semid semnum },
          (wakeSemWaiters { sem with val := val, lastPid := pid }).2, [], .ok 0⟩
  | counted {cmd : SemCmd} {set : SemSet} {sem sem' : SemEntry} {n : Nat}
      (hcmd : cmd = .getNcnt ∨ cmd = .getZcnt)
      (hset : st.set? ns semid = some set) (hsem : set.sems[semnum]? = some sem)
      (hval : sem'.val = sem.val ∧ sem'.lastPid = sem.lastPid)
      (hwaiters : ∀ t, alive t = true → (t ∈ sem.ncntWaiters → t ∈ sem'.ncntWaiters) ∧
        (t ∈ sem.zcntWaiters → t ∈ sem'.zcntWaiters)) :
      SemctlCase st alive ns semid semnum cmd ⟨st.putSet ns semid (set.putSem semnum sem'), [], [], .ok n⟩

theorem semctl_cases {alive blocked : TaskId → Bool} :
    SemctlCase st alive ns semid semnum cmd (semctl st alive blocked ns cred semid semnum cmd now) := by
  unfold semctl
  cases hset : st.set? ns semid with
  | none => exact .failed ..
  | some set =>
  cases cmd with
  | ipcRmid =>
    dsimp only
    split
    · exact .failed ..
    · unfold SemManager.removeSet
      rw [show (st.managers ns).sets.get? semid = some set from hset]
      exact .removed hset rfl
  | ipcSet =>
    dsimp only
    iterate 2
      split
      · exact .failed ..
    · exact .chowned hset rfl
  | setAll vals =>
    dsimp only
    iterate 3
      split
      · exact .failed ..
    next hvals =>
    -- all values are checked before the first is set
    refine .allSet hset fun i hi => ?_
    by_contra hgt
    refine hvals (any_eq_true.mpr ⟨i, mem_range.mpr hi, decide_eq_true ?_⟩)
    exact not_le.mp hgt
  | setVal =>
    dsimp only
    iterate 3
      split
      · exact .failed ..
    next sem hsem hrange =>
    push Not at hrange
    exact .oneSet hset hsem hrange
  | getNcnt =>
    dsimp only
    iterate 2
      split
      · exact .failed ..
    next sem hsem =>
    exact .counted (.inl rfl) hset hsem ⟨rfl, rfl⟩ fun t ht => ⟨fun h => mem_filter.mpr ⟨h, ht⟩, id⟩
  | getZcnt =>
    dsimp only
    iterate 2
      split
      · exact .failed ..
    next _ hsem =>
    exact .counted (.inr rfl) hset hsem ⟨rfl, rfl⟩ fun t ht => ⟨id, fun h => mem_filter.mpr ⟨h, ht⟩⟩

/-! ### `exit_cleanup` -/

/-- An adjustment is applied to a semaphore that exists, or has no effect. -/
inductive ApplyUndoCase (pid : Nat) (acc : SemState × List TaskId) (entry : SemUndoEntry) :
    SemState × List TaskId → Prop
  | skipped (hskip : ∀ set, acc.1.set? entry.ipcNsId entry.semid = some set →
      ∀ sem, set.sems[entry.semnum]? = some sem →
      max 0 (min (satAdd32 sem.val entry.adj) semvmx) = sem.val) :
      ApplyUndoCase pid acc entry acc
  | adjusted {set : SemSet} {sem sem' : SemEntry} {now : Int}
      (hset : acc.1.set? entry.ipcNsId entry.semid = some set)
      (hsem : set.sems[entry.semnum]? = some sem)
      (hsem' : sem' = { sem with
        val := max 0 (min (satAdd32 sem.val entry.adj) semvmx), lastPid := pid }) :
      ApplyUndoCase pid acc entry (acc.1.putSet entry.ipcNsId entry.semid
            { set.putSem entry.semnum (wakeSemWaiters sem').1 with otime := now },
          acc.2 ++ (wakeSemWaiters sem').2)

theorem applyUndo_cases {acc : SemState × List TaskId} :
    ApplyUndoCase pid acc entry (applyUndo pid now acc entry) := by
  unfold applyUndo
  split
  · next h => exact .skipped fun _ hset => by rw [h] at hset; cases hset
  next _ hset =>
  split
  · next h =>
    refine .skipped fun set' hset' sem hsem => ?_
    obtain rfl := Option.some.inj (hset.symm.trans hset')
    rw [h] at hsem
    cases hsem
  next _ hsem =>
  dsimp only
  split
  · -- the adjusted value, cut to the range, is the old one
    next heq =>
    refine .skipped fun set' hset' sem' hsem' => ?_
    obtain rfl := Option.some.inj (hset.symm.trans hset')
    obtain rfl := Option.some.inj (hsem.symm.trans hsem')
    exact heq
  · exact .adjusted hset hsem rfl

/-! ### Sets that come and go -/

section Sets

variable {mgr : SemManager} {id : Nat} {set' : SemSet}

theorem SemState.set?_created (hsets : mgr.sets = (st.managers ns).sets.insert id set)
    (ns' semid' : Nat) : (st.putManager ns mgr).set? ns' semid' =
      if ns' = ns ∧ semid' = id then some set else st.set? ns' semid' := by
  rw [← set?_putSet, putSet, set?_putManager, set?_putManager, hsets]

theorem SemState.set?_removed (hsets : mgr.sets = (st.managers ns).sets.erase semid)
    (ns' semid' : Nat) : (st.putManager ns mgr).set? ns' semid' =
      if ns' = ns ∧ semid' = semid then none else st.set? ns' semid' := by
  rw [set?_putManager, hsets, OrdMap.get?_erase]
  by_cases hns : ns' = ns
  · subst hns
    by_cases hid : semid' = semid
    · simp [hid]
    · simp [set?]
  · rw [if_neg hns, if_neg fun hc => hns hc.1]

end Sets

/-! ### The range of values -/

namespace SemState.ValuesOk

variable (h : st.ValuesOk)

include h

theorem putSet (hset : ∀ sem ∈ set.sems, 0 ≤ sem.val ∧ sem.val ≤ semvmx) :
    (st.putSet ns semid set).ValuesOk := by
  intro ns' semid' s hs
  rw [set?_putSet] at hs
  split at hs
  · cases hs
    exact hset
  · exact h ns' semid' s hs

/-- One semaphore of a set is given another value. -/
theorem putSem (hset : st.set? ns semid = some set) {n : Nat} (hsem : 0 ≤ sem.val ∧ sem.val ≤ semvmx) :
    ∀ s ∈ (set.putSem n sem).sems, 0 ≤ s.val ∧ s.val ≤ semvmx := by
  intro s hs
  rcases mem_or_eq_of_mem_set hs with hmem | rfl
  · exact h ns semid set hset s hmem
  · exact hsem

theorem commit {ops : List SemBuf} {acc : SemAcc} (hset : st.set? ns semid = some set)
    (hops : ∀ op ∈ ops, op.num < set.sems.length) (htrial : tryOps ops (.start set.sems) = .complete acc) :
    ∀ sem ∈ (set.commit acc pid now).1.sems, 0 ≤ sem.val ∧ sem.val ≤ semvmx := by
  obtain ⟨-, -, hacc, -⟩ := tryOps_complete SemAcc.start_sized (h.value hset) hops htrial
  intro _ hsem
  simp only [SemSet.commit, mem_map, mem_mapIdx] at hsem
  obtain ⟨_, ⟨i, hi, rfl⟩, rfl⟩ := hsem
  rw [commitSem_fst.1]
  split
  · exact hacc i
  · exact h ns semid set hset _ (getElem_mem hi)

theorem semget (hcase : SemgetCase st ns eff) : eff.st.ValuesOk := by
  cases hcase with
  | unchanged => exact h
  | created _ hsets hnew =>
  -- a new set holds zeros
  obtain ⟨n, hnew⟩ := hnew
  intro ns' semid' s hs
  rw [set?_created hsets] at hs
  split at hs
  · cases hs
    rw [hnew]
    intro _ hsem
    rw [eq_of_mem_replicate hsem]
    decide
  · exact h ns' semid' s hs

theorem semctl {alive : TaskId → Bool} (hcase : SemctlCase st alive ns semid semnum cmd eff) :
    eff.st.ValuesOk := by
  cases hcase with
  | failed => exact h
  | removed _ hsets =>
    intro ns' semid' s hs
    have hs' := (set?_removed hsets ns' semid').symm.trans hs
    split at hs'
    · cases hs'
    · exact h ns' semid' s hs'
  | chowned hset hsems => exact h.putSet (hsems ▸ h ns semid _ hset)
  | allSet _ hvals =>
    refine h.putSet fun sem hsem => ?_
    simp only [SemSet.setAll, mem_map, mem_mapIdx] at hsem
    obtain ⟨_, ⟨i, hi, rfl⟩, rfl⟩ := hsem
    rw [wakeSemWaiters_fst.1]
    exact ⟨Int.natCast_nonneg _, hvals i hi⟩
  | oneSet hset _ hval =>
    refine h.putSet (h.putSem hset ?_)
    rwa [wakeSemWaiters_fst.1]
  | counted _ hset hsem hval =>
    refine h.putSet (h.putSem hset ?_)
    rw [hval.1]
    exact h ns semid _ hset _ (mem_of_getElem? hsem)

theorem semop {task : TaskId} {call : SemopCall} {env : SemopEnv} {eff : SemEffect SemopResult}
    (hcase : SemopCase st task call env eff) : eff.st.ValuesOk := by
  cases hcase with
  | failed => exact h
  | applied hset hops htrial => exact h.putSet (h.commit hset hops htrial)
  | @blocked set idx kind nowait sem hset hops htrial hsem =>
    refine h.putSet (h.putSem hset ?_)
    have hval : (enqueueSem kind task sem).val = sem.val := by cases kind <;> rfl
    rw [hval]
    exact h _ _ set hset sem (mem_of_getElem? hsem)

end SemState.ValuesOk

theorem SemState.ValuesOk.applyUndo {acc r : SemState × List TaskId}
    (h : acc.1.ValuesOk) (hcase : ApplyUndoCase pid acc entry r) : r.1.ValuesOk := by
  have hvmx : semvmx = 32767 := rfl
  cases hcase with
  | skipped => exact h
  | adjusted hset _ hsem' =>
    refine h.putSet (h.putSem hset ?_)
    rw [wakeSemWaiters_fst.1, hsem']
    dsimp only
    omega

end HitOS.Ipc
