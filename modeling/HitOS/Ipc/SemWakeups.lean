import HitOS.Ipc.SemEffects
import HitOS.Lib.Blocking

/-!
# Wakeups of semaphores

The rounds of `semop` and the other calls on semaphores, interleaved with the scheduler
(`Blocking.Step semSystem`).

* `SemEntry.Awaits` — what a task in a queue of a semaphore waits for. `Awaits.wake` is the heart of
  the matter: a change of the value either wakes the task or leaves it with something to wait for.
* `KeepsWaiter` — every call keeps this for the tasks that it does not wake.
* `sem_no_lost_wakeup` — a blocked task with no wakeup under way has a set, and an array that is not
  applicable to it.
* `lost_wakeup` — the exception: an array that lowers a semaphore and then waits for zero on it. It
  becomes applicable when the value falls to the sum it has taken itself, and `wake_sem_waiters`
  wakes the tasks that wait for zero only at zero.
-/

namespace HitOS.Ipc

open List Parking Blocking SemState Option

/-! ### The system -/

/-- The round ends with the task in a queue. -/
def SemopResult.parks : SemopResult → Bool
  | .returns _ => false
  | .blocks => true

/-- What a call leaves behind, for the scheduler. -/
def SemEffect.outcome {α : Type} (eff : SemEffect α) : Outcome SemState := ⟨eff.st, eff.woken, eff.later⟩

/-- The calls that do not block. -/
inductive SemOther (alive blocked : TaskId → Bool) (st : SemState) : Outcome SemState → Prop
  | semget (limits : SemLimits) (ns : Nat) (cred : Cred) (key : BitVec 64) (nsems : Nat)
      (flags : SemgetFlags) (now : Int) :
      SemOther alive blocked st (semget st limits ns cred key nsems flags now).outcome
  | semctl (ns : Nat) (cred : Cred) (semid semnum : Nat) (cmd : SemCmd) (now : Int) :
      SemOther alive blocked st (semctl st alive blocked ns cred semid semnum cmd now).outcome
  | exit (pid : Nat) (now : Int) : SemOther alive blocked st (exitCleanup st pid now).outcome

/-- `semop` is the call that blocks. -/
def semSystem : Blocking.System SemState SemopCall where
  start _ := True
  attempt phase st task call o n := ∃ env : SemopEnv, phase task = .trying call env.waited ∧
    o = (doSemopOps st task call env).outcome ∧
    n = if (doSemopOps st task call env).ret.parks then .park call else .finish
  act phase := SemOther (fun t => (phase t).alive) fun t => (phase t).isBlocked

/-- The states of the semaphores and their tasks that are reached from boot. -/
abbrev SemReachable : Parking.World SemState SemopCall → Prop :=
  Reachable (· = .boot SemState.boot) (Blocking.Step semSystem)

/-! ### What a task in a queue waits for -/

/-- The task is in a queue of the semaphore for the operation `op`, before which its array adds
`before` to the value. A task that waits for zero may have lowered the value itself: such an array
can become applicable without a wakeup. -/
def SemEntry.Awaits (sem : SemEntry) (task : TaskId) (op : SemBuf) (before : Int) : Prop :=
  (task ∈ sem.ncntWaiters ∧ op.BlocksAt .waitForIncrease (sem.val + before)) ∨
    (task ∈ sem.zcntWaiters ∧ op.delta = 0 ∧ (before < 0 ∨ sem.val + before ≠ 0))

section Entry

variable {sem sem' : SemEntry} {task : TaskId} {op : SemBuf} {before : Int}

variable (h : sem.Awaits task op before)

include h

theorem SemEntry.Awaits.mem : task ∈ sem.ncntWaiters ++ sem.zcntWaiters := by
  rw [mem_append]
  exact h.imp And.left And.left

/-- A change of the queues alone. -/
theorem SemEntry.Awaits.mono (hval : sem'.val = sem.val)
    (hncnt : task ∈ sem.ncntWaiters → task ∈ sem'.ncntWaiters)
    (hzcnt : task ∈ sem.zcntWaiters → task ∈ sem'.zcntWaiters) : sem'.Awaits task op before := by
  unfold Awaits
  rw [hval]
  exact h.imp (And.imp_left hncnt) (And.imp_left hzcnt)

theorem SemEntry.Awaits.enqueue {kind : SemBlockKind} {task' : TaskId} :
    (enqueueSem kind task' sem).Awaits task op before := by
  cases kind with
  | waitForZero => exact h.mono rfl id fun hm => mem_addWaiterOnce.mpr (.inl hm)
  | waitForIncrease => exact h.mono rfl (fun hm => mem_addWaiterOnce.mpr (.inl hm)) id

/-- **A change of the value** wakes the task, or leaves it waiting. -/
theorem SemEntry.Awaits.wake (hold : 0 ≤ sem.val) {val : Int} {pid : Nat} (hnew : 0 ≤ val)
    (hwoken : task ∉ (wakeSemWaiters { sem with val := val, lastPid := pid }).2) :
    (wakeSemWaiters { sem with val := val, lastPid := pid }).1.Awaits task op before := by
  unfold wakeSemWaiters at hwoken ⊢
  by_cases hzero : val = 0
  · -- at zero, a task that waits for more has even less than before
    rw [if_pos hzero] at hwoken ⊢
    rcases h with ⟨hmem, hneg, hlt⟩ | ⟨hmem, -⟩
    · refine .inl ⟨hmem, hneg, ?_⟩
      change val + before + op.delta < 0
      omega
    · exact absurd hmem hwoken
  · have hpos : 0 < val := by omega
    rw [if_neg hzero, if_pos hpos] at hwoken ⊢
    rcases h with ⟨hmem, -⟩ | ⟨hmem, hdelta, hne⟩
    · exact absurd hmem hwoken
    · refine .inr ⟨hmem, hdelta, ?_⟩
      change before < 0 ∨ val + before ≠ 0
      omega

end Entry

/-! ### What the calls do to a task in a queue -/

/-- The task has a semaphore of its set to wait at. -/
def Held (st : SemState) (task : TaskId) (call : SemopCall) : Prop :=
  ∃ (set : SemSet) (k : Nat) (op : SemBuf) (sem : SemEntry),
    st.set? call.ns call.semid = some set ∧ call.ops[k]? = some op ∧ set.sems[op.num]? = some sem ∧
      sem.Awaits task op (sumOn (call.ops.take k) op.num)

/-- Whatever the task awaits in `st` it awaits in `st'`. -/
def KeepsWaiter (st st' : SemState) (task : TaskId) : Prop :=
  ∀ (ns semid : Nat) (set : SemSet) (i : Nat) (sem : SemEntry) (op : SemBuf) (before : Int),
    st.set? ns semid = some set → set.sems[i]? = some sem → sem.Awaits task op before →
      ∃ set' sem', st'.set? ns semid = some set' ∧ set'.sems[i]? = some sem' ∧ sem'.Awaits task op before

section Calls

variable {st st' st'' : SemState} {task : TaskId} {call : SemopCall} {ns semid pid : Nat}
  {set set' : SemSet} {sem : SemEntry} {i : Nat} {ops : List SemBuf} {env : SemopEnv}
  {eff : SemEffect SemopResult}

theorem Held.keep (h : Held st task call) (hkeep : KeepsWaiter st st' task) : Held st' task call := by
  obtain ⟨set, k, op, sem, hset, hk, hsem, haw⟩ := h
  obtain ⟨set', sem', hset', hsem', haw'⟩ := hkeep _ _ set _ sem op _ hset hsem haw
  exact ⟨set', k, op, sem', hset', hk, hsem', haw'⟩

theorem KeepsWaiter.refl : KeepsWaiter st st task :=
  fun _ _ set _ sem _ _ hset hsem haw => ⟨set, sem, hset, hsem, haw⟩

theorem KeepsWaiter.trans (h : KeepsWaiter st st' task) (h' : KeepsWaiter st' st'' task) :
    KeepsWaiter st st'' task := by
  intro ns semid set i sem op before hset hsem haw
  obtain ⟨set', sem', hset', hsem', haw'⟩ := h ns semid set i sem op before hset hsem haw
  exact h' ns semid set' i sem' op before hset' hsem' haw'

/-- A set is replaced by one whose semaphores keep the task. -/
theorem KeepsWaiter.putSet (hset : st.set? ns semid = some set)
    (hsems : ∀ (i : Nat) (sem : SemEntry), set.sems[i]? = some sem → ∃ sem', set'.sems[i]? = some sem' ∧
        ∀ op before, sem.Awaits task op before → sem'.Awaits task op before) :
    KeepsWaiter st (st.putSet ns semid set') task := by
  intro ns' semid' s i sem op before hs hsem haw
  by_cases heq : ns' = ns ∧ semid' = semid
  · obtain ⟨rfl, rfl⟩ := heq
    obtain rfl := some.inj (hset.symm.trans hs)
    obtain ⟨sem', hsem', hkeep⟩ := hsems i sem hsem
    exact ⟨set', sem', set?_putSet_self, hsem', hkeep op before haw⟩
  · refine ⟨s, sem, ?_, hsem, haw⟩
    rw [set?_putSet, if_neg heq, hs]

/-- One semaphore of a set is replaced by one that keeps the task. -/
theorem KeepsWaiter.putSem (hset : st.set? ns semid = some set) {n : Nat} {sem' : SemEntry}
    (hsem : set.sems[n]? = some sem) (hset' : set'.sems = (set.putSem n sem').sems)
    (hkeep : ∀ op before, sem.Awaits task op before → sem'.Awaits task op before) :
    KeepsWaiter st (st.putSet ns semid set') task := by
  refine putSet hset fun i s hs => ?_
  rw [hset']
  change ∃ s', (set.sems.set n sem')[i]? = some s' ∧ _
  rw [getElem?_set]
  by_cases hi : n = i
  · subst hi
    obtain rfl := some.inj (hsem.symm.trans hs)
    rw [if_pos rfl, if_pos (List.getElem?_eq_some_iff.mp hsem).1]
    exact ⟨sem', rfl, hkeep⟩
  · rw [if_neg hi]
    exact ⟨s, hs, fun _ _ haw => haw⟩

theorem keepsWaiter_semget {eff : SemEffect (Except SyscallError Nat)} (hcase : SemgetCase st ns eff) :
    KeepsWaiter st eff.st task := by
  cases hcase with
  | unchanged => exact .refl
  | @created id new mgr hfree hsets hnew =>
    intro _ _ set _ sem _ _ hset hsem haw
    refine ⟨set, sem, ?_, hsem, haw⟩
    rw [set?_created hsets, if_neg, hset]
    rintro ⟨rfl, rfl⟩
    rw [hfree] at hset
    cases hset

/-- The results of a loop over the semaphores of a set: what one of them wakes is woken. -/
theorem not_mem_of_not_mem_flatMap {f : Nat → SemEntry → SemEntry × List TaskId}
    (hsem : set.sems[i]? = some sem)
    (h : task ∉ (set.sems.mapIdx f).flatMap Prod.snd) : task ∉ (f i sem).2 := by
  intro hmem
  refine h (mem_flatMap.mpr ⟨f i sem, ?_, hmem⟩)
  refine mem_of_getElem? (i := i) ?_
  rw [getElem?_mapIdx, hsem]
  rfl

theorem keepsWaiter_semctl (hok : st.ValuesOk) {alive : TaskId → Bool} {semnum : Nat} {cmd : SemCmd}
    {eff : SemEffect (Except SyscallError Nat)} (hcase : SemctlCase st alive ns semid semnum cmd eff)
    (halive : alive task = true) (hwoken : task ∉ eff.woken) (hlater : task ∉ eff.later) :
    KeepsWaiter st eff.st task := by
  cases hcase with
  | failed => exact .refl
  | @removed mgr set hset hsets =>
    intro ns' semid' s i sem op before hs hsem haw
    refine ⟨s, sem, ?_, hsem, haw⟩
    refine (set?_removed hsets ns' semid').trans ?_
    rw [if_neg, hs]
    -- the tasks at the set that is removed are all woken
    rintro ⟨rfl, rfl⟩
    obtain rfl := some.inj (hset.symm.trans hs)
    exact hlater (mem_flatMap.mpr ⟨sem, mem_of_getElem? hsem, haw.mem⟩)
  | chowned hset hsems =>
    refine KeepsWaiter.putSet hset fun _ sem _ => ⟨sem, ?_, fun _ _ haw => haw⟩
    rwa [hsems]
  | @allSet vals set pid now hset hvals =>
    refine KeepsWaiter.putSet hset fun i sem hsem => ?_
    refine ⟨(wakeSemWaiters { sem with val := (vals i).toNat, lastPid := pid }).1, ?_, fun op before haw => ?_⟩
    · simp [SemSet.setAll, hsem]
    · refine haw.wake (hok _ _ set hset sem (mem_of_getElem? hsem)).1 (Int.natCast_nonneg _) ?_
      exact not_mem_of_not_mem_flatMap hsem hwoken
  | @oneSet arg set sem val pid now hset hsem hval =>
    refine KeepsWaiter.putSem hset hsem rfl fun op before haw => ?_
    exact haw.wake (hok _ _ set hset sem (mem_of_getElem? hsem)).1 hval.1 hwoken
  | counted _ hset hsem hval hwaiters =>
    refine KeepsWaiter.putSem hset hsem rfl fun op before haw => ?_
    exact haw.mono hval.1 (hwaiters task halive).1 (hwaiters task halive).2

/-- A semaphore that is not touched keeps its value. -/
theorem sumOn_eq_zero_of_untouched
    (h : ops.any (fun op => op.num == i && op.delta != 0) = false) : sumOn ops i = 0 := by
  induction ops with
  | nil => rfl
  | cons _ _ ih =>
    rw [any_cons, Bool.or_eq_false_iff] at h
    rw [sumOn_cons, ih h.2]
    split
    · next hnum => simpa [hnum] using h.1
    · rfl

/-- The commit of a trial. -/
theorem SemEntry.Awaits.commit {acc : SemAcc} {op : SemBuf} {before : Int} (h : sem.Awaits task op before)
    (hv : ValuesOk set.value) (hops : ∀ op ∈ ops, op.num < set.sems.length)
    (htrial : tryOps ops (.start set.sems) = .complete acc) (hsem : set.sems[i]? = some sem)
    (hwoken : task ∉ (commitSem acc pid i sem).2) : (commitSem acc pid i sem).1.Awaits task op before := by
  obtain ⟨-, -, hacc, -, hoper, htouch⟩ := tryOps_complete SemAcc.start_sized hv hops htrial
  have hstart : (SemAcc.start set.sems).value i = sem.val := SemSet.value_of_getElem? hsem
  have htouch' : acc.touched.getD i false = ops.any fun op => op.num == i && op.delta != 0 := by
    rw [htouch, SemAcc.start, getD_replicate, Bool.false_or]
  cases hany : ops.any fun op => op.num == i && op.delta != 0 with
  | false =>
    -- not woken, and not moved
    have hval' : (commitSem acc pid i sem).1.val = sem.val := by
      rw [(commitSem_spec hv hops htrial hsem).1, sumOn_eq_zero_of_untouched hany, add_zero]
    refine h.mono hval' ?_ ?_ <;> unfold commitSem <;> rw [htouch', hany] <;> split <;> exact id
  | true =>
    have hoper' : acc.operated.getD i false = true := by
      obtain ⟨o, ho, hnum⟩ := any_eq_true.mp hany
      rw [Bool.and_eq_true] at hnum
      rw [hoper, Bool.or_eq_true]
      exact .inr (any_eq_true.mpr ⟨o, ho, hnum.1⟩)
    have hcommit : commitSem acc pid i sem = wakeSemWaiters
      { sem with val := acc.value i, lastPid := pid } := by
      unfold commitSem
      rw [htouch', hany, hoper']
      rfl
    rw [hcommit] at hwoken ⊢
    refine h.wake ?_ (hacc i).1 hwoken
    rw [← hstart]
    exact (hv i).1

theorem keepsWaiter_semop (hok : st.ValuesOk) {task' : TaskId} (hcase : SemopCase st task' call env eff)
    (hwoken : task ∉ eff.woken) : KeepsWaiter st eff.st task := by
  cases hcase with
  | failed => exact .refl
  | @applied set acc undos hset hops htrial hundo =>
    refine KeepsWaiter.putSet hset fun i sem hsem => ?_
    refine ⟨_, SemSet.commit_getElem? hsem, fun op before haw => ?_⟩
    exact haw.commit (hok.value hset) hops htrial hsem (not_mem_of_not_mem_flatMap hsem hwoken)
  | blocked hset _ _ hsem => exact KeepsWaiter.putSem hset hsem rfl fun _ _ haw => haw.enqueue

/-- **A round that blocks** leaves its task with something to wait for. -/
theorem held_of_blocks (hok : st.ValuesOk) (hcase : SemopCase st task call env eff)
    (hblocks : eff.ret.parks = true) : Held eff.st task call := by
  cases hcase with
  | failed | applied => cases hblocks
  | @blocked set idx kind nowait sem hset hops htrial hsem =>
  obtain ⟨k, op, hk, rfl, -, hblocks⟩ :=
    tryOps_wouldBlock SemAcc.start_sized (hok.value hset) hops htrial
  have hval : (SemAcc.start set.sems).value op.num = sem.val := SemSet.value_of_getElem? hsem
  rw [hval] at hblocks
  refine ⟨_, k, op, enqueueSem kind task sem, set?_putSet_self, hk, ?_, ?_⟩
  · change (set.sems.set op.num _)[op.num]? = _
    rw [getElem?_set_self (List.getElem?_eq_some_iff.mp hsem).1]
  · cases kind with
    | waitForZero => exact .inr ⟨mem_addWaiterOnce.mpr (.inr rfl), hblocks.1, .inr hblocks.2⟩
    | waitForIncrease => exact .inl ⟨mem_addWaiterOnce.mpr (.inr rfl), hblocks⟩

/-- One adjustment of `exit_cleanup`. -/
theorem keepsWaiter_applyUndo {acc r : SemState × List TaskId} {entry : SemUndoEntry}
    (hok : acc.1.ValuesOk) (hcase : ApplyUndoCase pid acc entry r) :
    ∃ woken, r.2 = acc.2 ++ woken ∧ ∀ task, task ∉ woken → KeepsWaiter acc.1 r.1 task := by
  cases hcase with
  | skipped => exact ⟨[], (append_nil _).symm, fun task _ => .refl⟩
  | @adjusted set sem sem' now hset hsem hsem' =>
    refine ⟨_, rfl, fun task hwoken => ?_⟩
    refine KeepsWaiter.putSem hset hsem rfl fun op before haw => ?_
    subst hsem'
    exact haw.wake (hok _ _ set hset sem (mem_of_getElem? hsem)).1 (le_max_left ..) hwoken

/-- The loop of `exit_cleanup`. -/
theorem keepsWaiter_foldl (pid : Nat) (now : Int) (entries : List SemUndoEntry)
    {acc : SemState × List TaskId} (hok : acc.1.ValuesOk) :
    (entries.foldl (applyUndo pid now) acc).1.ValuesOk ∧
      ∃ woken, (entries.foldl (applyUndo pid now) acc).2 = acc.2 ++ woken ∧
        ∀ task, task ∉ woken → KeepsWaiter acc.1 (entries.foldl (applyUndo pid now) acc).1 task := by
  induction entries generalizing acc with
  | nil => exact ⟨hok, [], (append_nil _).symm, fun task _ => .refl⟩
  | cons entry _ ih =>
    have hcase := @applyUndo_cases pid now entry acc
    obtain ⟨woken, hwoken, hkeep⟩ := keepsWaiter_applyUndo hok hcase
    obtain ⟨hok', woken', hwoken', hkeep'⟩ := ih (hok.applyUndo hcase)
    refine ⟨hok', woken ++ woken', ?_, fun task htask => ?_⟩
    · rw [foldl_cons, hwoken', hwoken, append_assoc]
    · rw [mem_append, not_or] at htask
      exact (hkeep task htask.1).trans (hkeep' task htask.2)

end Calls

/-! ### Runs -/

section Runs

variable {st : SemState} {w : Parking.World SemState SemopCall} {call : SemopCall} {task : TaskId}
  {o : Outcome SemState}
  {n : Next SemopCall} {phase : TaskId → Phase SemopCall}

/-- A round of `semop` keeps the tasks it does not wake, and holds its own task if it blocks. -/
theorem preserves_attempt (hok : st.ValuesOk) (ho : semSystem.attempt phase st task call o n) :
    Preserves SemState.ValuesOk Held phase st o ∧ ∀ c, n = .park c → Held o.shared task c := by
  obtain ⟨env, -, rfl, rfl⟩ := ho
  refine ⟨⟨hok.semop doSemopOps_cases, fun t c _ hwoken _ hheld => ?_⟩, fun c hpark => ?_⟩
  · exact hheld.keep (keepsWaiter_semop hok doSemopOps_cases hwoken)
  · split at hpark
    · next hparks =>
      cases hpark
      exact held_of_blocks hok doSemopOps_cases hparks
    · cases hpark

/-- So do the other calls. -/
theorem preserves_act (hok : st.ValuesOk) (ho : semSystem.act phase st o) :
    Preserves SemState.ValuesOk Held phase st o := by
  cases ho with
  | semget =>
    exact ⟨hok.semget semget_cases, fun t _ _ _ _ hheld => hheld.keep (keepsWaiter_semget semget_cases)⟩
  | semctl =>
    refine ⟨hok.semctl semctl_cases, fun t c hwaits hwoken hlater hheld => ?_⟩
    exact hheld.keep (keepsWaiter_semctl hok semctl_cases hwaits.alive hwoken hlater)
  | exit pid now =>
    -- the adjustments are taken out of the table first, which the queues do not see
    obtain ⟨hok', woken, hwoken, hkeep⟩ :=
      @keepsWaiter_foldl pid now (st.undos pid) ({ st with undos := Function.update st.undos pid [] }, []) hok
    refine ⟨hok', fun t c _ ht _ hheld => ?_⟩
    have ht' : t ∉ woken := by rwa [← nil_append woken, ← hwoken]
    exact Held.keep hheld (hkeep t ht')

/-- The array lowers a semaphore on balance before an operation that waits for zero on it. -/
def LowersBeforeZero (ops : List SemBuf) : Prop :=
  ∃ (k : Nat) (op : SemBuf), ops[k]? = some op ∧ op.delta = 0 ∧ sumOn (ops.take k) op.num < 0

/-- What a task waits for stands in the way of its array. -/
theorem Held.not_applicable (h : Held st task call) (hops : ¬ LowersBeforeZero call.ops) :
    ∃ set, st.set? call.ns call.semid = some set ∧ ¬ Applicable set.value call.ops := by
  obtain ⟨set, k, op, _, hset, hk, hsem, haw⟩ := h
  refine ⟨set, hset, fun happ => ?_⟩
  have hallowed := happ k op hk
  rw [SemSet.value_of_getElem? hsem] at hallowed
  rcases haw with ⟨-, hblocks⟩ | ⟨-, hdelta, hlow | hne⟩
  · exact hblocks.not_allowedAt hallowed
  · exact hops ⟨k, op, hk, hdelta, hlow⟩
  · exact hne (hallowed.1 hdelta)

/-- **No wakeup is lost.** In every run of semaphore calls and of the scheduler, a task that is
blocked in `semop`, and for which no wakeup is under way, has a set to operate on and an array that
is not applicable to it, unless the array lowers a semaphore before it waits for zero on it. -/
theorem sem_no_lost_wakeup (hr : SemReachable w)
    (hblocked : w.phase task = .blocked call) (hlater : task ∉ w.later) (hops : ¬ LowersBeforeZero call.ops) :
    ∃ set, w.shared.set? call.ns call.semid = some set ∧ ¬ Applicable set.value call.ops := by
  have hinv : w.shared.ValuesOk ∧ AllHeld Held w :=
    held_of_reachable (fun _ _ _ _ _ _ _ hok _ ho => preserves_attempt hok ho)
      (fun _ _ _ hok ho => preserves_act hok ho) (by intros; contradiction)
      (fun _ _ _ hset => by cases hset) hr
  exact (hinv.2 task call (.inl hblocked) hlater).not_applicable hops

/-- A call of `semop` on the first set of the first namespace. -/
def onFirst (pid : Nat) (ops : List SemBuf) : SemopCall := ⟨0, ⟨0, 0, [], pid⟩, 1, ops⟩

/-- No time limit, no signal, and the first round. -/
def firstRound : SemopEnv := ⟨false, false, false, 0⟩

/-- The first set, of one semaphore. -/
theorem semReachable_created :
    SemReachable ⟨(semget .boot .default 0 ⟨0, 0, [], 1⟩ 0 1 ⟨true, false, 0⟩ 0).st, fun _ => .idle, []⟩ := by
  have hboot : SemReachable (.boot .boot) := .start rfl
  have hget := hboot.step (.act (.semget .default 0 ⟨0, 0, [], 1⟩ 0 1 ⟨true, false, 0⟩ 0))
  exact hget

/-- Task 1 takes 1 from a new semaphore, and blocks. Task 2 adds 1, and task 1 is woken and goes on.
Then task 3 takes 1, and blocks. -/
theorem sem_no_lost_wakeup_take : ∃ w, SemReachable w ∧ w.phase 1 = .idle ∧
      w.phase 3 = .blocked (onFirst 3 [⟨0, -1, 0⟩]) ∧
      ∃ set, w.shared.set? 0 1 = some set ∧ ¬ Applicable set.value [⟨0, -1, 0⟩] := by
  have hpark := enter (c := onFirst 1 [⟨0, -1, 0⟩]) semReachable_created 1 rfl trivial
    ⟨firstRound, rfl, rfl, rfl⟩
  have hout := hpark.step (.switchOut (t := 1) rfl trivial)
  have hadd := enter (c := onFirst 2 [⟨0, 1, 0⟩]) hout 2 rfl trivial ⟨firstRound, rfl, rfl, rfl⟩
  have hready := hadd.step (.resume (t := 1) rfl)
  have htake := hready.step (.round (t := 1) rfl ⟨{ firstRound with waited := true }, rfl, rfl, rfl⟩)
  have hpark₃ := enter (c := onFirst 3 [⟨0, -1, 0⟩]) htake 3 rfl trivial ⟨firstRound, rfl, rfl, rfl⟩
  have hout₃ := hpark₃.step (.switchOut (t := 3) rfl trivial)
  have hops : ¬ LowersBeforeZero [⟨0, -1, 0⟩] := by
    rintro ⟨k, op, hk, hdelta, -⟩
    obtain rfl := mem_singleton.mp (mem_of_getElem? hk)
    revert hdelta
    decide
  exact ⟨_, hout₃, rfl, rfl, @sem_no_lost_wakeup _ (onFirst 3 _) 3 hout₃ rfl not_mem_nil hops⟩

/-- **A lost wakeup.** Task 1 takes 1 and waits for zero, at 2; task 2 takes 1. The value is 1 then,
the array of task 1 applicable, and no one wakes it. -/
theorem lost_wakeup : ∃ w, SemReachable w ∧
      w.phase 1 = .blocked (onFirst 1 [⟨0, -1, 0⟩, ⟨0, 0, 0⟩]) ∧ w.phase 2 = .idle ∧ w.later = [] ∧
      ∃ set, w.shared.set? 0 1 = some set ∧ Applicable set.value [⟨0, -1, 0⟩, ⟨0, 0, 0⟩] := by
  have hset := semReachable_created.step (.act (.semctl 0 ⟨0, 0, [], 1⟩ 1 0 (.setVal 2) 0))
  have hpark := enter (c := onFirst 1 [⟨0, -1, 0⟩, ⟨0, 0, 0⟩]) hset 1 rfl trivial ⟨firstRound, rfl, rfl, rfl⟩
  have hout := hpark.step (.switchOut (t := 1) rfl trivial)
  have htake := enter (c := onFirst 2 [⟨0, -1, 0⟩]) hout 2 rfl trivial ⟨firstRound, rfl, rfl, rfl⟩
  refine ⟨_, htake, rfl, rfl, rfl, _, rfl, ?_⟩
  exact applicable_cons.mpr ⟨by decide +kernel, applicable_cons.mpr ⟨by decide +kernel, applicable_nil⟩⟩

end Runs

end HitOS.Ipc
