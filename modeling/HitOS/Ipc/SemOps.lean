import HitOS.Ipc.Sem

/-!
# What a round of `semop` does

`do_semop_ops` tries the operations on a copy of the values and commits the result at once.

* `tryOps_complete`, `tryOps_wouldBlock` — how the trial ends, in terms of the sums of the
  operations before each one (`sumOn`), and not of the copies.
* `semop_all_or_nothing` — a round succeeds with every value moved by the sum of its operations,
  each of them applicable after those before it, or it leaves values, pids and adjustments as they
  are.
-/

namespace HitOS.Ipc

open List SemSet SemState SemAcc SemTrial Bool Function Option BitVec Except

/-! ### Sums of operations -/

/-- What the operations add to the semaphore `i`. -/
def sumOn (ops : List SemBuf) (i : Nat) : Int :=
  (ops.map fun op => if op.num = i then op.delta else 0).sum

/-- What the operations with `SEM_UNDO` add to the semaphore `i`. -/
def undoOn (ops : List SemBuf) (i : Nat) : Int :=
  (ops.map fun op => if op.num = i ∧ op.undo = true then op.delta else 0).sum

/-- An operation is applicable at the value `x`. -/
def SemBuf.AllowedAt (op : SemBuf) (x : Int) : Prop :=
  (op.delta = 0 → x = 0) ∧ 0 ≤ x + op.delta ∧ x + op.delta ≤ semvmx

instance (op : SemBuf) (x : Int) : Decidable (op.AllowedAt x) :=
  inferInstanceAs (Decidable ((op.delta = 0 → x = 0) ∧ 0 ≤ x + op.delta ∧ x + op.delta ≤ semvmx))

/-- Every operation of the array is applicable after those before it. -/
def Applicable (values : Nat → Int) (ops : List SemBuf) : Prop :=
  ∀ (k : Nat) (op : SemBuf), ops[k]? = some op →
    op.AllowedAt (values op.num + sumOn (ops.take k) op.num)

variable {op : SemBuf} {ops : List SemBuf} {i : Nat} {acc : SemAcc}

section Sums

variable {values : Nat → Int}

theorem sumOn_nil : sumOn [] i = 0 := rfl

theorem sumOn_cons : sumOn (op :: ops) i = (if op.num = i then op.delta else 0) + sumOn ops i := by
  simp [sumOn]

theorem sumOn_eq_zero (h : ∀ op ∈ ops, op.num ≠ i) : sumOn ops i = 0 := by
  induction ops with
  | nil => rfl
  | cons op _ ih =>
    rw [sumOn_cons, if_neg (h op (.head _)), zero_add]
    exact ih fun o ho => h o (.tail _ ho)

theorem undoOn_nil : undoOn [] i = 0 := rfl

theorem undoOn_cons : undoOn (op :: ops) i =
    (if op.num = i ∧ op.undo = true then op.delta else 0) + undoOn ops i := by
  simp [undoOn]

theorem applicable_nil : Applicable values [] := by
  nofun

/-- The rest of an array starts from the values the first operation leaves. -/
theorem applicable_cons : Applicable values (op :: ops) ↔ op.AllowedAt (values op.num) ∧
    Applicable (fun i => values i + if op.num = i then op.delta else 0) ops := by
  have hrest k (op' : SemBuf) : values op'.num + sumOn ((op :: ops).take (k + 1)) op'.num =
      (values op'.num + if op.num = op'.num then op.delta else 0) + sumOn (ops.take k) op'.num := by
    rw [take_succ_cons, sumOn_cons, add_assoc]
  constructor
  · intro h
    refine ⟨?_, fun k op' hk => ?_⟩
    · have h0 := h 0 op rfl
      rwa [take_zero, sumOn_nil, add_zero] at h0
    · have hk' := h (k + 1) op' hk
      rwa [hrest] at hk'
  · rintro ⟨h0, h⟩ k op' hk
    cases k with
    | zero =>
      cases hk
      rwa [take_zero, sumOn_nil, add_zero]
    | succ k =>
      rw [hrest]
      exact h k op' hk

end Sums

/-! ### The trial -/

/-- The vectors have one place for each semaphore. -/
structure SemAcc.Sized (acc : SemAcc) (n : Nat) : Prop where
  values : acc.values.length = n
  operated : acc.operated.length = n
  touched : acc.touched.length = n
  undoDeltas : acc.undoDeltas.length = n

/-- The values are those of semaphores. -/
def ValuesOk (values : Nat → Int) : Prop := ∀ i, 0 ≤ values i ∧ values i ≤ semvmx

theorem getD_set {α : Type} {l : List α} {i j : Nat} {a d : α} (h : i < l.length) :
    (l.set i a).getD j d = if i = j then a else l.getD j d := by
  rw [getD_eq_getElem?_getD, getElem?_set]
  split <;> rfl

theorem getD_replicate {α : Type} {n i : Nat} {a : α} : (replicate n a).getD i a = a := by
  rw [getD_eq_getElem?_getD, getElem?_replicate]
  split <;> rfl

theorem satAdd32_eq {a b : Int} (hlo : -2 ^ 31 ≤ a + b) (hhi : a + b ≤ 2 ^ 31 - 1) :
    satAdd32 a b = a + b := by
  unfold satAdd32
  rw [min_eq_left hhi, max_eq_right hlo]

theorem SemBuf.delta_bounds (op : SemBuf) : -2 ^ 15 ≤ op.delta ∧ op.delta ≤ 2 ^ 15 - 1 := by
  have h1 := le_toInt op.semOp
  have h2 := toInt_lt (x := op.semOp)
  unfold delta
  constructor
  · simpa using h1
  · omega

section Trial

variable {acc' : SemAcc} {n j idx : Nat} {kind : SemBlockKind} {nowait : Bool}

theorem SemAcc.value_operate : (acc.operate i).value j = acc.value j := rfl

theorem SemAcc.Sized.operate (h : acc.Sized n) : (acc.operate i).Sized n :=
  ⟨h.values, by rw [SemAcc.operate, length_set, h.operated], h.touched, h.undoDeltas⟩

theorem SemAcc.Sized.operated_operate (hs : acc.Sized n) (hop : op.num < n) :
    (acc.operate op.num).operated.getD i false = (acc.operated.getD i false || op.num == i) := by
  unfold SemAcc.operate
  rw [getD_set (hs.operated ▸ hop)]
  by_cases h : op.num = i <;> simp [h]

theorem SemAcc.Sized.change {v : Int} (h : acc.Sized n) : (acc.change op v).Sized n := by
  refine ⟨?_, h.operated, ?_, ?_⟩
  · rw [SemAcc.change, length_set, h.values]
  · rw [SemAcc.change, length_set, h.touched]
  · rw [SemAcc.change]
    split
    · rw [length_set, h.undoDeltas]
    · exact h.undoDeltas

/-- What an operation that is applicable does to the vectors. -/
structure TriedOp (op : SemBuf) (acc acc' : SemAcc) : Prop where
  allowed : op.AllowedAt (acc.value op.num)
  value : ∀ i, acc'.value i = acc.value i + if op.num = i then op.delta else 0
  operated : ∀ i, acc'.operated.getD i false = (acc.operated.getD i false || op.num == i)
  touched : ∀ i,
    acc'.touched.getD i false = (acc.touched.getD i false || (op.num == i && op.delta != 0))
  undoDelta : ∀ i, acc'.undoDelta i =
    if op.num = i ∧ op.undo = true ∧ op.delta ≠ 0 then satAdd32 (acc.undoDelta i) (-op.delta)
    else acc.undoDelta i

/-- An operation that changes a value. -/
theorem SemAcc.Sized.triedOp_change (hs : acc.Sized n) (hop : op.num < n) (hne : op.delta ≠ 0)
    (hallowed : op.AllowedAt (acc.value op.num)) :
    TriedOp op acc ((acc.operate op.num).change op (acc.value op.num + op.delta)) := by
  refine ⟨hallowed, fun i => ?_, fun i => ?_, fun i => ?_, fun i => ?_⟩
  · refine (getD_set (hs.operate.values ▸ hop)).trans ?_
    split
    · next h => rw [h]
    · exact (add_zero _).symm
  · exact hs.operated_operate hop
  · change (acc.touched.set op.num true).getD i false = _
    rw [getD_set (hs.touched ▸ hop)]
    by_cases h : op.num = i <;> simp [h, hne]
  · change (if op.undo = true then acc.undoDeltas.set op.num
      (satAdd32 (acc.undoDelta op.num) (-op.delta))
      else acc.undoDeltas).getD i 0 = _
    split
    · next hundo =>
      rw [getD_set (hs.undoDeltas ▸ hop)]
      by_cases h : op.num = i
      · rw [if_pos h, if_pos ⟨h, hundo, hne⟩, h]
      · rw [if_neg h, if_neg fun hc => h hc.1]
        rfl
    · next hundo =>
      rw [if_neg fun hc => hundo hc.2.1]
      rfl

/-- An operation that waits for zero, at zero. -/
theorem SemAcc.Sized.triedOp_zero (hs : acc.Sized n) (hop : op.num < n) (hdelta : op.delta = 0)
    (hzero : acc.value op.num = 0) : TriedOp op acc (acc.operate op.num) := by
  refine ⟨⟨fun _ => hzero, ?_, ?_⟩, fun i => ?_, fun i => ?_, fun i => ?_, fun i => ?_⟩
  · rw [hzero, hdelta]
    decide
  · rw [hzero, hdelta]
    decide
  · rw [hdelta, ite_self, add_zero]
    rfl
  · exact hs.operated_operate hop
  · simp [hdelta, SemAcc.operate]
  · rw [if_neg fun hc => hc.2.2 hdelta]
    rfl

/-- The operation is one that makes the task wait at the value `x`. -/
def SemBuf.BlocksAt (op : SemBuf) (kind : SemBlockKind) (x : Int) : Prop :=
  match kind with
  | .waitForZero => op.delta = 0 ∧ x ≠ 0
  | .waitForIncrease => op.delta < 0 ∧ x + op.delta < 0

theorem SemBuf.BlocksAt.not_allowedAt {x : Int} (h : op.BlocksAt kind x) : ¬ op.AllowedAt x := by
  rintro ⟨hzero, hlo, -⟩
  cases kind with
  | waitForZero => exact h.2 (hzero h.1)
  | waitForIncrease => exact absurd hlo (not_le.mpr h.2)

theorem tryOp_complete (hs : acc.Sized n) (hv : ValuesOk acc.value) (hop : op.num < n)
    (h : tryOp op acc = .complete acc') : acc'.Sized n ∧ TriedOp op acc acc' := by
  have hbounds := op.delta_bounds
  have hvmx : semvmx = 32767 := rfl
  have hx := hv op.num
  unfold tryOp at h
  dsimp only at h
  rw [value_operate] at h
  split at h
  · rw [satAdd32_eq (by omega) (by omega)] at h
    split at h
    · cases h
    next _ =>
    obtain rfl := complete.inj h
    exact ⟨hs.operate.change, hs.triedOp_change hop (by omega)
      ⟨fun _ => by omega, by omega, by omega⟩⟩
  split at h
  · next hzero =>
    split at h
    · next hval =>
      obtain rfl := complete.inj h
      exact ⟨hs.operate, hs.triedOp_zero hop hzero hval⟩
    · cases h
  · next hne =>
    split at h
    · rw [sub_neg_eq_add] at h
      obtain rfl := complete.inj h
      exact ⟨hs.operate.change, hs.triedOp_change hop hne
        ⟨fun h0 => absurd h0 hne, by omega, by omega⟩⟩
    · cases h

theorem tryOp_wouldBlock (h : tryOp op acc = .wouldBlock idx kind nowait) :
    op.num = idx ∧ nowait = op.nowait ∧ op.BlocksAt kind (acc.value op.num) := by
  unfold tryOp at h
  dsimp only at h
  rw [value_operate] at h
  split at h
  · split at h <;> cases h
  next _ =>
  split at h
  · next hzero =>
    split at h
    · cases h
    · next hval =>
      cases h
      exact ⟨rfl, rfl, hzero, hval⟩
  · split at h
    · cases h
    next hlt =>
    cases h
    exact ⟨rfl, rfl, by omega, by omega⟩

/-- The values an operation leaves are those of semaphores. -/
theorem TriedOp.valuesOk (h : TriedOp op acc acc') (hv : ValuesOk acc.value) :
    ValuesOk acc'.value := by
  intro i
  rw [h.value]
  by_cases hi : op.num = i
  · subst hi
    rw [if_pos rfl]
    exact h.allowed.2
  · rw [if_neg hi, add_zero]
    exact hv i

/-- **A trial that completes**: every operation is applicable after those before it, and the vectors
hold the sums. -/
theorem tryOps_complete (hs : acc.Sized n) (hv : ValuesOk acc.value) (hops : ∀ op ∈ ops, op.num < n)
    (h : tryOps ops acc = .complete acc') :
    acc'.Sized n ∧ Applicable acc.value ops ∧ ValuesOk acc'.value ∧
      (∀ i, acc'.value i = acc.value i + sumOn ops i) ∧
      (∀ i, acc'.operated.getD i false = (acc.operated.getD i false || ops.any (·.num == i))) ∧
      (∀ i, acc'.touched.getD i false =
        (acc.touched.getD i false || ops.any (fun op => op.num == i && op.delta != 0))) := by
  induction ops generalizing acc with
  | nil =>
    obtain rfl := complete.inj h
    exact ⟨hs, applicable_nil, hv, fun i => by rw [sumOn_nil, add_zero], fun i => by simp,
      fun i => by simp⟩
  | cons op _ ih =>
    unfold tryOps at h
    cases hop : tryOp op acc with
    | outOfRange | wouldBlock => simp [hop] at h
    | complete =>
    simp only [hop] at h
    obtain ⟨hs', ht⟩ := tryOp_complete hs hv (hops op (.head _)) hop
    obtain ⟨hsized, happ, hok, hval, hoper, htouch⟩ :=
      ih hs' (ht.valuesOk hv) (fun o ho => hops o (.tail _ ho)) h
    refine ⟨hsized, applicable_cons.mpr ⟨ht.allowed, ?_⟩, hok, fun i => ?_, fun i => ?_,
      fun i => ?_⟩
    · rwa [← funext ht.value]
    · rw [hval, ht.value, sumOn_cons, add_assoc]
    · rw [hoper, ht.operated, any_cons, Bool.or_assoc]
    · rw [htouch, ht.touched, any_cons, Bool.or_assoc]

/-- **A trial that stops at an operation to wait for**: the one it stops at is not applicable after
those before it. -/
theorem tryOps_wouldBlock (hs : acc.Sized n) (hv : ValuesOk acc.value)
    (hops : ∀ op ∈ ops, op.num < n)
    (h : tryOps ops acc = .wouldBlock idx kind nowait) :
    ∃ (k : Nat) (op : SemBuf), ops[k]? = some op ∧ op.num = idx ∧ nowait = op.nowait ∧
      op.BlocksAt kind (acc.value idx + sumOn (ops.take k) idx) := by
  induction ops generalizing acc with
  | nil => cases h
  | cons op _ ih =>
    unfold tryOps at h
    cases hop : tryOp op acc with
    | outOfRange => simp [hop] at h
    | wouldBlock =>
      simp only [hop] at h
      obtain ⟨rfl, rfl, rfl⟩ := h
      obtain ⟨rfl, rfl, hblocks⟩ := tryOp_wouldBlock hop
      refine ⟨0, op, rfl, rfl, rfl, ?_⟩
      rwa [take_zero, sumOn_nil, add_zero]
    | complete =>
      simp only [hop] at h
      obtain ⟨hs', ht⟩ := tryOp_complete hs hv (hops op (.head _)) hop
      obtain ⟨k, op', hk, hnum, hnowait, hblocks⟩ :=
        ih hs' (ht.valuesOk hv) (fun o ho => hops o (.tail _ ho)) h
      refine ⟨k + 1, op', hk, hnum, hnowait, ?_⟩
      rwa [ht.value, add_assoc] at hblocks

end Trial

/-! ### Whole rounds -/

def SemSet.value (set : SemSet) (i : Nat) : Int := (set.sems.map SemEntry.val).getD i 0

/-- Every value is one of a semaphore. -/
def SemState.ValuesOk (st : SemState) : Prop :=
  ∀ ns semid set, st.set? ns semid = some set → ∀ sem ∈ set.sems, 0 ≤ sem.val ∧ sem.val ≤ semvmx

/-- The values and the pids of a set. -/
def SemState.view (st : SemState) (ns semid : Nat) : Option (List (Int × Nat)) :=
  (st.set? ns semid).map fun set => set.sems.map fun sem => (sem.val, sem.lastPid)

section Rounds

variable {st : SemState} {ns semid ns' semid' : Nat} {set : SemSet} {sem : SemEntry} {pid : Nat} {task : TaskId}
  {call : SemopCall} {env : SemopEnv}

theorem SemState.set?_putManager {mgr : SemManager} :
    (st.putManager ns mgr).set? ns' semid' = if ns' = ns then mgr.sets.get? semid'
      else st.set? ns' semid' := by
  unfold putManager set?
  dsimp only
  rw [update_apply]
  split <;> rfl

theorem SemState.set?_putSet : (st.putSet ns semid set).set? ns' semid' =
      if ns' = ns ∧ semid' = semid then some set else st.set? ns' semid' := by
  rw [putSet, set?_putManager]
  by_cases hns : ns' = ns
  · subst hns
    rw [OrdMap.get?_insert]
    by_cases hid : semid' = semid
    · simp [hid]
    · simp [set?]
  · rw [if_neg hns, if_neg fun h => hns h.1]

theorem SemState.set?_putSet_self : (st.putSet ns semid set).set? ns semid = some set := by
  rw [set?_putSet, if_pos ⟨rfl, rfl⟩]

theorem wakeSemWaiters_fst :
    (wakeSemWaiters sem).1.val = sem.val ∧ (wakeSemWaiters sem).1.lastPid = sem.lastPid := by
  unfold wakeSemWaiters
  split
  · exact ⟨rfl, rfl⟩
  · split <;> exact ⟨rfl, rfl⟩

theorem commitSem_fst : (commitSem acc pid i sem).1.val =
        (if acc.operated.getD i false then acc.value i else sem.val) ∧
      (commitSem acc pid i sem).1.lastPid = if acc.operated.getD i false then pid
        else sem.lastPid := by
  unfold commitSem
  by_cases htouched : acc.touched.getD i false = true
  · rw [if_pos htouched, wakeSemWaiters_fst.1, wakeSemWaiters_fst.2]
    split <;> exact ⟨rfl, rfl⟩
  · rw [if_neg htouched]
    split <;> exact ⟨rfl, rfl⟩

theorem SemAcc.start_sized {sems : List SemEntry} : (start sems).Sized sems.length :=
  ⟨length_map _, length_replicate, length_replicate, length_replicate⟩

theorem SemSet.value_of_getElem? (h : set.sems[i]? = some sem) : set.value i = sem.val := by
  rw [value, getD_eq_getElem?_getD, getElem?_map, h]
  rfl

/-- The values of a set are those of semaphores, and zero beyond. -/
theorem SemState.ValuesOk.value (h : st.ValuesOk) (hset : st.set? ns semid = some set) :
    Ipc.ValuesOk set.value := by
  intro i
  cases hsem : set.sems[i]? with
  | some sem =>
    rw [value_of_getElem? hsem]
    exact h ns semid set hset sem (mem_of_getElem? hsem)
  | none =>
    rw [SemSet.value, getD_eq_getElem?_getD, getElem?_map, hsem]
    decide

/-- **A round that applies its operations.** -/
structure SemopApplied (call : SemopCall) (st st' : SemState) : Prop where
  /-- Each semaphore of the set is moved by the sum of its operations. -/
  moved : ∃ set set', st.set? call.ns call.semid = some set ∧
    st'.set? call.ns call.semid = some set' ∧ set'.sems.length = set.sems.length ∧
    (∀ op ∈ call.ops, op.num < set.sems.length) ∧ Applicable set.value call.ops ∧
    ∀ (i : Nat) (sem sem' : SemEntry), set.sems[i]? = some sem → set'.sems[i]? = some sem' →
      sem'.val = sem.val + sumOn call.ops i ∧
      sem'.lastPid = if call.ops.any (·.num == i) then call.cred.pid else sem.lastPid
  /-- The other sets stay as they are. -/
  others : ∀ ns semid, ¬ (ns = call.ns ∧ semid = call.semid) → st'.set? ns semid = st.set? ns semid
  /-- So do the adjustments of other processes. -/
  otherUndos : ∀ pid, pid ≠ call.cred.pid → st'.undos pid = st.undos pid

/-- A round that leaves values, pids and adjustments as they are. -/
def SemopUnchanged (st st' : SemState) : Prop :=
  (∀ ns semid, st'.view ns semid = st.view ns semid) ∧ st'.undos = st.undos

/-- A change the function does not see. -/
theorem map_set_eq {α β : Type} {f : α → β} {l : List α} {a b : α} (ha : l[i]? = some a)
    (hf : f b = f a) : (l.set i b).map f = l.map f := by
  refine ext_getElem? fun j => ?_
  rw [getElem?_map, getElem?_map, getElem?_set]
  split
  · next hij =>
    rw [← hij, ha, if_pos (List.getElem?_eq_some_iff.mp ha).1]
    exact congrArg some hf
  · rfl

/-- Tasks in the queues are no part of the view. -/
theorem SemState.view_enqueue {kind : SemBlockKind} (hset : st.set? ns semid = some set)
    (hsem : set.sems[i]? = some sem) : (st.putSet ns semid
      (set.putSem i (enqueueSem kind task sem))).view ns' semid' = st.view ns' semid' := by
  unfold view
  rw [set?_putSet]
  split
  · next h =>
    rw [h.1, h.2, hset, map_some, map_some, some.injEq]
    refine map_set_eq hsem ?_
    cases kind <;> rfl
  · rfl

theorem recordSemUndo_others {undos undos' : Nat → List SemUndoEntry} {deltas : List Int}
    (h : recordSemUndo undos pid ns semid deltas = .ok undos') (q : Nat) (hq : q ≠ pid) :
    undos' q = undos q := by
  unfold recordSemUndo at h
  split at h
  · rw [← ok.inj h]
  · split at h
    · cases h
    · rw [← ok.inj h, update_of_ne hq]

/-- How a round of `semop` ends: it fails and changes nothing, it commits a trial that completed, or
it queues the task at the semaphore the trial stopped at. -/
inductive SemopCase (st : SemState) (task : TaskId) (call : SemopCall) (env : SemopEnv) :
    SemEffect SemopResult → Prop
  | failed (e : SyscallError) : SemopCase st task call env (st.returns (.returns (.error e)))
  | applied {set : SemSet} {acc : SemAcc} {undos : Nat → List SemUndoEntry}
      (hset : st.set? call.ns call.semid = some set)
      (hops : ∀ op ∈ call.ops, op.num < set.sems.length)
      (htrial : tryOps call.ops (.start set.sems) = .complete acc)
      (hundo : recordSemUndo st.undos call.cred.pid call.ns call.semid acc.undoDeltas = .ok undos) :
      SemopCase st task call env
        ⟨{ st.putSet call.ns call.semid (set.commit acc call.cred.pid env.now).1 with
          undos := undos },
          (set.commit acc call.cred.pid env.now).2, [], .returns (.ok ())⟩
  | blocked {set : SemSet} {idx : Nat} {kind : SemBlockKind} {nowait : Bool} {sem : SemEntry}
      (hset : st.set? call.ns call.semid = some set)
      (hops : ∀ op ∈ call.ops, op.num < set.sems.length)
      (htrial : tryOps call.ops (.start set.sems) = .wouldBlock idx kind nowait)
      (hsem : set.sems[idx]? = some sem) :
      SemopCase st task call env
        ⟨st.putSet call.ns call.semid (set.putSem idx (enqueueSem kind task sem)), [], [], .blocks⟩

theorem doSemopOps_cases : SemopCase st task call env (doSemopOps st task call env) := by
  unfold doSemopOps
  cases hset : st.set? call.ns call.semid with
  | none => exact .failed _
  | some set =>
  dsimp only
  split
  · exact .failed _
  next hnum =>
  have hops op (hop : op ∈ call.ops) : op.num < set.sems.length := by
    by_contra hge
    exact hnum (any_eq_true.mpr ⟨op, hop, decide_eq_true (Nat.le_of_not_lt hge)⟩)
  by_cases haccess : (!checkIpcAccess set.perm
      (if call.ops.any fun op => op.delta ≠ 0 then semA else semR) call.cred) = true
  · rw [if_pos haccess]
    exact .failed _
  rw [if_neg haccess]
  cases htrial : tryOps call.ops (.start set.sems) with
  | outOfRange => exact .failed _
  | complete acc =>
    dsimp only
    cases hundo : recordSemUndo st.undos call.cred.pid call.ns call.semid acc.undoDeltas with
    | error => exact .failed _
    | ok => exact .applied hset hops htrial hundo
  | wouldBlock idx _ nowait =>
    dsimp only
    split
    · exact .failed _
    split
    · exact .failed _
    cases hsem : set.sems[idx]? with
    | none => exact .failed _
    | some => exact .blocked hset hops htrial hsem

theorem SemSet.commit_getElem? {now : Int} (h : set.sems[i]? = some sem) :
    (set.commit acc pid now).1.sems[i]? = some (commitSem acc pid i sem).1 := by
  simp [commit, h]

/-- The values and pids after the commit of a trial. -/
theorem commitSem_spec {ops : List SemBuf} (hv : Ipc.ValuesOk set.value)
    (hops : ∀ op ∈ ops, op.num < set.sems.length)
    (htrial : tryOps ops (.start set.sems) = .complete acc) (hsem : set.sems[i]? = some sem) :
    (commitSem acc pid i sem).1.val = sem.val + sumOn ops i ∧
      (commitSem acc pid i sem).1.lastPid = if ops.any (·.num == i) then pid else sem.lastPid := by
  obtain ⟨-, -, -, hval, hoper, -⟩ := tryOps_complete start_sized hv hops htrial
  have hany : acc.operated.getD i false = ops.any (·.num == i) := by
    rw [hoper, start, getD_replicate, Bool.false_or]
  have hsum : acc.value i = sem.val + sumOn ops i := by
    rw [hval]
    exact congrArg (· + _) (value_of_getElem? hsem)
  obtain ⟨h1, h2⟩ := @commitSem_fst i acc sem pid
  refine ⟨?_, by rw [h2, hany]⟩
  rw [h1, hany, hsum]
  split
  · rfl
  · next hno => rw [sumOn_eq_zero (by simpa using hno), add_zero]

/-- **All or nothing.** A round of `semop` that returns success has moved every semaphore of the set
by the sum of its operations, each of them applicable after those before it; a round that fails or
blocks has changed no value, no pid and no adjustment. -/
theorem semop_all_or_nothing (hok : st.ValuesOk) (task : TaskId) (call : SemopCall)
    (env : SemopEnv) :
    ((doSemopOps st task call env).ret = .returns (.ok ()) →
      SemopApplied call st (doSemopOps st task call env).st) ∧
    ((doSemopOps st task call env).ret ≠ .returns (.ok ()) →
      SemopUnchanged st (doSemopOps st task call env).st) := by
  have hcase := @doSemopOps_cases st task call env
  generalize doSemopOps st task call env = eff at hcase ⊢
  cases hcase with
  | failed => exact ⟨nofun, fun _ => ⟨fun _ _ => rfl, rfl⟩⟩
  | blocked hset _ _ hsem =>
    refine ⟨nofun, fun _ => ⟨fun ns semid => ?_, rfl⟩⟩
    exact view_enqueue hset hsem
  | @applied set acc undos hset hops htrial hundo =>
  refine ⟨fun _ => ?_, absurd rfl⟩
  have hv := hok.value hset
  obtain ⟨-, happ, -⟩ := tryOps_complete start_sized hv hops htrial
  refine ⟨⟨set, _, hset, set?_putSet_self, ?_, hops, happ, ?_⟩, ?_, ?_⟩
  · simp [commit]
  · intro _ _ _ hsem hsem'
    rw [commit_getElem? hsem] at hsem'
    cases hsem'
    exact commitSem_spec hv hops htrial hsem
  · intro ns semid hne
    change (st.putSet ..).set? ns semid = _
    rw [set?_putSet, if_neg hne]
  · exact recordSemUndo_others hundo

/-- One semaphore at 1. -/
def oneSet : SemState :=
  SemState.boot.putSet 0 1 ⟨1, none, ⟨0, 0, 0, 0, 0, 0⟩, [⟨1, 0, [], []⟩], 0, 0⟩

/-- Taking 1, waiting for zero and giving 2 back succeeds at 1, and leaves 2. -/
theorem semop_all_or_nothing_take_and_give :
    SemopApplied ⟨0, ⟨0, 0, [], 7⟩, 1, [⟨0, -1, 0⟩, ⟨0, 0, 0⟩, ⟨0, 2, 0⟩]⟩ oneSet
      (doSemopOps oneSet 3 ⟨0, ⟨0, 0, [], 7⟩, 1, [⟨0, -1, 0⟩, ⟨0, 0, 0⟩, ⟨0, 2, 0⟩]⟩
        ⟨false, false, false, 0⟩).st := by
  have hok : oneSet.ValuesOk := by
    intro _ _ _ hset
    rw [oneSet, set?_putSet] at hset
    split at hset
    · cases hset
      decide
    · cases hset
  exact (semop_all_or_nothing hok 3 ..).1 rfl

end Rounds

end HitOS.Ipc
