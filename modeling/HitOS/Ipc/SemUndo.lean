import HitOS.Ipc.SemEffects

/-!
# The adjustments of `SEM_UNDO`

The adjustments of a process are kept in a list by namespace, set and semaphore.

* `currentAdj_addAdj`, `recordSemUndo_spec` — the list behaves as a function from semaphores to
  numbers, and recording adds to it.
* `tryOps_undoDelta` — what a call records is minus the sum of its `SEM_UNDO` operations, if the
  sums fit in an `i32` (`Exact`): they are added up with saturation.
* `foldl_applyUndo` — the exit of a process applies the function once to every semaphore
  (`Adjusted`).
-/

namespace HitOS.Ipc

open Function SemUndoEntry
open List hiding set getElem?_eq_some_iff

/-! ### The list of adjustments as a function -/

/-- The semaphore of an entry. -/
def SemUndoEntry.key (e : SemUndoEntry) : Nat × Nat × Nat := (e.ipcNsId, e.semid, e.semnum)

/-- There is one entry for a semaphore at most. -/
def KeysNodup (entries : List SemUndoEntry) : Prop := (entries.map SemUndoEntry.key).Nodup

variable {entries : List SemUndoEntry} {ns semid n pid : Nat} {deltas : List Int} {st st' : SemState}

section Entries

variable {e : SemUndoEntry} {ns' semid' n' start : Nat} {d : Int}

theorem SemUndoEntry.isFor_iff : e.isFor ns semid n = true ↔ e.key = (ns, semid, n) := by
  simp [isFor, key, and_assoc]

theorem keysNodup_cons : KeysNodup (e :: entries) ↔ e.key ∉ entries.map key ∧ KeysNodup entries := nodup_cons

theorem currentAdj_nil : currentAdj [] ns semid n = 0 := rfl

theorem currentAdj_cons : currentAdj (e :: entries) ns semid n =
    if e.key = (ns, semid, n) then e.adj else currentAdj entries ns semid n := by
  unfold currentAdj
  rw [find?_cons]
  split_ifs with h
  · rw [isFor_iff.mpr h]
    rfl
  · rw [Bool.eq_false_iff.mpr fun hc => h (isFor_iff.mp hc)]

theorem currentAdj_eq_zero (h : (ns, semid, n) ∉ entries.map key) : currentAdj entries ns semid n = 0 := by
  induction entries with
  | nil => rfl
  | cons _ _ ih =>
    rw [map_cons, mem_cons, not_or] at h
    rw [currentAdj_cons, if_neg fun hc => h.1 hc.symm, ih h.2]

theorem currentAdj_of_mem (hnodup : KeysNodup entries) (he : e ∈ entries) :
    currentAdj entries e.ipcNsId e.semid e.semnum = e.adj := by
  induction entries with
  | nil => cases he
  | cons _ _ ih =>
    rw [keysNodup_cons] at hnodup
    rw [currentAdj_cons]
    rcases mem_cons.mp he with rfl | hmem
    · exact if_pos rfl
    · rw [if_neg, ih hnodup.2 hmem]
      intro hkey
      exact hnodup.1 (hkey ▸ mem_map_of_mem hmem)

/-- **Adding to an adjustment** changes that one alone. -/
theorem currentAdj_addAdj : currentAdj (addAdj ns semid n d entries) ns' semid' n' =
    currentAdj entries ns' semid' n' + if (ns', semid', n') = (ns, semid, n) then d else 0 := by
  induction entries with
  | nil =>
    rw [addAdj, currentAdj_cons, currentAdj_nil, zero_add]
    exact if_congr eq_comm rfl rfl
  | cons e _ ih =>
    unfold addAdj
    by_cases he : e.isFor ns semid n = true
    · have hkey := isFor_iff.mp he
      rw [if_pos he, currentAdj_cons, currentAdj_cons]
      change (if e.key = _ then e.adj + d else _) = _
      by_cases h : (ns', semid', n') = (ns, semid, n)
      · rw [if_pos h, h, hkey, if_pos rfl, if_pos rfl]
      · rw [if_neg h, hkey, if_neg (Ne.symm h), if_neg (Ne.symm h), add_zero]
    · rw [if_neg he, currentAdj_cons, currentAdj_cons, ih]
      by_cases hkey : e.key = (ns', semid', n')
      · rw [if_pos hkey, if_pos hkey, if_neg, add_zero]
        intro h
        exact he (isFor_iff.mpr (hkey.trans h))
      · rw [if_neg hkey, if_neg hkey]

theorem mem_keys_addAdj {k : Nat × Nat × Nat} : k ∈ (addAdj ns semid n d entries).map key ↔
      k ∈ entries.map key ∨ k = (ns, semid, n) := by
  induction entries with
  | nil => simp [addAdj, key]
  | cons _ _ ih =>
    unfold addAdj
    split
    · next he =>
      have hkey := isFor_iff.mp he
      simp only [map_cons, mem_cons]
      constructor
      · exact .inl
      · rintro (h | rfl)
        · exact h
        · exact .inl hkey.symm
    · rw [map_cons, mem_cons, ih, map_cons, mem_cons, or_assoc]

theorem KeysNodup.addAdj (h : KeysNodup entries) : KeysNodup (addAdj ns semid n d entries) := by
  induction entries with
  | nil => exact nodup_singleton _
  | cons _ _ ih =>
    unfold Ipc.addAdj
    rw [keysNodup_cons] at h
    split
    · exact keysNodup_cons.mpr h
    · next he =>
      refine keysNodup_cons.mpr ⟨?_, ih h.2⟩
      rw [mem_keys_addAdj, not_or]
      exact ⟨h.1, fun hc => he (isFor_iff.mpr hc)⟩

theorem KeysNodup.filter (h : KeysNodup entries) (p : SemUndoEntry → Bool) : KeysNodup (entries.filter p) :=
  h.sublist (filter_sublist.map _)

/-- **The second loop of `record_sem_undo`.** -/
theorem currentAdj_addAdjs :
    currentAdj (addAdjs ns semid start deltas entries) ns' semid' n' = currentAdj entries ns' semid' n' +
        if ns' = ns ∧ semid' = semid ∧ start ≤ n' then deltas.getD (n' - start) 0 else 0 := by
  induction deltas generalizing start entries with
  | nil => simp [addAdjs]
  | cons d _ ih =>
    have hhead : currentAdj (if d = 0 then entries else addAdj ns semid start d entries) ns' semid' n' =
        currentAdj entries ns' semid' n' + if (ns', semid', n') = (ns, semid, start) then d else 0 := by
      split
      · next h => rw [h, ite_self, add_zero]
      · exact currentAdj_addAdj
    rw [addAdjs, ih, hhead, add_assoc]
    congr 1
    by_cases hset : ns' = ns ∧ semid' = semid
    · rcases lt_trichotomy n' start with hlt | rfl | hgt
      · simp [Nat.not_le_of_lt hlt, Nat.not_le_of_lt (Nat.lt_succ_of_lt hlt), ne_of_lt hlt]
      · simp
      · obtain ⟨m, rfl⟩ := Nat.exists_eq_add_of_lt hgt
        have hsub : start + m + 1 - start = m + 1 := by omega
        simp [hsub, le_of_lt hgt, ne_of_gt hgt]
    · rw [if_neg fun h => hset ⟨by simp_all, by simp_all⟩, if_neg fun h => hset ⟨h.1, h.2.1⟩,
        if_neg fun h => hset ⟨h.1, h.2.1⟩, add_zero]

theorem KeysNodup.addAdjs (h : KeysNodup entries) : KeysNodup (addAdjs ns semid start deltas entries) := by
  induction deltas generalizing start entries with
  | nil => exact h
  | cons _ _ ih =>
    refine ih ?_
    split
    · exact h
    · exact h.addAdj

/-- Entries of zero do not matter. -/
theorem currentAdj_filter_ne_zero (h : KeysNodup entries) :
    currentAdj (entries.filter fun e => e.adj ≠ 0) ns semid n = currentAdj entries ns semid n := by
  induction entries with
  | nil => rfl
  | cons e _ ih =>
    rw [keysNodup_cons] at h
    rw [filter_cons]
    split
    · rw [currentAdj_cons, currentAdj_cons, ih h.2]
    next hne =>
    have hzero : e.adj = 0 := by simpa using hne
    rw [ih h.2, currentAdj_cons]
    split
    · next hkey => rw [currentAdj_eq_zero (hkey ▸ h.1), hzero]
    · rfl

/-- Removing entries by their semaphore clears these. -/
theorem currentAdj_filter_key (p : Nat × Nat × Nat → Bool) :
    currentAdj (entries.filter fun e => p e.key) ns semid n =
      if p (ns, semid, n) = true then currentAdj entries ns semid n else 0 := by
  induction entries with
  | nil => simp [currentAdj_nil]
  | cons e entries ih =>
    rw [filter_cons, @currentAdj_cons entries _ _ _ e]
    by_cases hkey : e.key = (ns, semid, n)
    · rw [if_pos hkey]
      by_cases hp : p e.key = true
      · rw [if_pos hp, currentAdj_cons, if_pos hkey, ← hkey, if_pos hp]
      · rw [if_neg hp, ih, ← hkey, if_neg hp, if_neg hp]
    · rw [if_neg hkey, ← ih]
      split
      · rw [currentAdj_cons, if_neg hkey]
      · rfl

end Entries

/-! ### Recording -/

/-- The adjustments of all processes are in range, and there is one for a semaphore at most. -/
structure UndosOk (undos : Nat → List SemUndoEntry) : Prop where
  nodup : ∀ pid, KeysNodup (undos pid)
  range : ∀ pid ns semid n, -semaem ≤ currentAdj (undos pid) ns semid n ∧
    currentAdj (undos pid) ns semid n ≤ semaem

section Recording

variable {undos undos' : Nat → List SemUndoEntry}

theorem undoInRange_getD (h : undoInRange entries ns semid deltas = true)
    {n : Nat} : deltas.getD n 0 = 0 ∨ (-semaem ≤ currentAdj entries ns semid n + deltas.getD n 0 ∧
      currentAdj entries ns semid n + deltas.getD n 0 ≤ semaem) := by
  cases hd : deltas[n]? with
  | none => exact .inl (by rw [getD_eq_getElem?_getD, hd]; rfl)
  | some d =>
    rw [getD_eq_getElem?_getD, hd]
    unfold undoInRange at h
    rw [all_eq_true] at h
    have hmem : (d, n) ∈ deltas.zipIdx := mk_mem_zipIdx_iff_getElem?.mpr hd
    simpa using h (d, n) hmem

theorem UndosOk.update (h : UndosOk undos) (hnodup : KeysNodup entries)
    (hrange : ∀ ns semid n, -semaem ≤ currentAdj entries ns semid n ∧ currentAdj entries ns semid n ≤ semaem) :
    UndosOk (update undos pid entries) := by
  constructor
  · intro q
    rw [update_apply]
    split
    · exact hnodup
    · exact h.nodup q
  · intro q
    rw [update_apply]
    split
    · exact hrange
    · exact h.range q

/-- **`record_sem_undo`** adds the numbers it is given, and keeps the adjustments in range. -/
theorem recordSemUndo_spec (hok : UndosOk undos) (h : recordSemUndo undos pid ns semid deltas = .ok undos') :
    UndosOk undos' ∧ (∀ q, q ≠ pid → undos' q = undos q) ∧
      ∀ ns' semid' n, currentAdj (undos' pid) ns' semid' n = currentAdj (undos pid) ns' semid' n +
        if ns' = ns ∧ semid' = semid then deltas.getD n 0 else 0 := by
  unfold recordSemUndo at h
  split at h
  · next hall =>
    cases h
    refine ⟨hok, fun _ _ => rfl, fun ns' semid' n => ?_⟩
    have hzero : deltas.getD n 0 = 0 := by
      rw [getD_eq_getElem?_getD]
      cases hd : deltas[n]? with
      | none => rfl
      | some d => simpa using all_eq_true.mp hall d (mem_of_getElem? hd)
    rw [hzero, ite_self, add_zero]
  split at h
  · cases h
  next hrange =>
  cases h
  have hadj ns' semid' n :
      currentAdj ((addAdjs ns semid 0 deltas (undos pid)).filter fun e => e.adj ≠ 0) ns' semid' n =
      currentAdj (undos pid) ns' semid' n + if ns' = ns ∧ semid' = semid then deltas.getD n 0 else 0 := by
    rw [currentAdj_filter_ne_zero (hok.nodup pid).addAdjs, currentAdj_addAdjs]
    simp
  refine ⟨hok.update ((hok.nodup pid).addAdjs.filter _) fun ns' semid' n => ?_,
    fun q hq => update_of_ne hq .., fun ns' semid' n => ?_⟩
  · rw [hadj]
    split
    · next heq =>
      obtain ⟨rfl, rfl⟩ := heq
      rcases undoInRange_getD (by simpa using hrange) with hz | hr
      · rw [hz, add_zero]
        exact hok.range pid _ _ n
      · exact hr
    · rw [add_zero]
      exact hok.range pid ns' semid' n
  · rw [update_self]
    exact hadj ns' semid' n

/-- Clearing by semaphore. -/
theorem UndosOk.clear (hok : UndosOk undos) (p : Nat × Nat × Nat → Bool) :
    UndosOk (fun pid => (undos pid).filter fun e => p e.key) := by
  refine ⟨fun pid => (hok.nodup pid).filter _, fun pid ns semid n => ?_⟩
  rw [currentAdj_filter_key]
  split
  · exact hok.range pid ns semid n
  · decide

end Recording

/-! ### The sums of a call -/

/-- The sums of the `SEM_UNDO` operations of an array fit in an `i32` at every point. -/
def Exact (ops : List SemBuf) : Prop :=
  ∀ k i, -2 ^ 31 ≤ -undoOn (ops.take k) i ∧ -undoOn (ops.take k) i ≤ 2 ^ 31 - 1

/-- **The sum of the `SEM_UNDO` operations** is what the trial collects, if it fits. -/
theorem tryOps_undoDelta {ops : List SemBuf} {acc acc' : SemAcc} {n : Nat} (hs : acc.Sized n)
    (hv : ValuesOk acc.value) (hops : ∀ op ∈ ops, op.num < n) (h : tryOps ops acc = .complete acc')
    {i : Nat} (hfit : ∀ k, -2 ^ 31 ≤ acc.undoDelta i - undoOn (ops.take k) i ∧
      acc.undoDelta i - undoOn (ops.take k) i ≤ 2 ^ 31 - 1) :
    acc'.undoDelta i = acc.undoDelta i - undoOn ops i := by
  induction ops generalizing acc with
  | nil =>
    obtain rfl := SemTrial.complete.inj h
    rw [undoOn_nil, sub_zero]
  | cons op ops ih =>
    unfold tryOps at h
    cases hop : tryOp op acc with
    | outOfRange | wouldBlock => simp [hop] at h
    | complete mid =>
    simp only [hop] at h
    obtain ⟨hs', ht⟩ := tryOp_complete hs hv (hops op (.head _)) hop
    -- the first operation alone does not saturate
    have hmid : mid.undoDelta i = acc.undoDelta i - if op.num = i ∧ op.undo = true then op.delta else 0 := by
      have h1 := hfit 1
      rw [take_succ_cons, take_zero, undoOn_cons, undoOn_nil] at h1
      rw [ht.undoDelta]
      by_cases hi : op.num = i ∧ op.undo = true
      · rw [if_pos hi] at h1 ⊢
        by_cases hz : op.delta = 0
        · rw [if_neg fun hc => hc.2.2 hz, hz, sub_zero]
        · rw [if_pos ⟨hi.1, hi.2, hz⟩, satAdd32_eq (by omega) (by omega), ← sub_eq_add_neg]
      · rw [if_neg hi, if_neg fun hc => hi ⟨hc.1, hc.2.1⟩, sub_zero]
    have hrest k : mid.undoDelta i - undoOn (ops.take k) i =
        acc.undoDelta i - undoOn ((op :: ops).take (k + 1)) i := by
      rw [hmid, take_succ_cons, undoOn_cons, sub_sub]
    rw [ih hs' (ht.valuesOk hv) (fun o ho => hops o (.tail _ ho)) h
      fun k => by rw [hrest]; exact hfit (k + 1), hmid, undoOn_cons, sub_sub]

/-- Arrays of ordinary length are exact: the default limit is 500 operations. -/
theorem exact_of_length {ops : List SemBuf} (h : ops.length ≤ 2 ^ 16 - 1) : Exact ops := by
  have hsum (l : List SemBuf) i : -(2 ^ 15 * l.length : Int) ≤ -undoOn l i ∧ -undoOn l i ≤
      (2 ^ 15 * l.length : Int) := by
    induction l with
    | nil => simp [undoOn_nil]
    | cons op =>
      have hb := op.delta_bounds
      rw [undoOn_cons, length_cons]
      split <;> omega
  intro k i
  have hk := hsum (ops.take k) i
  have hlen : (ops.take k).length ≤ ops.length := (take_sublist k ops).length_le
  omega

/-! ### Semaphores that exist -/

/-- There is a semaphore `n` in the set. -/
def Present (st : SemState) (ns semid n : Nat) : Prop :=
  ∃ set, st.set? ns semid = some set ∧ n < set.sems.length

section Shape

variable {set set' : SemSet}

theorem present_congr (h : st'.set? ns semid = st.set? ns semid) :
    Present st' ns semid n ↔ Present st ns semid n := by
  rw [Present, h, Present]

theorem present_putSet (hset : st.set? ns semid = some set) (hlen : set'.sems.length = set.sems.length)
    (ns' semid' n : Nat) : Present (st.putSet ns semid set') ns' semid' n ↔ Present st ns' semid' n := by
  unfold Present
  rw [SemState.set?_putSet]
  split
  · next heq =>
    obtain ⟨rfl, rfl⟩ := heq
    constructor
    · rintro ⟨s, hs, hn⟩
      cases hs
      exact ⟨set, hset, hlen ▸ hn⟩
    · rintro ⟨s, hs, hn⟩
      obtain rfl := Option.some.inj (hset.symm.trans hs)
      exact ⟨set', rfl, hlen.symm ▸ hn⟩
  · rfl

end Shape

/-! ### The exit of a process -/

/-- A value is clamped to the range of semaphores. -/
def clampVal (x : Int) : Int := max 0 (min x semvmx)

theorem clampVal_range {x : Int} : 0 ≤ clampVal x ∧ clampVal x ≤ semvmx := by
  have hvmx : semvmx = 32767 := rfl
  unfold clampVal
  omega

theorem clampVal_eq {x : Int} (h : 0 ≤ x ∧ x ≤ semvmx) : clampVal x = x := by
  unfold clampVal
  omega

/-- The semaphores of `st'` are those of `st`, with the values moved by `adj` and clamped. -/
def Adjusted (adj : Nat → Nat → Nat → Int) (st st' : SemState) : Prop :=
  ∀ ns semid, match st.set? ns semid with
    | none => st'.set? ns semid = none
    | some set => ∃ set', st'.set? ns semid = some set' ∧ set'.sems.length = set.sems.length ∧
        ∀ (i : Nat) (sem : SemEntry), set.sems[i]? = some sem →
          ∃ sem', set'.sems[i]? = some sem' ∧ sem'.val = clampVal (sem.val + adj ns semid i)

section Exit

variable {st'' : SemState} {adj adj' : Nat → Nat → Nat → Int}

theorem Adjusted.present (h : Adjusted adj st st') (ns semid n : Nat) :
    Present st' ns semid n ↔ Present st ns semid n := by
  have hns := h ns semid
  unfold Present
  cases hset : st.set? ns semid with
  | none =>
    rw [hset] at hns
    rw [show st'.set? ns semid = none from hns]
  | some =>
    rw [hset] at hns
    obtain ⟨_, hset', hlen, -⟩ := hns
    rw [hset']
    simp [hlen]

/-- Values that are in range stay where they are without an adjustment. -/
theorem Adjusted.refl (hok : st.ValuesOk) : Adjusted (fun _ _ _ => 0) st st := by
  intro ns semid
  cases hset : st.set? ns semid with
  | none => rfl
  | some set =>
    refine ⟨set, rfl, rfl, fun i sem hsem => ⟨sem, hsem, ?_⟩⟩
    rw [add_zero, clampVal_eq (hok ns semid set hset sem (mem_of_getElem? hsem))]

/-- Adjustments of different semaphores add up. -/
theorem Adjusted.trans (h : Adjusted adj st st') (h' : Adjusted adj' st' st'') (hok : st.ValuesOk)
    (hapart : ∀ ns semid i, adj ns semid i = 0 ∨ adj' ns semid i = 0) :
    Adjusted (fun ns semid i => adj ns semid i + adj' ns semid i) st st'' := by
  intro ns semid
  have hns := h ns semid
  have hns' := h' ns semid
  cases hset : st.set? ns semid with
  | none =>
    rw [hset] at hns
    rwa [show st'.set? ns semid = none from hns] at hns'
  | some set =>
    rw [hset] at hns
    obtain ⟨_, hset', hlen, hsems⟩ := hns
    rw [hset'] at hns'
    obtain ⟨set'', hset'', hlen', hsems'⟩ := hns'
    refine ⟨set'', hset'', hlen'.trans hlen, fun i sem hsem => ?_⟩
    obtain ⟨sem', hsem', hval⟩ := hsems i sem hsem
    obtain ⟨sem'', hsem'', hval'⟩ := hsems' i sem' hsem'
    refine ⟨sem'', hsem'', ?_⟩
    have hrange := hok ns semid set hset sem (mem_of_getElem? hsem)
    rw [hval', hval]
    rcases hapart ns semid i with hz | hz <;> dsimp only <;> rw [hz]
    · rw [add_zero, clampVal_eq hrange, zero_add]
    · rw [add_zero, add_zero, clampVal_eq (clampVal_range)]

theorem Adjusted.congr (h : Adjusted adj st st') (heq : ∀ ns semid i, adj ns semid i = adj' ns semid i) :
    Adjusted adj' st st' := by
  obtain rfl : adj = adj' := funext₃ heq
  exact h

/-- **One adjustment** of `exit_cleanup`. -/
theorem applyUndo_adjusted {acc r : SemState × List TaskId} {e : SemUndoEntry} (hok : acc.1.ValuesOk)
    (hcase : ApplyUndoCase pid acc e r) (hadj : -semaem ≤ e.adj ∧ e.adj ≤ semaem) :
    r.1.undos = acc.1.undos ∧ Adjusted (currentAdj [e]) acc.1 r.1 := by
  have hvmx : semvmx = 32767 := rfl
  have haem : semaem = 32767 := rfl
  have hsat : ∀ v : Int, 0 ≤ v ∧ v ≤ semvmx → satAdd32 v e.adj = v + e.adj :=
    fun _ _ => satAdd32_eq (by omega) (by omega)
  cases hcase with
  | skipped hskip =>
    refine ⟨rfl, fun ns semid => ?_⟩
    cases hset : acc.1.set? ns semid with
    | none => rfl
    | some set =>
    refine ⟨set, rfl, rfl, fun i sem hsem => ⟨sem, hsem, ?_⟩⟩
    have hrange := hok ns semid set hset sem (mem_of_getElem? hsem)
    rw [currentAdj_cons, currentAdj_nil]
    split
    · next hkey =>
      obtain ⟨rfl, rfl, rfl⟩ : e.ipcNsId = ns ∧ e.semid = semid ∧ e.semnum = i := by
        simpa [key] using hkey
      have h := hskip set hset sem hsem
      rw [hsat _ hrange] at h
      exact h.symm
    · rw [add_zero, clampVal_eq hrange]
  | @adjusted set sem sem' now hset hsem hsem' =>
    have hval : (wakeSemWaiters sem').1.val = clampVal (sem.val + e.adj) := by
      rw [(@wakeSemWaiters_fst sem').1, hsem', ← hsat _ (hok _ _ set hset sem (mem_of_getElem? hsem))]
      rfl
    refine ⟨rfl, fun ns semid => ?_⟩
    by_cases hns : ns = e.ipcNsId ∧ semid = e.semid
    · obtain ⟨rfl, rfl⟩ := hns
      rw [hset]
      refine ⟨_, SemState.set?_putSet_self, length_set .., fun i s hs => ?_⟩
      change ∃ s', (set.sems.set e.semnum (wakeSemWaiters sem').1)[i]? = some s' ∧ _
      rw [getElem?_set]
      by_cases hi : e.semnum = i
      · subst hi
        obtain rfl := Option.some.inj (hsem.symm.trans hs)
        rw [if_pos rfl, if_pos (getElem?_eq_some_iff.mp hsem).1]
        refine ⟨_, rfl, ?_⟩
        rw [hval, currentAdj_cons, if_pos]
        rfl
      · rw [if_neg hi, hs]
        refine ⟨s, rfl, ?_⟩
        rw [currentAdj_cons, if_neg (by simp [key, hi]), currentAdj_nil, add_zero,
          clampVal_eq (hok _ _ set hset s (mem_of_getElem? hs))]
    · have hget : (acc.1.putSet e.ipcNsId e.semid
          { set.putSem e.semnum (wakeSemWaiters sem').1 with otime := now }).set? ns semid =
          acc.1.set? ns semid := by
        rw [SemState.set?_putSet, if_neg hns]
      rw [hget]
      cases hs : acc.1.set? ns semid with
      | none => rfl
      | some s =>
        refine ⟨s, rfl, rfl, fun i sem hsem => ⟨sem, hsem, ?_⟩⟩
        rw [currentAdj_cons, if_neg (by rintro h; exact hns (by simp_all [key])), currentAdj_nil, add_zero,
          clampVal_eq (hok _ _ s hs sem (mem_of_getElem? hsem))]

/-- **The loop of `exit_cleanup`** applies each adjustment once. -/
theorem foldl_applyUndo {now : Int} {acc : SemState × List TaskId} (hok : acc.1.ValuesOk)
    (hnodup : KeysNodup entries) (hrange : ∀ e ∈ entries, -semaem ≤ e.adj ∧ e.adj ≤ semaem) :
    (entries.foldl (applyUndo pid now) acc).1.undos = acc.1.undos ∧
      (entries.foldl (applyUndo pid now) acc).1.ValuesOk ∧
      Adjusted (currentAdj entries) acc.1 (entries.foldl (applyUndo pid now) acc).1 := by
  induction entries generalizing acc with
  | nil => exact ⟨rfl, hok, Adjusted.refl hok⟩
  | cons e _ ih =>
    rw [keysNodup_cons] at hnodup
    have hcase := @applyUndo_cases pid now e acc
    obtain ⟨hundos, hadj⟩ := applyUndo_adjusted hok hcase (hrange e (.head _))
    obtain ⟨hundos', hok'', hadj'⟩ := ih (hok.applyUndo hcase) hnodup.2 fun e' he' => hrange e' (.tail _ he')
    refine ⟨hundos'.trans hundos, hok'', ?_⟩
    refine (hadj.trans hadj' hok fun ns semid i => ?_).congr fun ns semid i => ?_
    · by_cases hkey : e.key = (ns, semid, i)
      · exact .inr (currentAdj_eq_zero (hkey ▸ hnodup.1))
      · exact .inl (by rw [currentAdj_cons, if_neg hkey, currentAdj_nil])
    · rw [currentAdj_cons, currentAdj_cons]
      split
      · next hkey => rw [currentAdj_eq_zero (hkey ▸ hnodup.1), add_zero]
      · exact zero_add _

end Exit

end HitOS.Ipc
