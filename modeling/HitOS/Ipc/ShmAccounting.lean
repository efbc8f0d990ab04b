import HitOS.Ipc.Shm
import HitOS.Lib.Reachable

/-!
# Accounting of attached shared memory

A segment's `nattch` is to be the number of its attaches, over all address spaces. `Balanced`
compares what a segment says with that number: a segment that is not there has none, and one marked
for removal at least one. Releases and inheritance are described by what they do to that comparison
(`Balanced.releaseAll`, `Balanced.forkInherit`).

An operation changes the records of one address space and the counts of segments. `ShmInv.ofLocal`
reduces the invariant of a whole state to that address space.

The cleanup in `exit`, `exec` and the rollback of `fork` needs the last handle, while the control
block of the task has another one. Then nothing is released, and the records are lost with the last
handle: `leaked_attach`. As long as no address space goes away with records, and the counter of
attaches has not wrapped, the accounts are right: `shm_attach_accounting`.
-/

namespace HitOS.Ipc

open List OrdMap ShmAttach ShmState ShmManagers

/-! ### What a segment says -/

/-- The number of attaches a segment says it has, and whether it is marked for removal. -/
def tally (managers : ShmManagers) (q : ShmAttachRef) : Option (Nat × Bool) :=
  (managers.segment? q).map fun seg => (seg.nattch, seg.markedForDeletion)

/-- What a segment says agrees with the number `n` of its attaches. -/
def Balanced : Option (Nat × Bool) → Nat → Prop
  | none, n => n = 0
  | some (nattch, marked), n => nattch = n ∧ ¬ (marked = true ∧ nattch = 0)

variable {managers : ShmManagers} {q : ShmAttachRef} {l : List ShmAttach} {refs : List ShmAttachRef}
  {st st' : ShmState} {id mmId pid : Nat} {mm : ShmMm} {task : TaskId}

section Segments

variable {q' : ShmAttachRef} {seg : ShmSegment} {n : Nat} {gone : Prop} {toRemove : List ShmAttachRef}

theorem ShmManagers.segment?_putSegment :
    (managers.putSegment q seg).segment? q' = if q' = q then some seg else managers.segment? q' := by
  obtain ⟨ns, _⟩ := q
  obtain ⟨ns', _⟩ := q'
  unfold segment? putSegment
  by_cases hns : ns' = ns
  · subst hns
    simp [get?_insert]
  · simp [hns]

theorem ShmManagers.segment?_removeSegment :
    (managers.removeSegment q).segment? q' = if q' = q then none else managers.segment? q' := by
  obtain ⟨ns, shmid⟩ := q
  obtain ⟨ns', shmid'⟩ := q'
  unfold segment? removeSegment
  cases hseg : (managers ns).segments.get? shmid with
  | none =>
    by_cases h : ns' = ns ∧ shmid' = shmid
    · obtain ⟨rfl, rfl⟩ := h
      simp [hseg]
    · rw [if_neg (by simpa using h)]
  | some =>
    by_cases hns : ns' = ns
    · subst hns
      simp [get?_erase]
    · simp [hns]

theorem tally_putSegment : tally (managers.putSegment q seg) q' =
      if q' = q then some (seg.nattch, seg.markedForDeletion) else tally managers q' := by
  rw [tally, segment?_putSegment]
  split <;> rfl

theorem tally_removeSegment : tally (managers.removeSegment q) q' = if q' = q then none
  else tally managers q' := by
  rw [tally, segment?_removeSegment]
  split <;> rfl

theorem tally_eq_some (h : managers.segment? q = some seg) :
    tally managers q = some (seg.nattch, seg.markedForDeletion) := by
  rw [tally, h]
  rfl

theorem tally_eq_none (h : managers.segment? q = none) : tally managers q = none := by
  rw [tally, h]
  rfl

/-- A segment is written back, or removed if it is marked and has no attach. -/
theorem balanced_putOrRemove [Decidable gone] (hn : seg.nattch = n)
    (hgone : gone ↔ seg.markedForDeletion = true ∧ seg.nattch = 0) :
    Balanced (tally (if gone then (managers.putSegment q seg).removeSegment q
      else managers.putSegment q seg) q) n := by
  split
  · next h =>
    rw [tally_removeSegment, if_pos rfl]
    exact hn.symm.trans (hgone.mp h).2
  · next h =>
    rw [tally_putSegment, if_pos rfl]
    exact ⟨hn, fun hz => h (hgone.mpr hz)⟩

/-- Other segments are not concerned. -/
theorem tally_putOrRemove_of_ne [Decidable gone] (h : q' ≠ q) :
    tally (if gone then (managers.putSegment q seg).removeSegment q else managers.putSegment q seg) q' =
      tally managers q' := by
  split
  · rw [tally_removeSegment, if_neg h, tally_putSegment, if_neg h]
  · rw [tally_putSegment, if_neg h]

/-! ### Inheriting and releasing -/

/-- **`fork_inherit`** counts every accounted record. -/
theorem tally_forkInherit : tally (managers.forkInherit l) q =
    (tally managers q).map fun t => (t.1 + accountedOn q l, t.2) := by
  induction l generalizing managers with
  | nil => simp [forkInherit, accountedOn]
  | cons a l ih =>
    have hone : tally (managers.inheritOne a) q = (tally managers q).map fun t =>
        (t.1 + if a.accounted = true ∧ a.ref = q then 1 else 0, t.2) := by
      unfold inheritOne
      by_cases hacc : a.accounted = true
      · rw [if_pos hacc]
        by_cases hq : a.ref = q
        · subst hq
          cases hseg : managers.segment? a.ref with
          | none => simp [tally_eq_none hseg]
          | some => simp [tally_putSegment, tally_eq_some hseg, hacc]
        · have hne : ¬ q = a.ref := fun h => hq h.symm
          cases hseg : managers.segment? a.ref with
          | none => simp [hq]
          | some => simp [tally_putSegment, hne, hq]
      · simp [hacc]
    rw [forkInherit, foldl_cons, ← forkInherit, ih, hone, Option.map_map, accountedOn_cons]
    congr 1
    funext t
    simp only [Function.comp_apply, Prod.mk.injEq, and_true]
    omega

/-- The child's attaches are counted, provided those of the parent were. -/
theorem Balanced.forkInherit (h : Balanced (tally managers q) n)
    (hl : accountedOn q l ≤ n) : Balanced (tally (managers.forkInherit l) q) (n + accountedOn q l) := by
  rw [tally_forkInherit]
  cases ht : tally managers q with
  | none =>
    rw [ht] at h
    have hn : n = 0 := h
    change n + accountedOn q l = 0
    omega
  | some =>
    rw [ht] at h
    obtain ⟨hn, hmark⟩ := h
    refine ⟨congrArg (· + accountedOn q l) hn, fun hz => hmark ⟨hz.1, ?_⟩⟩
    exact Nat.eq_zero_of_add_eq_zero_right hz.2

section Release

variable (touch : ShmSegment → ShmSegment)
  (htouch : ∀ seg, (touch seg).nattch = seg.nattch ∧
  (touch seg).markedForDeletion = seg.markedForDeletion)

include htouch

/-- What the loop over the accounts has done: `count` of them were for the segment, which is to be
removed if it is marked and has no attach left. -/
theorem releaseOne_foldl :
    tally (refs.foldl (releaseOne touch) (managers, toRemove)).1 q =
        (tally managers q).map (fun t => (t.1 - refs.count q, t.2)) ∧
      (q ∈ (refs.foldl (releaseOne touch) (managers, toRemove)).2 ↔
        q ∈ toRemove ∨ ∃ n, tally managers q = some (n, true) ∧ n ≤ refs.count q ∧ 0 < refs.count q) := by
  induction refs generalizing managers toRemove with
  | nil => simp
  | cons p refs ih =>
    rw [foldl_cons]
    cases hseg : managers.segment? p with
    | none =>
      have hone : releaseOne touch (managers, toRemove) p = (managers, toRemove) := by
        simp only [releaseOne, hseg]
      rw [hone]
      obtain ⟨ht, hmem⟩ := @ih managers toRemove
      by_cases hq : p = q
      · -- a segment that is not there says nothing before and after
        subst hq
        rw [ht, hmem, tally_eq_none hseg]
        simp
      · rw [ht, hmem, count_cons_of_ne hq]
        exact ⟨rfl, Iff.rfl⟩
    | some seg =>
      obtain ⟨hn, hm⟩ := htouch { seg with nattch := seg.nattch - 1 }
      obtain ⟨ht, hmem⟩ := @ih (managers.putSegment p (touch { seg with nattch := seg.nattch - 1 }))
        (if seg.markedForDeletion && seg.nattch - 1 == 0 then toRemove ++ [p] else toRemove)
      have hone : releaseOne touch (managers, toRemove) p =
          (managers.putSegment p (touch { seg with nattch := seg.nattch - 1 }),
            if seg.markedForDeletion && seg.nattch - 1 == 0 then toRemove ++ [p] else toRemove) := by
        simp only [releaseOne, hseg]
      rw [hone, ht, hmem, tally_putSegment]
      by_cases hq : p = q
      · subst hq
        rw [if_pos rfl, hn, hm, tally_eq_some hseg, count_cons_self]
        refine ⟨?_, ?_⟩
        · simp only [Option.map_some, Option.some.injEq, Prod.mk.injEq, and_true]
          omega
        cases hmark : seg.markedForDeletion with
        | false => simp
        | true =>
        by_cases hz : seg.nattch - 1 = 0
        · have hle : seg.nattch ≤ refs.count p + 1 := by omega
          simp [hz, hle]
        simp only [hz, Bool.true_and, beq_iff_eq, Option.some.injEq, Prod.mk.injEq, and_true, exists_eq_left']
        exact or_congr_right (by omega)
      · have hne : ¬ q = p := fun h => hq h.symm
        rw [if_neg hne, count_cons_of_ne hq]
        refine ⟨rfl, ?_⟩
        split
        · simp [hne]
        · exact Iff.rfl

omit htouch in
theorem tally_foldl_removeSegment :
    tally (refs.foldl removeSegment managers) q = if q ∈ refs then none else tally managers q := by
  induction refs generalizing managers with
  | nil => simp
  | cons p refs ih =>
    rw [foldl_cons, ih, tally_removeSegment]
    by_cases hmem : q ∈ refs
    · simp [hmem]
    · by_cases hq : q = p <;> simp [hmem, hq]

/-- **Releasing accounts** leaves the right number, and removes a marked segment with its last
attach. -/
theorem Balanced.releaseAll (h : Balanced (tally managers q) (n + refs.count q)) :
    Balanced (tally (managers.releaseAll touch refs) q) n := by
  obtain ⟨ht, hmem⟩ := @releaseOne_foldl managers q refs [] touch htouch
  unfold ShmManagers.releaseAll
  rw [tally_foldl_removeSegment]
  cases htally : tally managers q with
  | none =>
    rw [htally] at h ht
    have hz : n + refs.count q = 0 := h
    have hn : n = 0 := by omega
    split
    · exact hn
    · rwa [ht]
  | some t =>
    obtain ⟨nattch, marked⟩ := t
    rw [htally] at h ht hmem
    obtain ⟨hn, hmark⟩ := h
    split
    · next hin =>
      -- the segment goes, so no attach may be left
      rcases hmem.mp hin with hnil | ⟨m, hm, hle, -⟩
      · cases hnil
      · cases hm
        change n = 0
        omega
    · next hout =>
      rw [ht]
      refine ⟨?_, ?_⟩
      · omega
      rintro ⟨hmarked, hz⟩
      have hm : marked = true := hmarked
      subst hm
      by_cases hcount : 0 < refs.count q
      · exact hout (hmem.mpr (.inr ⟨nattch, rfl, by omega, hcount⟩))
      · exact hmark ⟨rfl, by omega⟩

end Release

theorem count_accounted_refs : ((l.filter accounted).map ref).count q = accountedOn q l := by
  rw [count, countP_map, countP_filter]
  refine countP_congr fun a _ => ?_
  simp [and_comm]

/-- **`rollback_fork_inherit`**, which is the cleanup at exit too. -/
theorem Balanced.rollbackForkInherit (h : Balanced (tally managers q) (n + accountedOn q l)) :
    Balanced (tally (managers.rollbackForkInherit l) q) n := by
  refine releaseAll id (fun _ => ⟨rfl, rfl⟩) ?_
  rwa [count_accounted_refs]

/-- **`release_detached_attach_refs`**. -/
theorem Balanced.releaseDetached {pid : Nat} {now : Int} (h : Balanced (tally managers q) (n + refs.count q)) :
    Balanced (tally (managers.releaseDetachedAttachRefs pid now refs) q) n := by
  exact releaseAll (fun seg => { seg with dtime := now, lpid := pid }) (fun seg => ⟨rfl, rfl⟩) h

end Segments

/-! ### The invariant -/

namespace ShmState

/-- The accounted records for a segment, in all address spaces but one. -/
def others (st : ShmState) (id : Nat) (q : ShmAttachRef) : Nat :=
  (st.mms.erase id).sumBy fun mm => accountedOn q mm.attaches

/-- The accounted records for a segment, in all address spaces. -/
def total (st : ShmState) (q : ShmAttachRef) : Nat := st.mms.sumBy fun mm => accountedOn q mm.attaches

theorem total_eq {q : ShmAttachRef} : st.total q = st.others id q + accountedOn q (st.records id) := by
  rw [total, sumBy_eq_erase_add _]
  unfold others records
  cases st.mms.get? id <;> rfl

theorem records_eq {mm : ShmMm} (h : st.mms.get? id = some mm) : st.records id = mm.attaches := by
  rw [records, h]
  rfl

end ShmState

/-- The accounts are right. -/
structure ShmInv (st : ShmState) : Prop where
  /-- In every address space, every attach has exactly one accounted record. -/
  attaches : ∀ id, AttachesOk (st.records id)
  counter : st.nextAttachId ≤ usizeMax
  /-- Unless the counter has wrapped, the next identifier is new. -/
  fresh : st.nextAttachId ≠ 0 → ∀ id, ∀ a ∈ st.records id, a.attachId < st.nextAttachId
  /-- Every segment says how many attaches it has. -/
  balanced : ∀ q, Balanced (tally st.managers q) (st.total q)

theorem shmInv_boot : ShmInv boot := by
  constructor
  · intro id
    exact attachesOk_nil
  · decide
  · nofun
  · intro q
    rfl

section Local

/-- **One address space at a time.** The others are as before, so the invariant is kept if the one
that changes keeps its part of it. -/
theorem ShmInv.ofLocal (h : ShmInv st) (hother : st'.mms.erase id = st.mms.erase id)
    (hok : AttachesOk (st'.records id)) (hcounter : st'.nextAttachId ≤ usizeMax)
    (hnext : st'.nextAttachId ≠ 0 → st.nextAttachId ≠ 0 ∧ st.nextAttachId ≤ st'.nextAttachId)
    (hfresh : st'.nextAttachId ≠ 0 → ∀ a ∈ st'.records id, a.attachId < st'.nextAttachId)
    (hbal : ∀ q, Balanced (tally st.managers q) (st.others id q + accountedOn q (st.records id)) →
      Balanced (tally st'.managers q) (st.others id q + accountedOn q (st'.records id))) :
    ShmInv st' := by
  have hsame i (hi : i ≠ id) : st'.records i = st.records i := by
    have hget := congrArg (·.get? i) hother
    simp only [get?_erase, if_neg hi] at hget
    rw [records, records, hget]
  constructor
  · intro i
    by_cases hi : i = id
    · exact hi ▸ hok
    · exact hsame i hi ▸ h.attaches i
  · exact hcounter
  · intro hne i
    by_cases hi : i = id
    · exact hi ▸ hfresh hne
    · obtain ⟨hne', hle⟩ := hnext hne
      rw [hsame i hi]
      exact fun a ha => lt_of_lt_of_le (h.fresh hne' i a ha) hle
  · intro q
    have hrest : st'.others id q = st.others id q := by rw [others, others, hother]
    rw [@total_eq st' id, hrest]
    refine hbal q ?_
    rw [← total_eq]
    exact h.balanced q

/-- The same, for an operation that makes no new attach: its records come from those there were. -/
theorem ShmInv.ofRecords (h : ShmInv st) (hother : st'.mms.erase id = st.mms.erase id)
    (hcounter : st'.nextAttachId = st.nextAttachId) (hok : AttachesOk (st'.records id))
    (hfrom : From (st'.records id) (st.records id))
    (hbal : ∀ q n, Balanced (tally st.managers q) (n + accountedOn q (st.records id)) →
      Balanced (tally st'.managers q) (n + accountedOn q (st'.records id))) : ShmInv st' := by
  refine h.ofLocal hother hok (hcounter ▸ h.counter) ?_ ?_ fun q => hbal q _
  · rw [hcounter]
    exact fun hne => ⟨hne, le_rfl⟩
  · rw [hcounter]
    intro hne a ha
    obtain ⟨b, hb, hid, -⟩ := hfrom a ha
    exact hid ▸ h.fresh hne id b hb

/-- Only segments change. -/
theorem ShmInv.ofManagers (h : ShmInv st) {managers : ShmManagers}
    (hbal : ∀ q n, Balanced (tally st.managers q) n → Balanced (tally managers q) n) :
    ShmInv { st with managers := managers } :=
  ⟨h.attaches, h.counter, h.fresh, fun q => hbal q _ (h.balanced q)⟩

end Local

/-! ### Operations on the records of one address space -/

section Operations

variable {childMm ns key size shmid shmaddr len addr newAddr newLen child : Nat} {mm' : ShmMm} {l' : List ShmAttach}
  {cred : Cred} {now : Int} {done : Bool} {taken : Option (List ShmAttach)}

theorem get?_putHandles {i : Nat} : (st.putHandles id mm).mms.get? i =
      if i = id then (if mm.strongCount = 0 then none else some mm) else st.mms.get? i := by
  unfold putHandles
  split
  · rw [get?_erase]
  · rw [get?_insert]

theorem mms_cleanup : (st.cleanup taken).mms = st.mms := by
  cases taken <;> rfl

/-- An address space gets other records, and segments are told. -/
theorem ShmInv.insertMm (h : ShmInv st) (hmm : st.mms.get? id = some mm)
    (hok : AttachesOk mm'.attaches) (hfrom : From mm'.attaches mm.attaches)
    (hbal : ∀ q n, Balanced (tally st.managers q) (n + accountedOn q mm.attaches) →
      Balanced (tally managers q) (n + accountedOn q mm'.attaches)) :
    ShmInv { st with managers := managers, mms := st.mms.insert id mm' } := by
  have hnew : records { st with managers := managers, mms := st.mms.insert id mm' } id =
      mm'.attaches := records_eq get?_insert_self
  refine h.ofRecords erase_insert_self rfl ?_ ?_ ?_
  · rwa [hnew]
  · rwa [hnew, records_eq hmm]
  · rwa [hnew, records_eq hmm]

theorem ShmInv.ok (h : ShmInv st) (hmm : st.mms.get? id = some mm) : AttachesOk mm.attaches :=
  records_eq hmm ▸ h.attaches id

/-- A range is detached, and what is left of the records is rearranged without touching accounts. -/
theorem ShmInv.detach (h : ShmInv st) (hmm : st.mms.get? id = some mm)
    (hd : detachAttachesOverlapping mm.attaches addr len = some (l, refs))
    (hl' : AttachesOk l → AttachesOk l' ∧ From l' l ∧ ∀ q, accountedOn q l' = accountedOn q l) :
    ShmInv { st.putAttaches id l' with
      managers := st.managers.releaseDetachedAttachRefs pid now refs } := by
  obtain ⟨hok, hfrom, hcount⟩ := detachAttachesOverlapping_spec (h.ok hmm) hd
  obtain ⟨hok', hfrom', hcount'⟩ := hl' hok
  unfold putAttaches
  rw [hmm]
  refine h.insertMm hmm hok' (hfrom'.trans hfrom) fun _ _ _ => ?_
  refine Balanced.releaseDetached ?_
  rwa [hcount', add_assoc, hcount]

theorem moveAttach_spec (h : AttachesOk l)
    (hm : (if shmid = 0 then some l else moveAttach l shmid addr len newAddr newLen) = some l') :
    AttachesOk l' ∧ From l' l ∧ ∀ q, accountedOn q l' = accountedOn q l := by
  split at hm
  · cases hm
    exact ⟨h, from_refl, fun _ => rfl⟩
  · unfold moveAttach at hm
    split at hm
    · cases hm
    · exact splitMremapAttach_spec h hm

theorem ShmInv.mapFixed (h : ShmInv st) : ShmInv (mapFixed st mmId pid addr len done now) := by
  unfold Ipc.mapFixed
  iterate 3
    split
    · exact h
  next hmm _ _ _ hd _ =>
  exact h.detach hmm hd fun hok => ⟨hok, from_refl, fun _ => rfl⟩

theorem ShmInv.mremapFixed (h : ShmInv st) :
    ShmInv (mremapFixed st mmId pid shmid addr len newAddr done now) := by
  unfold Ipc.mremapFixed
  iterate 6
    split
    · exact h
  next hmm _ _ _ _ _ hd _ _ hl' _ =>
  exact h.detach hmm hd fun hok => moveAttach_spec hok hl'

theorem ShmInv.mremapResize (h : ShmInv st) :
    ShmInv (mremapResize st mmId shmid addr len newAddr newLen done) := by
  unfold Ipc.mremapResize
  iterate 3
    split
    · exact h
  next hmm _ l hl _ =>
  obtain ⟨hok, hfrom, hcount⟩ := moveAttach_spec (h.ok hmm) hl
  unfold putAttaches
  rw [hmm]
  refine h.insertMm hmm hok hfrom fun _ _ _ => ?_
  rwa [hcount]

/-- **`shmdt`** releases the account of a record unless another one took it over. -/
theorem ShmInv.shmdt (h : ShmInv st) : ShmInv (shmdt st mmId pid shmaddr now).1 := by
  unfold Ipc.shmdt
  split
  · exact h
  split
  · exact h
  next mm hmm =>
  split
  · exact h
  next a transferred rest hr =>
  obtain ⟨hok, hfrom, hcount⟩ := removeSysvShmAttach_spec (h.ok hmm) hr
  dsimp only
  split
  · next hseg =>
    refine h.insertMm hmm hok hfrom fun q n hbal => ?_
    rw [← hcount q] at hbal
    by_cases hq : a.ref = q
    · -- no segment, so there was nothing to release
      subst hq
      rw [tally_eq_none hseg] at hbal ⊢
      have hz : n + (accountedOn a.ref rest + _) = 0 := hbal
      change n + accountedOn a.ref rest = 0
      omega
    · rwa [if_neg fun hc => hq hc.2.2] at hbal
  next seg hseg =>
  generalize hnattch : (if a.accounted && !transferred then seg.nattch - 1 else seg.nattch) = nattch
  generalize hseg' : ({ seg with nattch := nattch, dtime := now, lpid := pid } : ShmSegment) = seg'
  have hgone : (seg.markedForDeletion && nattch == 0) = true ↔ seg'.markedForDeletion = true ∧
    seg'.nattch = 0 := by
    rw [← hseg', Bool.and_eq_true, beq_iff_eq]
  have hstep q n (hbal : Balanced (tally st.managers q) (n + accountedOn q mm.attaches)) :
      Balanced (tally (if (seg.markedForDeletion && nattch == 0) = true then
      (st.managers.putSegment a.ref seg').removeSegment a.ref else st.managers.putSegment a.ref seg') q)
      (n + accountedOn q rest) := by
    rw [← hcount q] at hbal
    by_cases hq : q = a.ref
    · -- one account less if the record had it and no other record took it over
      subst hq
      rw [tally_eq_some hseg] at hbal
      have hn : seg.nattch = n + (accountedOn a.ref rest + _) := hbal.1
      refine balanced_putOrRemove ?_ hgone
      rw [← hseg', ← hnattch]
      cases hacc : a.accounted <;> cases transferred <;> simp [hacc] at hn ⊢ <;> omega
    · rw [if_neg fun hc => hq hc.2.2.symm] at hbal
      rwa [tally_putOrRemove_of_ne hq]
  have hres := @ShmInv.insertMm _ _ _ _ { mm with attaches := rest } h hmm hok hfrom hstep
  split
  · next hc => rwa [if_pos hc] at hres
  · next hc => rwa [if_neg hc] at hres

/-- A new attach has an identifier that no record has, and its own account. -/
theorem AttachesOk.attach {a : ShmAttach} (h : AttachesOk l)
    (hnew : ∀ b ∈ l, b.attachId ≠ a.attachId) (hacc : a.accounted = true) : AttachesOk (l ++ [a]) := by
  have howing : Owing l [(a.attachId, a.ref)] := by
    constructor
    · exact fun b hb => .inl ((h.accounted b hb).resolve_right not_mem_nil)
    · refine nodup_append.mpr ⟨h.once.of_append_left, nodup_singleton _, ?_⟩
      intro _ hk _ hk' heq
      obtain ⟨b, hb, hid⟩ := mem_map.mp hk
      rw [map_singleton, mem_singleton] at hk'
      exact hnew b (mem_filter.mp hb).1 (hid.trans (heq.trans hk'))
    · exact h.target
    · intro p hp b hb hid
      rw [mem_singleton.mp hp] at hid
      exact absurd hid (hnew b hb)
  exact (howing.restore rfl rfl hacc).perm (perm_append_singleton a l).symm (Perm.refl _)

variable (h : ShmInv st)

include h

/-- **`shmat`**, with `SHM_REMAP` or without: one attach more on its segment, and the attaches
released that it replaces. -/
theorem ShmInv.shmat {flags : ShmatFlags} {env : ShmatEnv} (hnext : st.nextAttachId ≠ 0) :
    ShmInv (shmat st mmId ns cred shmid shmaddr flags env).1 := by
  unfold Ipc.shmat
  dsimp only
  split
  · exact h
  split
  swap
  · exact h
  next seg mm hseg hmm =>
  iterate 8
    split
    · exact h
  next start _ _ _ _ _ _ l refs hd _ =>
  -- what is left of the records before the new one is added
  have hleft : AttachesOk l ∧ From l mm.attaches ∧
      ∀ q, accountedOn q l + refs.count q = accountedOn q mm.attaches := by
    split at hd
    · exact detachAttachesOverlapping_spec (h.ok hmm) hd
    · cases hd
      exact ⟨h.ok hmm, from_refl, fun _ => rfl⟩
  obtain ⟨hok, hfrom, hcount⟩ := hleft
  have hid : max st.nextAttachId 1 = st.nextAttachId := by omega
  rw [hid]
  have hbound b (hb : b ∈ l) : b.attachId < st.nextAttachId := by
    obtain ⟨c, hc, hcid, -⟩ := hfrom b hb
    exact hcid ▸ h.fresh hnext mmId c (by rwa [records_eq hmm])
  have hwrap (hne : wrapAdd st.nextAttachId 1 ≠ 0) : wrapAdd st.nextAttachId 1 = st.nextAttachId + 1 := by
    by_cases hlt : st.nextAttachId + 1 ≤ usizeMax
    · exact wrapAdd_of_le hlt
    · have heq : st.nextAttachId = usizeMax := by have := h.counter; omega
      rw [heq] at hne
      exact absurd (by decide) hne
  generalize hattach : (⟨ns, start, shmid, shmAlignUp seg.size, st.nextAttachId, true⟩ : ShmAttach) = attach
  have hattachId : attach.attachId = st.nextAttachId := by rw [← hattach]
  have hacc : attach.accounted = true := by rw [← hattach]
  have href : attach.ref = ⟨ns, shmid⟩ := by rw [← hattach]; rfl
  have hnew : AttachesOk (l ++ [attach]) := hok.attach (fun b hb => hattachId ▸ ne_of_lt (hbound b hb)) hacc
  refine h.ofLocal (erase_insert_self (k := mmId)) ?_ ?_ ?_ ?_ ?_
  · rwa [records_eq get?_insert_self]
  · exact Nat.le_of_lt_succ (Nat.mod_lt _ (Nat.succ_pos _))
  · intro hne
    exact ⟨hnext, hwrap hne ▸ Nat.le_succ _⟩
  · intro hne b hb
    rw [records_eq get?_insert_self] at hb
    rw [hwrap hne]
    rcases mem_append.mp hb with hb | hb
    · exact Nat.lt_succ_of_lt (hbound b hb)
    · rw [mem_singleton.mp hb, hattachId]
      exact Nat.lt_succ_self _
  · intro q hbal
    rw [records_eq hmm, ← hcount q] at hbal
    rw [records_eq get?_insert_self]
    refine Balanced.releaseDetached ?_
    rw [accountedOn_append, accountedOn_cons, hacc, href, tally_putSegment]
    by_cases hq : q = ⟨ns, shmid⟩
    · subst hq
      rw [tally_eq_some hseg] at hbal
      obtain ⟨hn, -⟩ := hbal
      rw [if_pos rfl]
      refine ⟨?_, fun hz => absurd hz.2 (Nat.succ_ne_zero _)⟩
      simp only [true_and, if_true, accountedOn, countP_nil]
      simp only [accountedOn] at hn
      omega
    · have hne : ¬ (⟨ns, shmid⟩ : ShmAttachRef) = q := fun hc => hq hc.symm
      rw [if_neg hq]
      simpa [hne, accountedOn, add_assoc] using hbal

/-! ### Operations on segments -/

/-- **`shmget`**: a new segment has no attach, and its identifier was not in use. -/
theorem ShmInv.shmget {limits : ShmLimits} {flags : ShmgetFlags} {available : List Nat} : ShmInv { st with
      managers := (shmget st.managers limits ns cred key size flags available now).1 } := by
  refine h.ofManagers fun q n hbal => ?_
  obtain ⟨ns', shmid⟩ := q
  unfold Ipc.shmget
  dsimp only
  split
  · exact hbal
  split
  · iterate 4
      split
      · exact hbal
    exact hbal
  iterate 4
    split
    · exact hbal
  -- from here on an identifier has been taken
  by_cases hns : ns' = ns
  swap
  · split <;> simpa [tally, segment?, hns] using hbal
  subst hns
  split
  · simpa [tally, segment?, ShmManager.allocId] using hbal
  generalize hid : (st.managers ns').allocId.2 = id
  by_cases hshmid : shmid = id
  · -- nobody had attached what was not there
    have hsize : (st.managers ns').segments.size ≤ usizeMax := by
      have hmni : limits.shmmni ≤ 4096 := limits.shmmni_mem.2
      have hmax : 4096 ≤ usizeMax := by decide
      omega
    have hunused : (st.managers ns').segments.get? id = none := by
      rw [← hid]
      exact nextFree_unused _ _ hsize
    subst hshmid
    have hnone : tally st.managers ⟨ns', shmid⟩ = none := tally_eq_none hunused
    rw [hnone] at hbal
    have hn : n = 0 := hbal
    subst hn
    simp [tally, segment?, Balanced]
  · simpa [tally, segment?, get?_insert, hshmid, ShmManager.allocId] using hbal

/-- **`shmctl`**: a segment that is removed at once had no attach. -/
theorem ShmInv.shmctl {cmd : ShmCmd} :
    ShmInv { st with managers := (shmctl st.managers ns cred shmid cmd now).1 } := by
  refine h.ofManagers fun q n hbal => ?_
  unfold Ipc.shmctl
  dsimp only
  split
  · exact hbal
  next seg hseg =>
  -- a change that leaves the count and the mark alone
  have hkeep : ∀ seg' : ShmSegment, seg'.nattch = seg.nattch → seg'.markedForDeletion = seg.markedForDeletion →
      Balanced (tally (st.managers.putSegment ⟨ns, shmid⟩ seg') q) n := by
    intro _ hn hm
    rw [tally_putSegment]
    split
    · next hq => rwa [hn, hm, ← tally_eq_some hseg, ← hq]
    · exact hbal
  split
  · exact hbal
  cases cmd with
  | ipcRmid =>
    by_cases hq : q = ⟨ns, shmid⟩
    · subst hq
      rw [tally_eq_some hseg] at hbal
      exact balanced_putOrRemove hbal.1 ⟨fun hz => ⟨rfl, hz⟩, fun hz => hz.2⟩
    · rwa [tally_putOrRemove_of_ne hq]
  | ipcSet ds =>
    cases ds with
    | none => exact hbal
    | some => exact hkeep _ rfl rfl
  | shmLock | shmUnlock => exact hkeep _ rfl rfl

/-! ### Processes and tasks -/

/-- **A new address space**, with the records it begins with. -/
theorem ShmInv.addMm (hnone : st.mms.get? id = none) (hok : AttachesOk mm.attaches)
    (hfresh : st.nextAttachId ≠ 0 → ∀ a ∈ mm.attaches, a.attachId < st.nextAttachId)
    (hbal : ∀ q, Balanced (tally st.managers q) (st.others id q) →
      Balanced (tally managers q) (st.others id q + accountedOn q mm.attaches)) :
    ShmInv { st with managers := managers, mms := st.mms.insert id mm } := by
  have hold : st.records id = [] := by rw [records, hnone]; rfl
  have hnew : records { st with managers := managers, mms := st.mms.insert id mm } id = mm.attaches :=
    records_eq get?_insert_self
  refine h.ofLocal (erase_insert_self (k := id)) ?_ h.counter (fun hne => ⟨hne, le_rfl⟩) ?_ ?_
  · rwa [hnew]
  · rwa [hnew]
  · rwa [hnew, hold]

/-- An address space without records is added. -/
theorem ShmInv.start (hnone : st.mms.get? id = none) (hmm : mm.attaches = []) :
    ShmInv { st with mms := st.mms.insert id mm } := by
  refine h.addMm hnone ?_ ?_ ?_ <;> rw [hmm]
  · exact attachesOk_nil
  · exact nofun
  · exact fun _ hbal => hbal

theorem ShmInv.startProcess : ShmInv (startProcess st mmId pid task) := by
  unfold Ipc.startProcess
  split
  · exact h
  · next hnone => exact h.start hnone rfl

/-- **`fork`** counts the child's attaches. -/
theorem ShmInv.fork : ShmInv (fork st mmId childMm child task done) := by
  unfold Ipc.fork
  split
  swap
  · exact h
  next mm hmm hnone =>
  have hne : mmId ≠ childMm := by
    rintro rfl
    rw [hmm] at hnone
    cases hnone
  -- the parent is among the other address spaces
  have hle q : accountedOn q mm.attaches ≤ st.others childMm q := by
    rw [others, sumBy_eq_erase_add _, get?_erase, if_neg hne, hmm]
    exact Nat.le_add_left ..
  split
  · exact h.addMm hnone attachesOk_nil nofun
      fun q hbal => Balanced.rollbackForkInherit (Balanced.forkInherit hbal (hle q))
  · have hok := h.ok hmm
    refine h.addMm hnone hok (fun hne a ha => ?_) fun q hbal => Balanced.forkInherit hbal (hle q)
    exact h.fresh hne mmId a (by rwa [records_eq hmm])

/-- Handles come and go. The records stay with the address space, or were taken out to be
released. -/
theorem ShmInv.handles (hmm : st.mms.get? id = some mm)
    (hcase : (taken = none ∧ mm'.attaches = mm.attaches) ∨ (taken = some mm.attaches ∧ mm'.attaches = []))
    (hkeep : mm.attaches ≠ [] → ((st.putHandles id mm').cleanup taken).mms.get? id ≠ none) :
    ShmInv ((st.putHandles id mm').cleanup taken) := by
  rw [mms_cleanup, get?_putHandles, if_pos rfl] at hkeep
  have hrec (hlast : mm'.strongCount = 0 → mm'.attaches = []) :
      ((st.putHandles id mm').cleanup taken).records id = mm'.attaches := by
    rw [records, mms_cleanup, get?_putHandles, if_pos rfl]
    split
    · next hz =>
      rw [hlast hz]
      rfl
    · rfl
  have hother : ((st.putHandles id mm').cleanup taken).mms.erase id = st.mms.erase id := by
    rw [mms_cleanup]
    unfold putHandles
    split
    · exact erase_erase_self
    · exact erase_insert_self
  rcases hcase with ⟨rfl, hsame⟩ | ⟨rfl, hnil⟩
  · have hlast (hz : mm'.strongCount = 0) : mm'.attaches = [] := by
      by_contra hne
      exact hkeep (hsame ▸ hne) (if_pos hz)
    refine h.ofRecords hother rfl ?_ ?_ ?_ <;> rw [hrec hlast, hsame]
    · exact h.ok hmm
    · exact records_eq hmm ▸ from_refl
    · exact records_eq hmm ▸ fun _ _ hbal => hbal
  · refine h.ofRecords hother rfl ?_ ?_ ?_ <;> rw [hrec fun _ => hnil, hnil]
    · exact attachesOk_nil
    · exact from_of_subset (nil_subset _)
    · rw [records_eq hmm]
      exact fun q n hbal => Balanced.rollbackForkInherit hbal

end Operations

/-! ### Runs -/

/-- A system call, or a step in the life of a process. -/
inductive ShmAct where
  | shmget (limits : ShmLimits) (ns : Nat) (cred : Cred) (key size : Nat) (flags : ShmgetFlags)
      (available : List Nat) (now : Int)
  | shmat (mmId ns : Nat) (cred : Cred) (shmid shmaddr : Nat) (flags : ShmatFlags) (env : ShmatEnv)
  | shmdt (mmId pid shmaddr : Nat) (now : Int)
  | shmctl (ns : Nat) (cred : Cred) (shmid : Nat) (cmd : ShmCmd) (now : Int)
  | mapFixed (mmId pid start len : Nat) (inserted : Bool) (now : Int)
  | mremapFixed (mmId pid shmid oldAddr len newAddr : Nat) (moved : Bool) (now : Int)
  | mremapResize (mmId shmid oldAddr oldLen newAddr newLen : Nat) (resized : Bool)
  | startProcess (mmId pid : Nat) (task : TaskId)
  | fork (mmId childMm child : Nat) (task : TaskId) (newIpc : Bool)
  | share (mmId : Nat) (child : Option Nat) (task : TaskId)
  | rollbackUnstartedChild (mmId : Nat)
  | exec (mmId newMm pid : Nat) (task : TaskId)
  | exitProcess (mmId pid : Nat)
  | dropTask (mmId : Nat) (task : TaskId)
  | dropProcess (mmId pid : Nat)
  | dropHandle (mmId : Nat)

def ShmAct.apply (st : ShmState) : ShmAct → ShmState
  | .shmget limits ns cred key size flags available now =>
    { st with managers := (Ipc.shmget st.managers limits ns cred key size flags available now).1 }
  | .shmat mmId ns cred shmid shmaddr flags env =>
    (Ipc.shmat st mmId ns cred shmid shmaddr flags env).1
  | .shmdt mmId pid shmaddr now => (Ipc.shmdt st mmId pid shmaddr now).1
  | .shmctl ns cred shmid cmd now =>
    { st with managers := (Ipc.shmctl st.managers ns cred shmid cmd now).1 }
  | .mapFixed mmId pid start len inserted now => Ipc.mapFixed st mmId pid start len inserted now
  | .mremapFixed mmId pid shmid oldAddr len newAddr moved now =>
    Ipc.mremapFixed st mmId pid shmid oldAddr len newAddr moved now
  | .mremapResize mmId shmid oldAddr oldLen newAddr newLen resized =>
    Ipc.mremapResize st mmId shmid oldAddr oldLen newAddr newLen resized
  | .startProcess mmId pid task => Ipc.startProcess st mmId pid task
  | .fork mmId childMm child task newIpc => Ipc.fork st mmId childMm child task newIpc
  | .share mmId child task => Ipc.share st mmId child task
  | .rollbackUnstartedChild mmId => Ipc.rollbackUnstartedChild st mmId
  | .exec mmId newMm pid task => Ipc.exec st mmId newMm pid task
  | .exitProcess mmId pid => Ipc.exitProcess st mmId pid
  | .dropTask mmId task => Ipc.dropTask st mmId task
  | .dropProcess mmId pid => Ipc.dropProcess st mmId pid
  | .dropHandle mmId => Ipc.dropHandle st mmId

/-- Any step. -/
def ShmStep (st st' : ShmState) : Prop := ∃ act : ShmAct, st' = act.apply st

/-- No address space goes away while it has records. -/
def KeepsRecords (st st' : ShmState) : Prop :=
  ∀ id mm, st.mms.get? id = some mm → mm.attaches ≠ [] → st'.mms.get? id ≠ none

/-- A step that drops no address space with records, and takes no identifier from a counter that has
wrapped. -/
def CarefulShmStep (st st' : ShmState) : Prop :=
  ∃ act : ShmAct, st' = act.apply st ∧ KeepsRecords st st' ∧ match act with
    | .shmat .. => st.nextAttachId ≠ 0
    | _ => True

section Runs

variable {newMm : Nat} {seen : ShmMm} {f : ShmMm → ShmMm}

section

variable (h : ShmInv st)

include h

/-- A change of handles that leaves the records alone. -/
theorem ShmInv.changeHandles (hst : st' = match st.mms.get? id with
      | none => st
      | some mm => st.putHandles id (f mm)) (hf : ∀ mm, (f mm).attaches = mm.attaches)
    (hkeep : KeepsRecords st st') : ShmInv st' := by
  subst hst
  cases hmm : st.mms.get? id with
  | none => exact h
  | some mm =>
    rw [hmm] at hkeep
    exact h.handles hmm (.inl ⟨rfl, hf mm⟩) (hkeep id mm hmm)

/-- The cleanup by a holder of a handle, who sees `seen` and changes handles by `f` after it has
looked. -/
theorem ShmInv.takeForCleanup {extra : Nat} (hmm : st.mms.get? id = some mm)
    (hseen : seen.attaches = mm.attaches) (hf : ∀ m, (f m).attaches = m.attaches)
    (hkeep : mm.attaches ≠ [] → ((st.putHandles id (f (seen.takeForCleanup extra).1)).cleanup
      (seen.takeForCleanup extra).2).mms.get? id ≠ none) :
    ShmInv ((st.putHandles id (f (seen.takeForCleanup extra).1)).cleanup (seen.takeForCleanup extra).2) := by
  refine h.handles hmm ?_ hkeep
  unfold ShmMm.takeForCleanup
  split
  · refine .inr ⟨congrArg some hseen, ?_⟩
    rw [hf]
  · exact .inl ⟨rfl, (hf _).trans hseen⟩

theorem ShmInv.rollbackUnstartedChild (hkeep : KeepsRecords st (rollbackUnstartedChild st mmId)) :
    ShmInv (rollbackUnstartedChild st mmId) := by
  unfold Ipc.rollbackUnstartedChild at hkeep ⊢
  cases hmm : st.mms.get? mmId with
  | none => exact h
  | some mm =>
    rw [hmm] at hkeep
    exact @ShmInv.takeForCleanup _ _ _ _ id h _ hmm rfl (fun _ => rfl) (hkeep mmId mm hmm)

theorem ShmInv.exitProcess (hkeep : KeepsRecords st (exitProcess st mmId pid)) :
    ShmInv (exitProcess st mmId pid) := by
  unfold Ipc.exitProcess at hkeep ⊢
  cases hmm : st.mms.get? mmId with
  | none => exact h
  | some mm =>
  rw [hmm] at hkeep
  dsimp only at hkeep ⊢
  split_ifs at hkeep ⊢ with hmem
  · exact @ShmInv.takeForCleanup _ _ _
      { mm with procs := mm.procs.erase pid, temps := mm.temps + 1 } id h 0 hmm rfl (fun _ => rfl) (hkeep mmId mm hmm)
  · exact h

theorem ShmInv.exec (hkeep : KeepsRecords st (exec st mmId newMm pid task)) :
    ShmInv (exec st mmId newMm pid task) := by
  unfold Ipc.exec at hkeep ⊢
  cases hmm : st.mms.get? mmId with
  | none => exact h
  | some mm =>
  cases hnew : st.mms.get? newMm with
  | some => exact h
  | none =>
  rw [hmm, hnew] at hkeep
  dsimp only at hkeep ⊢
  split_ifs at hkeep ⊢ with hmem
  swap
  · exact h
  have hne : mmId ≠ newMm := by
    rintro rfl
    rw [hmm] at hnew
    cases hnew
  -- first the old address space, then the new one
  have hold := @ShmInv.takeForCleanup _ _ _ mm
    (fun m => { m with procs := m.procs.erase pid, tasks := m.tasks.erase task }) h 1 hmm rfl (fun _ => rfl)
    fun hrec hz => hkeep mmId mm hmm hrec (by
      rw [mms_cleanup] at hz ⊢
      rwa [get?_insert, if_neg hne])
  have hres := @ShmInv.start _ newMm ⟨[], [pid], [task], 0⟩ hold (by
    rw [mms_cleanup, get?_putHandles, if_neg hne.symm]
    exact hnew) rfl
  revert hres
  cases (mm.takeForCleanup 1).2 <;> exact fun hres => hres

/-- **A careful step keeps the accounts right.** -/
theorem ShmInv.step (hstep : CarefulShmStep st st') : ShmInv st' := by
  obtain ⟨act, rfl, hkeep, hcond⟩ := hstep
  cases act with
  | shmget => exact h.shmget
  | shmat => exact h.shmat hcond
  | shmdt => exact h.shmdt
  | shmctl => exact h.shmctl
  | mapFixed => exact h.mapFixed
  | mremapFixed => exact h.mremapFixed
  | mremapResize => exact h.mremapResize
  | startProcess => exact h.startProcess
  | fork => exact h.fork
  | rollbackUnstartedChild => exact h.rollbackUnstartedChild hkeep
  | exec => exact h.exec hkeep
  | exitProcess => exact h.exitProcess hkeep
  | share | dropTask | dropProcess | dropHandle => exact h.changeHandles rfl (fun _ => rfl) hkeep

end

/-! ### Address spaces and attaches -/

/-- The address spaces and attaches there are records of, for a segment. -/
def attachPairs (st : ShmState) (q : ShmAttachRef) : Finset (Nat × Nat) :=
  (st.mms.entries.flatMap fun e =>
    (e.2.attaches.filter fun a => a.ref = q).map fun a => (e.1, a.attachId)).toFinset

/-- The same, by the accounted records only. -/
def accountedPairs (st : ShmState) (q : ShmAttachRef) : List (Nat × Nat) :=
  st.mms.entries.flatMap fun e =>
    (e.2.attaches.filter fun a => a.accounted && a.ref == q).map fun a => (e.1, a.attachId)

theorem length_accountedPairs : (accountedPairs st q).length = st.total q := by
  rw [accountedPairs, length_flatMap, total, sumBy, values, map_map]
  congr 1
  refine map_congr_left fun e _ => ?_
  rw [length_map, ← countP_eq_length_filter]
  rfl

theorem ShmInv.ok_of_mem (h : ShmInv st) {e : Nat × ShmMm} (he : e ∈ st.mms.entries) :
    AttachesOk e.2.attaches :=
  h.ok (get?_eq_some_iff.mpr he)

theorem ShmInv.nodup_accountedPairs (h : ShmInv st) : (accountedPairs st q).Nodup := by
  refine nodup_flatMap.mpr ⟨fun e he => ?_, ?_⟩
  · -- one account for each attach
    have honce := (h.ok_of_mem he).once.of_append_left
    have hsub : (e.2.attaches.filter fun a => a.accounted && a.ref == q).Sublist
      (e.2.attaches.filter accounted) := by
      refine monotone_filter_right _ fun a ha => ?_
      exact (Bool.and_eq_true _ _ ▸ ha).1
    have hids := honce.sublist (hsub.map attachId)
    refine Nodup.of_map Prod.snd ?_
    rwa [map_map]
  · -- different address spaces
    refine st.mms.sorted.imp fun {e e'} hlt p hp hp' => ?_
    obtain ⟨a, -, rfl⟩ := mem_map.mp hp
    obtain ⟨b, -, heq⟩ := mem_map.mp hp'
    exact absurd (congrArg Prod.fst heq).symm hlt.ne

/-- Every attach is found by its accounted record. -/
theorem ShmInv.toFinset_accountedPairs (h : ShmInv st) :
    (accountedPairs st q).toFinset = attachPairs st q := by
  ext p
  rw [mem_toFinset, attachPairs, mem_toFinset, accountedPairs, mem_flatMap, mem_flatMap]
  constructor
  · rintro ⟨e, he, hp⟩
    obtain ⟨a, ha, rfl⟩ := mem_map.mp hp
    obtain ⟨ha, hacc⟩ := mem_filter.mp ha
    rw [Bool.and_eq_true, beq_iff_eq] at hacc
    exact ⟨e, he, mem_map.mpr ⟨a, mem_filter.mpr ⟨ha, decide_eq_true hacc.2⟩, rfl⟩⟩
  · rintro ⟨e, he, hp⟩
    obtain ⟨a, ha, rfl⟩ := mem_map.mp hp
    obtain ⟨ha, href⟩ := mem_filter.mp ha
    obtain ⟨b, hb, hid, hacc⟩ := ((h.ok_of_mem he).accounted a ha).resolve_right not_mem_nil
    have hbref : b.ref = q := ((h.ok_of_mem he).target b hb a ha hid).trans (of_decide_eq_true href)
    refine ⟨e, he, mem_map.mpr ⟨b, mem_filter.mpr ⟨hb, ?_⟩, by rw [hid]⟩⟩
    rw [Bool.and_eq_true, beq_iff_eq]
    exact ⟨hacc, hbref⟩

/-- One accounted record is all that a list with distinct identifiers has of an attach. -/
theorem AttachesOk.length_accounted (h : AttachesOk l) {a : ShmAttach}
    (ha : a ∈ l) : (l.filter fun b => b.attachId == a.attachId && b.accounted).length = 1 := by
  have hcount : ((l.filter accounted).map attachId).count a.attachId = 1 := by
    refine count_eq_one_of_mem h.once.of_append_left ?_
    obtain ⟨b, hb, hid, hacc⟩ := (h.accounted a ha).resolve_right not_mem_nil
    exact mem_map.mpr ⟨b, mem_filter.mpr ⟨hb, hacc⟩, hid⟩
  rw [← hcount, count, countP_map, countP_filter, ← countP_eq_length_filter]
  rfl

/-- **The accounts of attached shared memory.** In every run in which no address space goes away
with records, and no attach takes its identifier from a counter that has wrapped: every attach with
records left in an address space has exactly one that is accounted; `nattch` of a segment is the
number of pairs of an address space and an attach; and a segment that is marked for removal has an
attach. -/
theorem shm_attach_accounting (hr : Reachable (· = .boot) CarefulShmStep st) :
    (∀ id mm, st.mms.get? id = some mm → ∀ a ∈ mm.attaches,
      (mm.attaches.filter fun b => b.attachId == a.attachId && b.accounted).length = 1) ∧
    (∀ q seg, st.managers.segment? q = some seg → seg.nattch = (attachPairs st q).card) ∧
    ∀ q seg, st.managers.segment? q = some seg → ¬ (seg.markedForDeletion = true ∧ seg.nattch = 0) := by
  have hinv : ShmInv st := Reachable.invariant (fun s hs => hs ▸ shmInv_boot) (fun _ _ hi => hi.step) hr
  have hbal q seg (hseg : st.managers.segment? q = some seg) : seg.nattch = st.total q ∧
      ¬ (seg.markedForDeletion = true ∧ seg.nattch = 0) := by
    have hq := hinv.balanced q
    rwa [tally_eq_some hseg] at hq
  refine ⟨fun id mm hmm a ha => (hinv.ok hmm).length_accounted ha, fun q seg hseg => ?_,
    fun q seg hseg => (hbal q seg hseg).2⟩
  rw [← hinv.toFinset_accountedPairs, toFinset_card_of_nodup hinv.nodup_accountedPairs, length_accountedPairs]
  exact (hbal q seg hseg).1

theorem keepsRecords_of_entries (h : ∀ e ∈ st.mms.entries, st'.mms.get? e.1 ≠ none) : KeepsRecords st st' := by
  intro id mm hmm _
  exact h (id, mm) (get?_eq_some_iff.mp hmm)

/-- A segment of one page, with an identifier of its own. -/
def onePage : ShmAct := .shmget .default 0 ⟨0, 0, [], 2⟩ 0 4096 ⟨true, false, false, 0o600⟩ [7] 0

/-- Process 2 attaches the first segment to address space 1. -/
def attachFirst : ShmAct := .shmat 1 0 ⟨0, 0, [], 2⟩ 1 0 ⟨false, false, false⟩ ⟨some 0x20000, none, true, 0⟩

/-- A process attaches a segment and forks: there are two pairs, and `nattch` says so. -/
theorem shm_attach_accounting_attach : ∃ st, Reachable (· = .boot) CarefulShmStep st ∧
    ∃ seg, st.managers.segment? ⟨0, 1⟩ = some seg ∧ seg.nattch = 2 ∧
      seg.nattch = (attachPairs st ⟨0, 1⟩).card := by
  have hboot : Reachable (· = boot) CarefulShmStep _ := .start rfl
  have hstart := hboot.step ⟨.startProcess 1 2 2, rfl, keepsRecords_of_entries (by decide), trivial⟩
  have hget := hstart.step ⟨onePage, rfl, keepsRecords_of_entries (by decide +kernel), trivial⟩
  have hat := hget.step ⟨attachFirst, rfl, keepsRecords_of_entries (by decide +kernel), one_ne_zero⟩
  have hfork := hat.step ⟨.fork 1 3 4 4 false, rfl, keepsRecords_of_entries (by decide +kernel), trivial⟩
  exact ⟨_, hfork, _, rfl, rfl, (shm_attach_accounting hfork).2.1 _ _ rfl⟩

/-- **An attach that is never released.** The process exits while its task still has a handle, so
the cleanup gets no records. They are lost with the last handle: there is no address space any more,
and the segment, removed by `IPC_RMID`, stays with `nattch` 1. -/
theorem leaked_attach : ∃ st, Reachable (· = .boot) ShmStep st ∧ st.mms.entries = [] ∧
      ∃ seg, st.managers.segment? ⟨0, 1⟩ = some seg ∧ seg.nattch = 1 ∧ seg.markedForDeletion = true ∧
        (attachPairs st ⟨0, 1⟩).card = 0 := by
  have hboot : Reachable (· = boot) ShmStep _ := .start rfl
  have hstart := hboot.step ⟨.startProcess 1 2 2, rfl⟩
  have hget := hstart.step ⟨onePage, rfl⟩
  have hat := hget.step ⟨attachFirst, rfl⟩
  have hexit := hat.step ⟨.exitProcess 1 2, rfl⟩
  have hdrop := hexit.step ⟨.dropHandle 1, rfl⟩
  have hreaped := hdrop.step ⟨.dropTask 1 2, rfl⟩
  have hrmid := hreaped.step ⟨.shmctl 0 ⟨0, 0, [], 2⟩ 1 .ipcRmid 0, rfl⟩
  exact ⟨_, hrmid, by decide +kernel, _, rfl, rfl, rfl, by decide +kernel⟩

end Runs

end HitOS.Ipc
