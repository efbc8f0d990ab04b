import HitOS.Ipc.ShmAccounting
import HitOS.Ipc.ShmRanges
import HitOS.Mm.PageOps
import HitOS.Mm.RegionEffects
import HitOS.Syscall.Mmap

/-!
# What `shmdt` unmaps

The records of attached shared memory and the regions of an address space are kept apart, and
`shmdt` unmaps what the record says. It takes away nothing else if every address of a record is
mapped, for the segment of the record, and by the very attach it stands for, as the ghost owner of
the address tells.

The invariant `Matched` is one condition for every address (`Covered`), so a call keeps it if at
every address nothing changes or the condition is met anew (`Covered.update`). A call gives a range
to another mapping or to none (`Consistent.overlay`), to a new attach (`Consistent.attach`), or
moves it (`Consistent.moved`).

`munmap` and the ring of a packet socket at a fixed address do not trim the records. A run is
careful if they spare the ranges of records, if segments are attached below `2^39`, where
`VirtAddr::from` changes nothing, and if the two counters of identifiers do not wrap around.
-/

namespace HitOS

open Ipc VmRegionSet List Option MemorySet ShmState Bool Prod ShmSpace.MmapCall Nat Except

/-! ### Records and owners -/

/-- At every address there is at most one mark, and then the address belongs to its attach and is
mapped for its segment. -/
structure Covered (l : List ShmAttach) (owner : Nat → Option MapOwner)
    (view : Nat → Option (Nat × Bool)) : Prop where
  proper : ∀ a ∈ l, a.Proper
  marked : ∀ x, marks l x = [] ∨ ∃ m, marks l x = [m] ∧ owner x = some (.attach m.1) ∧
    view x = some (m.2, true)

variable {l l' : List ShmAttach} {owner : Nat → Option MapOwner} {view view' : Nat → Option (Nat × Bool)}
  {b start len mmId : Nat} {st st' : ShmSpace}

section Covered

variable {owner' : Nat → Option MapOwner} {a : ShmAttach} {x : Nat}

variable (h : Covered l owner view)

include h

/-- **What a record tells** about an address that it covers. -/
theorem Covered.of_mem (ha : a ∈ l) (hx : a.Covers x) :
    marks l x = [a.mark] ∧ owner x = some (.attach a.attachId) ∧
      view x = some (a.shmid, true) := by
  have hmem := mark_mem ha hx
  rcases h.marked x with hnil | ⟨m, hm, hown, hview⟩
  · rw [hnil] at hmem
    cases hmem
  · rw [hm, mem_singleton] at hmem
    subst hmem
    exact ⟨hm, hown, hview⟩

/-- What is not mapped has no record. -/
theorem Covered.marks_eq_nil (hx : view x = none) : marks l x = [] := by
  rcases h.marked x with hnil | ⟨m, -, -, hview⟩
  · exact hnil
  · rw [hx] at hview
    cases hview

/-- **The local rule.** At every address, nothing changes or the condition is met anew. -/
theorem Covered.update (hproper : ∀ a ∈ l', a.Proper)
    (hx : ∀ x, ((marks l' x).Perm (marks l x) ∧ owner' x = owner x ∧ view' x = view x) ∨
      marks l' x = [] ∨ ∃ m, marks l' x = [m] ∧ owner' x = some (.attach m.1) ∧
        view' x = some (m.2, true)) : Covered l' owner' view' := by
  refine ⟨hproper, fun x => ?_⟩
  rcases hx x with ⟨hperm, hown, hview⟩ | hnew
  · rw [hown, hview]
    rcases h.marked x with hnil | ⟨m, hm, hrest⟩
    · rw [hnil] at hperm
      exact .inl (perm_nil.mp hperm)
    · rw [hm] at hperm
      exact .inr ⟨m, perm_singleton.mp hperm, hrest⟩
  · exact hnew

/-- A range of one record is moved to where no other record is. -/
theorem Covered.moved {idx old oldLen new newLen : Nat} (hold : old % pageSize = 0 ∧ oldLen % pageSize = 0)
    (hnew : new % pageSize = 0 ∧ newLen % pageSize = 0 ∧ new + newLen < 2 ^ 39)
    (hfree : ∀ x, new ≤ x → x < new + newLen → ¬ (old ≤ x ∧ x < old + oldLen) → marks l x = [])
    (hs : splitMremapAttach l idx old oldLen new newLen = some l') :
    Covered l' (ownMoved owner old oldLen new newLen) (relocated view old oldLen new newLen) := by
  obtain ⟨a, rest, hget, hperm, hpos, hlo, hhi, hproper, hmarks⟩ :=
    splitMremapAttach_marks h.proper hold hnew hs
  have ha : a ∈ l := mem_of_getElem? hget
  have hin : ∀ x, old ≤ x → x < old + oldLen → a.Covers x := fun _ _ _ => ⟨by omega, by omega⟩
  have hsum x : (marks l x).Perm (marks [a] x ++ marks rest x) := by
    rw [← marks_cons]
    exact marks_perm hperm
  -- no other record covers an address of the old range
  have hrest x (h1 : old ≤ x) (h2 : x < old + oldLen) : marks rest x = [] := by
    have hlen := (hsum x).length_eq
    rw [(h.of_mem ha (hin x h1 h2)).1, marks_singleton, if_pos (hin x h1 h2)] at hlen
    exact length_eq_zero_iff.mp (by simpa using hlen)
  refine h.update hproper fun x => ?_
  have hx := hmarks x
  unfold ownMoved relocated
  by_cases hxnew : new ≤ x ∧ x < new + newLen
  · rw [if_pos hxnew] at hx ⊢
    rw [if_pos hxnew]
    have hothers : (if a.Covers x ∧ ¬ (old ≤ x ∧ x < old + oldLen) then [a.mark] else []) ++
      marks rest x = [] := by
      by_cases hxold : old ≤ x ∧ x < old + oldLen
      · rw [if_neg fun hc => hc.2 hxold, hrest x hxold.1 hxold.2]
        rfl
      have hnil := hsum x
      rw [hfree x hxnew.1 hxnew.2 hxold, nil_perm, append_eq_nil_iff, marks_singleton] at hnil
      have hcov : ¬ a.Covers x := by
        intro hc
        rw [if_pos hc] at hnil
        cases hnil.1
      rw [if_neg fun hc => hcov hc.1, hnil.2]
      rfl
    rw [hothers] at hx
    obtain ⟨-, hown, -⟩ := h.of_mem ha (hin (old + min (x - new) (oldLen - 1)) (by omega) (by omega))
    obtain ⟨-, -, hview⟩ := h.of_mem ha (hin old (by omega) (by omega))
    exact .inr (.inr ⟨a.mark, perm_singleton.mp hx, hown, hview⟩)
  · rw [if_neg hxnew, nil_append] at hx
    rw [if_neg hxnew, if_neg hxnew]
    by_cases hxold : old ≤ x ∧ x < old + oldLen
    · rw [if_neg fun hc => hc.2 hxold, hrest x hxold.1 hxold.2] at hx
      exact .inr (.inl (perm_nil.mp hx))
    rw [if_neg hxold, if_neg hxold]
    refine .inl ⟨hx.trans ?_, rfl, rfl⟩
    refine Perm.trans (Perm.of_eq ?_) (hsum x).symm
    rw [marks_singleton]
    congr 1
    exact if_congr (and_iff_left hxold) rfl rfl

end Covered

/-! ### Records without a range -/

/-- `l'` are the records `l` without the range `[a, b)`. -/
structure Trimmed (l l' : List ShmAttach) (a b : Nat) : Prop where
  proper : ∀ r ∈ l', r.Proper
  marked : ∀ x, (marks l' x).Perm (if a ≤ x ∧ x < b then [] else marks l x)

section Trimmed

variable {a : Nat}

theorem trimmed_of_detach {refs : List ShmAttachRef} (h : ∀ r ∈ l, r.Proper) (hstart : start % pageSize = 0)
    (hlen : len % pageSize = 0) (hd : detachAttachesOverlapping l start len = some (l', refs)) :
    Trimmed l l' start (start + len) :=
  ⟨(detachAttachesOverlapping_marks h hstart hlen hd).1, (detachAttachesOverlapping_marks h hstart hlen hd).2⟩

/-- There was nothing in the range. -/
theorem trimmed_of_nil (h : ∀ r ∈ l, r.Proper) (hnil : ∀ x, a ≤ x → x < b → marks l x = []) :
    Trimmed l l a b := by
  refine ⟨h, fun x => ?_⟩
  split
  · next hin => rw [hnil x hin.1 hin.2]
  · rfl

/-- No record covers an address of the range. -/
def Spares (l : List ShmAttach) (a b : Nat) : Prop := ∀ r ∈ l, ∀ x, r.Covers x → ¬ (a ≤ x ∧ x < b)

theorem Spares.trimmed (hs : Spares l a b) (h : ∀ r ∈ l, r.Proper) : Trimmed l l a b := by
  refine trimmed_of_nil h fun x h1 h2 => ?_
  unfold marks
  rw [map_eq_nil_iff, filter_eq_nil_iff]
  intro r hr hx
  exact hs r hr x (by simpa using hx) ⟨h1, h2⟩

end Trimmed

/-! ### The invariant -/

/-- Records, owners and segments fit together. `next` is the identifier of the next attach. -/
structure Consistent (l : List ShmAttach) (owner : Nat → Option MapOwner) (view : Nat → Option (Nat × Bool))
    (next : Nat) : Prop where
  covered : Covered l owner view
  /-- An address has an owner if it is mapped. -/
  mapped : ∀ x, owner x = none ↔ view x = none
  counter : 1 ≤ next
  /-- The next attach gets an identifier of its own. -/
  fresh : ∀ x i, owner x = some (.attach i) → i < next

section Consistent

variable {next next' a : Nat}

variable (h : Consistent l owner view next)

include h

theorem Consistent.congr (hview : ∀ x, view x = view' x) : Consistent l owner view' next := by
  obtain rfl : view = view' := funext hview
  exact h

theorem Consistent.mono (hle : next ≤ next') : Consistent l owner view next' :=
  ⟨h.covered, h.mapped, le_trans h.counter hle, fun x i hx => lt_of_lt_of_le (h.fresh x i hx) hle⟩

/-- **A range gets another owner**, and no record is left in it. -/
theorem Consistent.overlay (hl : Trimmed l l' a b) {o : Option MapOwner}
    {v : Option (Nat × Bool)} (hov : o = none ↔ v = none) (ho : ∀ i, o ≠ some (.attach i)) :
    Consistent l' (ownRange owner a b o) (fun x => if a ≤ x ∧ x < b then v else view x) next := by
  refine ⟨h.covered.update hl.proper fun x => ?_, fun x => ?_, h.counter, fun x i hx => ?_⟩
  · have hx := hl.marked x
    unfold ownRange
    split at hx
    · exact .inr (.inl (perm_nil.mp hx))
    · next hin =>
      rw [if_neg hin, if_neg hin]
      exact .inl ⟨hx, rfl, rfl⟩
  · unfold ownRange
    split_ifs with hin
    · exact hov
    · exact h.mapped x
  · unfold ownRange at hx
    split at hx
    · exact absurd hx (ho i)
    · exact h.fresh x i hx

/-- A range is unmapped. -/
theorem Consistent.unmapped (hl : Trimmed l l' a b) :
    Consistent l' (ownRange owner a b none) (fun x => if a ≤ x ∧ x < b then none else view x) next :=
  h.overlay hl (iff_of_true rfl rfl) nofun

/-- **A new attach** takes a range, with an identifier that no address has. -/
theorem Consistent.attach {r : ShmAttach} (hr : r.Proper)
    (hl : Trimmed l l' r.addr (r.addr + r.len)) (hid : r.attachId = next) :
    Consistent (l' ++ [r]) (ownRange owner r.addr (r.addr + r.len) (some (.attach r.attachId)))
      (fun x => if r.addr ≤ x ∧ x < r.addr + r.len then some (r.shmid, true) else view x) (next + 1) := by
  refine ⟨h.covered.update (fun a ha => ?_) fun x => ?_, fun x => ?_, by omega, fun x i hx => ?_⟩
  · rcases mem_append.mp ha with ha | ha
    · exact hl.proper a ha
    · exact mem_singleton.mp ha ▸ hr
  · have hx := hl.marked x
    unfold ownRange
    rw [marks_append, marks_singleton]
    split at hx
    · next hin =>
      have hcov : r.Covers x := hin
      rw [perm_nil.mp hx, if_pos hcov, if_pos hin, if_pos hin]
      exact .inr (.inr ⟨r.mark, rfl, rfl, rfl⟩)
    · next hin =>
      have hcov : ¬ r.Covers x := hin
      rw [if_neg hcov, if_neg hin, if_neg hin, append_nil]
      exact .inl ⟨hx, rfl, rfl⟩
  · unfold ownRange
    by_cases hin : r.addr ≤ x ∧ x < r.addr + r.len
    · rw [if_pos hin, if_pos hin]
      exact iff_of_false (some_ne_none _) (some_ne_none _)
    · rw [if_neg hin, if_neg hin]
      exact h.mapped x
  · unfold ownRange at hx
    split at hx
    · have := MapOwner.attach.inj (some.inj hx)
      omega
    · have := h.fresh x i hx
      omega

/-- **A range of one segment is moved** to where no other record is. The segment tells whether a
record is moved. -/
theorem Consistent.moved {shmid old len new newLen : Nat} {sh : Bool}
    (hlen : 0 < len) (hold : old % pageSize = 0 ∧ len % pageSize = 0)
    (hnew : new % pageSize = 0 ∧ newLen % pageSize = 0 ∧ new + newLen < 2 ^ 39)
    (hseg : ∀ x, old ≤ x → x < old + len → view x = some (shmid, sh))
    (hfree : ∀ x, new ≤ x → x < new + newLen → ¬ (old ≤ x ∧ x < old + len) → marks l x = [])
    (hm : ShmSpace.movedAttaches l shmid old len new newLen = .ok l') :
    Consistent l' (ownMoved owner old len new newLen) (relocated view old len new newLen) next := by
  refine ⟨?_, fun x => ?_, h.counter, fun x i hx => ?_⟩
  · unfold ShmSpace.movedAttaches at hm
    split at hm
    · next hz =>
      cases hm
      subst hz
      -- the records of the range would be for a segment
      have hnone x (h1 : old ≤ x) (h2 : x < old + len) : marks l x = [] := by
        rcases h.covered.marked x with hnil | ⟨m, hmark, -, hview⟩
        · exact hnil
        obtain ⟨a, ha, rfl⟩ : ∃ a ∈ l, a.mark = m := by
          have hmem : m ∈ marks l x := hmark ▸ mem_singleton_self m
          obtain ⟨a, ha, heq⟩ := mem_map.mp hmem
          exact ⟨a, (mem_filter.mp ha).1, heq⟩
        rw [hseg x h1 h2] at hview
        exact absurd (mk.inj (some.inj hview)).1.symm (h.covered.proper a ha).shmid_ne
      refine h.covered.update h.covered.proper fun x => ?_
      unfold ownMoved relocated
      by_cases hxold : old ≤ x ∧ x < old + len
      · exact .inr (.inl (hnone x hxold.1 hxold.2))
      · by_cases hxnew : new ≤ x ∧ x < new + newLen
        · exact .inr (.inl (hfree x hxnew.1 hxnew.2 hxold))
        · rw [if_neg hxnew, if_neg hxnew, if_neg hxold, if_neg hxold]
          exact .inl ⟨Perm.refl _, rfl, rfl⟩
    · split at hm
      · cases hm
      split at hm
      · cases hm
      next hs =>
      cases hm
      exact h.covered.moved hold hnew hfree hs
  · unfold ownMoved relocated
    by_cases hxnew : new ≤ x ∧ x < new + newLen
    · rw [if_pos hxnew, if_pos hxnew, h.mapped, hseg _ (by omega) (by omega), hseg old (by omega) (by omega)]
    · rw [if_neg hxnew]
      split
      · exact iff_of_true rfl rfl
      · exact h.mapped x
  · unfold ownMoved at hx
    split at hx
    · exact h.fresh _ i hx
    · split at hx
      · cases hx
      · exact h.fresh x i hx

end Consistent

/-- What the regions say about shared memory. -/
def ShmSpace.segments (st : ShmSpace) : Nat → Option (Nat × Bool) := st.mem.vmRegions.viewAt segmentView

/-- **The records match the mappings.** -/
structure Matched (mmId : Nat) (st : ShmSpace) : Prop where
  wellFormed : st.mem.vmRegions.WellFormed
  consistent : Consistent (st.shm.records mmId) st.owner st.segments st.shm.nextAttachId

section Matched

variable {shmaddr ns : Nat} {f : Nat → Option (Nat × Bool)} {mem' mem : MemorySet} {a : Nat}
  {pid shmid old oldLen new newLen : Nat} {shm shm' : ShmState} {refs : List ShmAttachRef} {now : Int}
  {pages : List Nat} {call : ShmSpace.MmapCall} {flags : ShmatFlags} {region : VmRegion} {mayMove : Bool}
  {cred : Cred}

theorem Matched.reads (h : Matched mmId st) : Reads segmentView st.mem.vmRegions st.segments :=
  ⟨h.wellFormed, fun _ _ => trivial, fun _ => rfl⟩

theorem Matched.of_reads (hreads : Reads segmentView st.mem.vmRegions f)
    (hcons : Consistent (st.shm.records mmId) st.owner f st.shm.nextAttachId) : Matched mmId st :=
  ⟨hreads.wellFormed, hcons.congr fun x => (hreads.view x).symm⟩

/-- A call that fails may rearrange the regions. -/
theorem Matched.keep (h : Matched mmId st) (hreads : Reads segmentView mem'.vmRegions st.segments) :
    Matched mmId { st with mem := mem' } :=
  of_reads hreads h.consistent

/-! ### Addresses that the calls choose -/

theorem userRangeValid_iff : userRangeValid a b = true ↔ a < b ∧ b ≤ 2 ^ 38 := by
  unfold userRangeValid userVaTop
  rw [and_eq_true, decide_eq_true_eq, decide_eq_true_eq]

theorem alignUp_mod {x : Nat} : alignUp x % pageSize = 0 := mul_mod_left _ _

/-- A range that is found free has no mapping. -/
theorem Matched.free (h : Matched mmId st) (hf : st.mem.userRangeIsFree a b = true) :
    a < b ∧ b ≤ 2 ^ 38 ∧ ∀ x, a ≤ x → x < b → st.segments x = none := by
  unfold userRangeIsFree userVaTop at hf
  simp only [and_eq_true, decide_eq_true_eq, not_eq_true'] at hf
  obtain ⟨⟨hlt, hle⟩, hno⟩ := hf
  refine ⟨hlt, hle, fun x h1 h2 => ?_⟩
  exact h.reads.eq_none_of_apart ((overlapsRange_eq_false_iff h.wellFormed hlt).mp hno) h1 h2

theorem findFreeMmapRange_spec {hint : Nat} (hf : mem.findFreeMmapRange hint len pages = some start) :
    start % pageSize = 0 ∧ mem.userRangeIsFree start (start + len) = true := by
  unfold findFreeMmapRange at hf
  split at hf
  · cases hf
  have hmem := mem_of_find?_eq_some hf
  have htest := find?_some hf
  obtain ⟨_, -, rfl⟩ := mem_map.mp hmem
  unfold userRangeIsMmapPlaceable at htest
  simp only [and_eq_true] at htest
  exact ⟨mul_mod_left .., htest.2.1⟩

theorem isFixed_of_replaces (h : call.replaces = true) : call.isFixed = true := by
  unfold replaces isFixed ShmSpace.hasFlag at *
  rw [bne_iff_ne] at *
  rw [Nat.and_or_distrib_left, ne_eq, or_eq_zero_iff]
  exact fun hz => h hz.1

theorem place_spec {mapLen : Nat} (hp : call.place mem pages mapLen = .ok start) :
    start % pageSize = 0 ∧ start + mapLen ≤ usizeMax ∧ (call.replaces = true → start = call.addr) := by
  unfold place at hp
  split at hp
  · cases hp
  next _ hc =>
  dsimp only at hp
  iterate 5
    split at hp
    · cases hp
  next hvalid _ _ _ =>
  cases hp
  rw [not_eq_true, not_eq_false', userRangeValid_iff] at hvalid
  have hfit := hvalid.2.trans (show _ ≤ usizeMax by decide)
  unfold chooseStart at hc
  split at hc
  · split at hc
    · cases hc
    next _ =>
    cases hc
    exact ⟨by omega, hfit, fun _ => rfl⟩
  · next hfixed =>
    split at hc
    · cases hc
    next _ hfree =>
    cases hc
    exact ⟨(findFreeMmapRange_spec hfree).1, hfit, fun hrep => absurd (isFixed_of_replaces hrep) hfixed⟩

/-- A range in the region that `vm_region_containing` finds. -/
theorem Matched.containing (h : Matched mmId st) {stop : Nat}
    (hc : st.mem.vmRegionContaining start stop = some region) :
    st.mem.vmRegions.Spans start stop ∧
      ∀ x, start ≤ x → x < stop → st.segments x = some (region.sysvShmid, region.shared) := by
  unfold vmRegionContaining at hc
  split at hc
  · cases hc
  next r hr =>
  split at hc
  swap
  · cases hc
  next hkind =>
  obtain rfl := some.inj hc
  rw [and_eq_true, decide_eq_true_eq] at hkind
  obtain ⟨hmem, hin⟩ := (containingAddr_eq_some_iff h.wellFormed).mp hr
  refine ⟨⟨r, hmem, hin.1, hkind.2⟩, fun x h1 h2 => ?_⟩
  exact h.reads.of_mem hmem ⟨le_trans hin.1 h1, h2.trans_le hkind.2⟩

/-! ### What the calls record -/

variable {mms : OrdMap Nat ShmMm} {mm : ShmMm} {managers : ShmManagers} {res : Except SyscallError Nat}

theorem records_insert {next : Nat} : records ⟨managers, mms.insert mmId mm, next⟩ mmId = mm.attaches :=
  @ShmState.records_eq ⟨managers, mms.insert mmId mm, next⟩ mmId mm OrdMap.get?_insert_self

theorem records_putAttaches (hmm : shm.mms.get? mmId = some mm) :
    records { shm.putAttaches mmId l with managers := managers } mmId = l := by
  unfold putAttaches
  rw [hmm]
  exact records_insert

theorem nextAttachId_putAttaches : (shm.putAttaches mmId l).nextAttachId = shm.nextAttachId := by
  unfold putAttaches
  split <;> rfl

theorem records_eq_nil (hmm : shm.mms.get? mmId = none) : shm.records mmId = [] := by
  unfold records
  rw [hmm]
  rfl

theorem detach_nil (hd : detachAttachesOverlapping [] start len = some (l, refs)) : l = [] := by
  unfold detachAttachesOverlapping at hd
  split at hd
  · cases hd
  split at hd
  · exact (mk.inj (some.inj hd)).1.symm
  · exact (mk.inj (some.inj hd)).1.symm

theorem mapFixed_spec (hd : detachAttachesOverlapping (shm.records mmId) start len = some (l, refs)) :
    (mapFixed shm mmId pid start len true now).records mmId = l ∧
      (mapFixed shm mmId pid start len true now).nextAttachId = shm.nextAttachId := by
  unfold mapFixed
  cases hmm : shm.mms.get? mmId with
  | none =>
    rw [records_eq_nil hmm] at hd
    exact ⟨(records_eq_nil hmm).trans (detach_nil hd).symm, rfl⟩
  | some =>
    rw [records_eq hmm] at hd
    dsimp only
    rw [hd]
    exact ⟨records_putAttaches hmm, nextAttachId_putAttaches⟩

theorem movedAttaches_eq (hm : ShmSpace.movedAttaches l shmid old oldLen new newLen = .ok l') :
    (if shmid = 0 then some l else moveAttach l shmid old oldLen new newLen) = some l' := by
  unfold ShmSpace.movedAttaches at hm
  split at hm
  · next hz => rw [if_pos hz, ok.inj hm]
  next hz =>
  split at hm
  · cases hm
  next _ hidx =>
  split at hm
  · cases hm
  next _ hs =>
  cases hm
  rwa [if_neg hz, moveAttach, hidx]

theorem movedAttaches_nil (hm : ShmSpace.movedAttaches [] shmid old oldLen new newLen = .ok l) : l = [] := by
  unfold ShmSpace.movedAttaches at hm
  split at hm
  · exact (ok.inj hm).symm
  · cases hm

theorem mremapResize_spec
    (hm : ShmSpace.movedAttaches (shm.records mmId) shmid old oldLen new newLen = .ok l) :
    (mremapResize shm mmId shmid old oldLen new newLen true).records mmId = l ∧
      (mremapResize shm mmId shmid old oldLen new newLen true).nextAttachId = shm.nextAttachId := by
  unfold mremapResize
  cases hmm : shm.mms.get? mmId with
  | none =>
    rw [records_eq_nil hmm] at hm
    exact ⟨(records_eq_nil hmm).trans (movedAttaches_nil hm).symm, rfl⟩
  | some =>
    rw [records_eq hmm] at hm
    dsimp only
    rw [movedAttaches_eq hm]
    exact ⟨records_putAttaches hmm, nextAttachId_putAttaches⟩

theorem mremapFixed_spec (hapart : ¬ (old < new + len ∧ new < old + len))
    (hfound : ¬ (shmid ≠ 0 ∧ findAttachContaining (shm.records mmId) shmid old len = none))
    (hd : detachAttachesOverlapping (shm.records mmId) new len = some (l, refs))
    (hm : ShmSpace.movedAttaches l shmid old len new len = .ok l') :
    (mremapFixed shm mmId pid shmid old len new true now).records mmId = l' ∧
      (mremapFixed shm mmId pid shmid old len new true now).nextAttachId = shm.nextAttachId := by
  unfold mremapFixed
  cases hmm : shm.mms.get? mmId with
  | none =>
    rw [records_eq_nil hmm] at hd
    rw [detach_nil hd] at hm
    exact ⟨(records_eq_nil hmm).trans (movedAttaches_nil hm).symm, rfl⟩
  | some =>
    rw [records_eq hmm] at hd hfound
    dsimp only
    rw [if_neg hfound, if_neg hapart, hd]
    dsimp only
    rw [movedAttaches_eq hm]
    exact ⟨records_putAttaches hmm, nextAttachId_putAttaches⟩

/-- A successful `shmat`, if the memory could be mapped. -/
theorem shmat_ok {env : ShmatEnv} {seg : ShmSegment} (hseg : shm.managers.segment? ⟨ns, shmid⟩ = some seg)
    (hrun : shmat shm mmId ns cred shmid shmaddr flags env = (shm', .ok start)) :
    (if shmaddr = 0 then env.freeRange else some (shmaddr / shmPageSize * shmPageSize)) = some start ∧
      start + shmAlignUp seg.size ≤ usizeMax ∧
      ∃ l refs, (if flags.remap then
          detachAttachesOverlapping (shm.records mmId) start (shmAlignUp seg.size)
        else some (shm.records mmId, [])) = some (l, refs) ∧
      shm'.records mmId = l ++ [⟨ns, start, shmid, shmAlignUp seg.size, max shm.nextAttachId 1, true⟩] ∧
      shm'.nextAttachId = wrapAdd shm.nextAttachId 1 := by
  unfold shmat at hrun
  dsimp only at hrun
  rw [hseg] at hrun
  split at hrun
  · cases (mk.inj hrun).2
  cases hmm : shm.mms.get? mmId
  · rw [hmm] at hrun
    cases (mk.inj hrun).2
  next _ =>
  rw [hmm] at hrun
  dsimp only at hrun
  iterate 8
    split at hrun
    · cases (mk.inj hrun).2
  next hstart _ _ _ _ _ l refs hd _ =>
  obtain ⟨rfl, hok⟩ := mk.inj hrun
  cases hok
  rw [records_eq hmm]
  exact ⟨hstart, by omega, l, refs, hd, records_insert, rfl⟩

theorem shmdt_ok {res : Nat} (hrun : shmdt shm mmId pid shmaddr now = (shm', .ok res)) :
    ∃ mm r transferred l, shm.mms.get? mmId = some mm ∧
      removeSysvShmAttach mm.attaches shmaddr = some (r, transferred, l) ∧ shm'.records mmId = l ∧
      shm'.nextAttachId = shm.nextAttachId := by
  unfold shmdt at hrun
  iterate 2
    split at hrun
    · cases (mk.inj hrun).2
  next mm hmm =>
  dsimp only at hrun
  split at hrun
  · cases (mk.inj hrun).2
  next r transferred l hr =>
  refine ⟨mm, r, transferred, l, hmm, hr, ?_⟩
  split at hrun
  · rw [← (mk.inj hrun).1]
    exact ⟨records_insert, rfl⟩
  next seg _ =>
  generalize (if r.accounted && !transferred then seg.nattch - 1 else seg.nattch) = nattch at hrun
  split at hrun
  · rw [← (mk.inj hrun).1]
    exact ⟨records_insert, rfl⟩
  · rw [← (mk.inj hrun).1]
    exact ⟨records_insert, rfl⟩

/-! ### The calls keep the invariant -/

/-- **`munmap`** of a range that no record covers. -/
theorem Matched.munmap (h : Matched mmId st) {addr : Nat} (written : Bool)
    (hspares : Spares (st.shm.records mmId) addr (alignUp (addr + len))) :
    Matched mmId (st.munmap addr len written).1 := by
  unfold ShmSpace.munmap
  iterate 3
    split
    · exact h
  dsimp only
  iterate 2
    split
    · exact h
  exact of_reads (unmapUserVmaRange_reads h.reads addr (alignUp (addr + len)))
    (h.consistent.unmapped (hspares.trimmed h.consistent.covered.proper))

section Mmap

open ShmSpace

variable {call : MmapCall} {env : MmapEnv}

variable (h : Matched mmId st)

include h

/-- **Inserting or replacing**: the range is taken, and was free unless it is replaced. -/
theorem Matched.insertOrReplace {areas : List VmaInsertArea}
    {replaces lockRange hasFile ok : Bool} {frames : List Nat} {maxMapCount : Nat}
    {postInsert : MemorySet → Bool}
    (hfit : start + len ≤ usizeMax) (hstart : region.start = start) (hlen : region.len = len)
    (hrun : (if replaces then
        st.mem.tryReplaceUserVmaWith region areas lockRange hasFile frames maxMapCount postInsert
      else st.mem.tryInsertUserVmaWith region areas lockRange hasFile frames maxMapCount postInsert) =
        some (mem', ok)) :
    bif ok then 0 < len ∧ (replaces = false → ∀ x, start ≤ x → x < start + len → st.segments x = none) ∧
        Reads segmentView mem'.vmRegions fun x => if start ≤ x ∧ x < start + len then
          some (region.sysvShmid, region.shared) else st.segments x
      else Matched mmId { st with mem := mem' } := by
  subst hstart hlen
  have hfits : region.Fits := hfit
  have htaken : taken region st.segments = fun x => if region.start ≤ x ∧ x < region.start + region.len then
      some (region.sysvShmid, region.shared) else st.segments x := by
    funext x
    simp only [taken, VmRegion.Contains, hfits.endAddr_eq]
  rw [← htaken]
  cases replaces with
  | true =>
    obtain ⟨hlt, hdone⟩ := tryReplaceUserVmaWith_reads h.reads hfits hrun
    rw [hfits.endAddr_eq] at hlt
    cases ok with
    | true => exact ⟨pos_of_lt_add_right (hlt rfl), (by intros; contradiction), hdone⟩
    | false => exact h.keep hdone
  | false =>
    obtain ⟨hlt, hdone⟩ := tryInsertUserVmaWith_reads h.reads hfits hrun
    unfold VmRegion.Contains at hlt
    rw [hfits.endAddr_eq] at hlt
    cases ok with
    | true => exact ⟨pos_of_lt_add_right (hlt rfl).1, fun _ x h1 h2 => (hlt rfl).2 x ⟨h1, h2⟩, hdone⟩
    | false => exact h.keep hdone

/-- The records where a mapping was inserted into a free range. -/
theorem Matched.trimmed_of_free (hfree : ∀ x, a ≤ x → x < b → st.segments x = none) :
    Trimmed (st.shm.records mmId) (st.shm.records mmId) a b :=
  trimmed_of_nil h.consistent.covered.proper fun x h1 h2 => h.consistent.covered.marks_eq_nil (hfree x h1 h2)

/-- **The ring of a packet socket**, if it replaces nothing that a record covers. -/
theorem Matched.mmapPacketSocketRing {ringLen : Option Nat}
    (hspares : call.replaces = true → Spares (st.shm.records mmId) call.addr (call.addr + alignUp call.len))
    (hrun : st.mmapPacketSocketRing call env ringLen = some (st', res)) : Matched mmId st' := by
  unfold ShmSpace.mmapPacketSocketRing at hrun
  dsimp only at hrun
  iterate 4
    split at hrun
    · cases hrun
      exact h
  next start hplace =>
  obtain ⟨-, hfit, hfixed⟩ := place_spec hplace
  split at hrun
  · cases hrun
  · next hcommit =>
    cases hrun
    exact h.insertOrReplace hfit rfl rfl hcommit
  next hcommit =>
  obtain ⟨-, hfree, hreads⟩ := h.insertOrReplace hfit rfl rfl hcommit
  -- the records of the range: there are none
  have htrim : Trimmed (st.shm.records mmId) (st.shm.records mmId) start (start + alignUp call.len) := by
    by_cases hrep : call.replaces = true
    · rw [hfixed hrep]
      exact (hspares hrep).trimmed h.consistent.covered.proper
    · exact h.trimmed_of_free (hfree (eq_false_iff.mpr hrep))
  split at hrun
  · -- the socket refused, and the new mapping goes away again
    cases hrun
    refine of_reads ((unmapUserVmaRange_reads hreads start
      (start + alignUp call.len)).congr fun x => ?_) (h.consistent.unmapped htrim)
    split <;> rfl
  · cases hrun
    exact of_reads hreads (h.consistent.overlay htrim (iff_of_false (some_ne_none _) (some_ne_none _)) nofun)

/-- **`mmap`** of anything else trims the records of what it replaces. -/
theorem Matched.mmapSource {source : MmapSource} {writable : Bool}
    (hrun : st.mmapSource mmId call env source writable = some (st', res)) : Matched mmId st' := by
  unfold ShmSpace.mmapSource at hrun
  dsimp only at hrun
  iterate 5
    split at hrun
    · cases hrun
      exact h
  next start hplace _ _ _ hdetach =>
  obtain ⟨haligned, hfit, -⟩ := place_spec hplace
  split at hrun
  · cases hrun
  · next hcommit =>
    cases hrun
    exact h.insertOrReplace hfit rfl rfl hcommit
  next hcommit =>
  obtain ⟨-, hfree, hreads⟩ := h.insertOrReplace hfit rfl rfl hcommit
  cases hrun
  refine of_reads hreads ?_
  have hother : ∀ {l : List ShmAttach}, Trimmed (st.shm.records mmId) l start (start + alignUp call.len) →
      Consistent l (ownRange st.owner start (start + alignUp call.len) (some .other)) (fun x =>
        if start ≤ x ∧ x < start + alignUp call.len then some (0, call.isShared)
        else st.segments x) st.shm.nextAttachId :=
    fun htrim => h.consistent.overlay htrim (iff_of_false (some_ne_none _) (some_ne_none _)) nofun
  split_ifs with hrep
  · rw [hrep, Bool.true_and, isNone_iff_eq_none, ← ne_eq, ne_none_iff_exists] at hdetach
    obtain ⟨⟨_, _⟩, hd⟩ := hdetach
    obtain ⟨hrecords, hnext⟩ := mapFixed_spec hd.symm
    rw [hrecords, hnext]
    exact hother (trimmed_of_detach h.consistent.covered.proper haligned alignUp_mod hd.symm)
  · exact hother (h.trimmed_of_free (hfree (eq_false_iff.mpr hrep)))

theorem Matched.mmap
    (hspares : ∀ opened ringLen, env.file = some opened → opened.file = .packet ringLen →
      call.replaces = true → Spares (st.shm.records mmId) call.addr (call.addr + alignUp call.len))
    (hrun : st.mmap mmId call env = some (st', res)) : Matched mmId st' := by
  unfold ShmSpace.mmap at hrun
  iterate 5
    split at hrun
    · cases hrun
      exact h
  split at hrun
  · exact h.mmapSource hrun
  iterate 3
    split at hrun
    · cases hrun
      exact h
  next opened hopened _ _ =>
  split at hrun
  · next ringLen hfile => exact h.mmapPacketSocketRing (hspares opened ringLen hopened hfile) hrun
  · exact h.mmapSource hrun
  · exact h.mmapSource hrun
  · exact h.mmapSource hrun
  · cases hrun
    exact h

end Mmap

section Mremap

open ShmSpace

variable {src : VmRegion} {env : MremapEnv}

variable (h : Matched mmId st)

include h

/-- **`mremap` to a fixed address**: what is there is detached before. -/
theorem Matched.mremapFixed (hlen : 0 < len)
    (hold : old % pageSize = 0 ∧ len % pageSize = 0) (hspan : st.mem.vmRegions.Spans old (old + len))
    (hseg : ∀ x, old ≤ x → x < old + len → st.segments x = some (src.sysvShmid, src.shared))
    (hfound : ¬ (src.sysvShmid ≠ 0 ∧ findAttachContaining (st.shm.records mmId) src.sysvShmid old len = none))
    (hrun : st.mremapFixed mmId (st.shm.records mmId) src old len new newLen env = some (st', res)) :
    Matched mmId st' := by
  unfold ShmSpace.mremapFixed at hrun
  iterate 8
    split at hrun
    · cases hrun
      exact h
  next haligned _ hvalid hsame hapart _ _ _ _ hd _ l hm =>
  obtain rfl : newLen = len := not_not.mp hsame
  rw [not_eq_true, not_eq_false', userRangeValid_iff] at hvalid
  split at hrun
  · cases hrun
  · next hmove =>
    cases hrun
    exact h.keep (moveUserVmaRangeReplacing_reads h.reads hspan hlen (by omega) hmove)
  next hmove =>
  have hreads := moveUserVmaRangeReplacing_reads h.reads hspan hlen (by omega) hmove
  cases hrun
  obtain ⟨hrecords, hnext⟩ := mremapFixed_spec hapart hfound hd hm
  have htrim := trimmed_of_detach h.consistent.covered.proper (not_not.mp haligned) hold.2 hd
  have hout : ∀ x, old ≤ x → x < old + newLen → ¬ (new ≤ x ∧ x < new + newLen) :=
    fun _ _ _ _ => hapart ⟨by omega, by omega⟩
  -- first the destination is cleared, then the range is moved there
  have hcleared := h.consistent.unmapped htrim
  have hmoved := hcleared.moved hlen hold ⟨not_not.mp haligned, hold.2, by omega⟩ fun x h1 h2 => by
      rw [if_neg (hout x h1 h2)]
      exact hseg x h1 h2
    (fun x h1 h2 _ => hcleared.covered.marks_eq_nil (if_pos ⟨h1, h2⟩)) hm
  refine of_reads hreads ?_
  rw [hrecords, hnext]
  refine hmoved.congr fun x => ?_
  simp only [relocated, cond_true]
  by_cases hx : new ≤ x ∧ x < new + newLen
  · rw [if_pos hx, if_pos hx, if_neg (hout old (le_rfl) (by omega))]
  · rw [if_neg hx, if_neg hx, if_neg hx]

/-- **`mremap` that shrinks a range.** -/
theorem Matched.mremapShrink (hlen : 0 < len) (hold : old % pageSize = 0 ∧ len % pageSize = 0)
    (hnew : newLen % pageSize = 0) (hle : newLen ≤ len) (hbelow : old + len < 2 ^ 39)
    (hseg : ∀ x, old ≤ x → x < old + len → st.segments x = some (src.sysvShmid, src.shared)) :
    Matched mmId (st.mremapShrink mmId (st.shm.records mmId) src old len newLen).1 := by
  unfold ShmSpace.mremapShrink
  split
  · exact h
  next l hm =>
  obtain ⟨hrecords, hnext⟩ := mremapResize_spec hm
  have hmoved := h.consistent.moved hlen hold ⟨hold.1, hnew, by omega⟩ hseg
    (fun _ h1 _ h3 => absurd ⟨h1, by omega⟩ h3) hm
  have hreads : Reads segmentView (if newLen < len then
      st.mem.unmapUserVmaRange (old + newLen) (old + len) else st.mem).vmRegions
      fun x => if old + newLen ≤ x ∧ x < old + len then none else st.segments x := by
    split
    · exact unmapUserVmaRange_reads h.reads ..
    · exact h.reads.congr fun x => by rw [if_neg (by omega)]
  refine of_reads hreads ?_
  rw [hrecords, hnext]
  -- shrinking is a move to the same place
  have howner : ownMoved st.owner old len old newLen = ownRange st.owner (old + newLen) (old + len) none := by
    funext x
    unfold ownMoved ownRange
    split
    · rw [if_neg (by omega)]
      congr 1
      omega
    · exact if_congr (by omega) rfl rfl
  rw [← howner]
  refine hmoved.congr fun x => ?_
  unfold relocated
  split
  · next h1 => rw [if_neg (by omega), hseg x h1.1 (by omega), hseg old (le_rfl) (by omega)]
  · exact if_congr (by omega) rfl rfl

/-- Where a range can grow to. -/
theorem Matched.growTarget {target : Nat} (hold : old % pageSize = 0) (hlt : len < newLen)
    (ht : growTarget st.mem old len newLen mayMove pages = some target) :
    target % pageSize = 0 ∧ target + newLen ≤ 2 ^ 38 ∧
      (target = old ∨ ∀ x, target ≤ x → x < target + len → st.segments x = none) ∧
      ∀ x, target + len ≤ x → x < target + newLen → st.segments x = none := by
  unfold ShmSpace.growTarget at ht
  split at ht
  · next hplace =>
    cases ht
    rw [and_eq_true] at hplace
    obtain ⟨-, hle, hfree⟩ := h.free hplace.2
    exact ⟨hold, hle, .inl rfl, hfree⟩
  · split at ht
    · cases ht
    obtain ⟨haligned, hfree⟩ := findFreeMmapRange_spec ht
    obtain ⟨-, hle, hnone⟩ := h.free hfree
    exact ⟨haligned, hle, .inr fun x h1 h2 => hnone x h1 (by omega), fun x h1 h2 => hnone x (by omega) h2⟩

/-- **`mremap` that lets a range grow.** -/
theorem Matched.mremapGrow (hlen : 0 < len) (hold : old % pageSize = 0 ∧ len % pageSize = 0)
    (hnew : newLen % pageSize = 0) (hlt : len < newLen) (hspan : st.mem.vmRegions.Spans old (old + len))
    (hseg : ∀ x, old ≤ x → x < old + len → st.segments x = some (src.sysvShmid, src.shared))
    (hrun : st.mremapGrow mmId ns (st.shm.records mmId) src old len newLen mayMove env = some (st', res)) :
    Matched mmId st' := by
  unfold ShmSpace.mremapGrow at hrun
  dsimp only at hrun
  iterate 4
    split at hrun
    · cases hrun
      exact h
  next target htarget _ _ l hm _ plan _ =>
  obtain ⟨haligned, hle, hplace, hroom⟩ := h.growTarget hold.1 hlt htarget
  split at hrun
  · cases hrun
  · next hgrow =>
    cases hrun
    exact h.keep (tryGrowUserVmaRangeWithLayout_reads h.reads hspan hlen hplace hroom hgrow)
  next hgrow =>
  have hreads := tryGrowUserVmaRangeWithLayout_reads h.reads hspan hlen hplace hroom hgrow
  cases hrun
  obtain ⟨hrecords, hnext⟩ := mremapResize_spec hm
  refine of_reads hreads ?_
  rw [hrecords, hnext]
  refine h.consistent.moved hlen hold ⟨haligned, hnew, by omega⟩ hseg (fun x h1 h2 h3 => ?_) hm
  refine h.consistent.covered.marks_eq_nil ?_
  by_cases hx : x < target + len
  · rcases hplace with rfl | hfree
    · exact absurd ⟨h1, hx⟩ h3
    · exact hfree x h1 hx
  · exact hroom x (by omega) h2

theorem Matched.mremap {call : MremapCall} (hrun : st.mremap mmId call env = some (st', res)) :
    Matched mmId st' := by
  unfold ShmSpace.mremap at hrun
  dsimp only at hrun
  iterate 6
    split at hrun
    · cases hrun
      exact h
  next hvalid _ _ hc =>
  rw [not_eq_true, not_eq_false', userRangeValid_iff] at hvalid
  obtain ⟨hspan, hseg⟩ := h.containing hc
  unfold mremapRegion at hrun
  dsimp only at hrun
  iterate 3
    split at hrun
    · cases hrun
      exact h
  next hfound _ =>
  have hold : call.oldAddr % pageSize = 0 ∧ alignUp call.oldSize % pageSize = 0 := ⟨by omega, alignUp_mod⟩
  split at hrun
  · exact h.mremapFixed (by omega) hold hspan hseg hfound hrun
  split at hrun
  · next hshrink =>
    rw [← (mk.inj (some.inj hrun)).1]
    exact h.mremapShrink (by omega) hold alignUp_mod hshrink (by omega) hseg
  · exact h.mremapGrow (by omega) hold alignUp_mod (by omega) hspan hseg hrun

end Mremap

section Attach

theorem shmAlignUp_mod {size : Nat} : shmAlignUp size % pageSize = 0 := mul_mod_left _ _

variable (h : Matched mmId st)

include h

/-- **`shmat`**, below the end of the virtual addresses and with a new identifier. -/
theorem Matched.shmat {env : ShmSpace.AttachEnv} (hid : shmid ≠ 0)
    (hbelow : ∀ seg, st.shm.managers.segment? ⟨ns, shmid⟩ = some seg → shmaddr ≠ 0 →
      shmaddr / pageSize * pageSize + shmAlignUp seg.size < 2 ^ 39)
    (hcounter : st.shm.nextAttachId ≤ st'.shm.nextAttachId)
    (hrun : st.shmat mmId ns cred shmid shmaddr flags env = some (st', res)) : Matched mmId st' := by
  unfold ShmSpace.shmat at hrun
  dsimp only at hrun
  iterate 2
    split at hrun
    · cases hrun
      exact h
  next seg hseg _ shm start hrec =>
  obtain ⟨hstart, hmax, l, _, hdetach, hrecords, hnext⟩ := shmat_ok hseg hrec
  have hplace : start % pageSize = 0 ∧ start + shmAlignUp seg.size < 2 ^ 39 := by
    split at hstart
    · obtain ⟨haligned, hfree⟩ := findFreeMmapRange_spec hstart
      obtain ⟨-, hle, -⟩ := h.free hfree
      exact ⟨haligned, by omega⟩
    · next hzero =>
      rw [← some.inj hstart]
      exact ⟨mul_mod_left .., hbelow seg hseg hzero⟩
  split at hrun
  · cases hrun
  · next hins =>
    cases hrun
    exact h.insertOrReplace hmax rfl rfl hins
  next hins =>
  obtain ⟨hpos, hfree, hreads⟩ := h.insertOrReplace hmax rfl rfl hins
  cases hrun
  have htrim : Trimmed (st.shm.records mmId) l start (start + shmAlignUp seg.size) := by
    split at hdetach
    · exact trimmed_of_detach h.consistent.covered.proper hplace.1 shmAlignUp_mod hdetach
    · next hremap =>
      cases hdetach
      exact h.trimmed_of_free (hfree (eq_false_iff.mpr hremap))
  have hone := h.consistent.counter
  have hid' : max st.shm.nextAttachId 1 = st.shm.nextAttachId := by omega
  -- the counter has not wrapped around
  have hnext' : st.shm.nextAttachId + 1 ≤ shm.nextAttachId := by
    rw [hnext] at hcounter ⊢
    unfold wrapAdd usizeMax at hcounter ⊢
    omega
  have hproper : ShmAttach.Proper ⟨ns, start, shmid, shmAlignUp seg.size, st.shm.nextAttachId, true⟩ :=
    ⟨hpos, hplace.1, shmAlignUp_mod, hplace.2, hid⟩
  refine of_reads hreads ?_
  rw [hrecords, hid']
  exact (h.consistent.attach hproper htrim rfl).mono hnext'

/-- What `shmdt` does when it succeeds: it removes a record and unmaps its range. -/
theorem Matched.shmdt_ok {out : Nat} (hrun : st.shmdt mmId pid shmaddr now = (st', .ok out)) :
    ∃ r ∈ st.shm.records mmId, r.addr = shmaddr ∧ r.Proper ∧
      Trimmed (st.shm.records mmId) (st'.shm.records mmId) r.addr (r.addr + r.len) ∧
      st'.shm.nextAttachId = st.shm.nextAttachId ∧
      st'.mem = st.mem.unmapUserVmaRange r.addr (r.addr + r.len) ∧
      st'.owner = ownRange st.owner r.addr (r.addr + r.len) none := by
  unfold ShmSpace.shmdt at hrun
  generalize hrec : shmdt st.shm mmId pid shmaddr now = done at hrun
  obtain ⟨_, done⟩ := done
  cases done with
  | error => cases (mk.inj hrun).2
  | ok =>
  obtain ⟨_, r, _, _, hmm, hr, hrecords, hnext⟩ := HitOS.shmdt_ok hrec
  rw [hmm, bind_some, hr] at hrun
  obtain ⟨rfl, -⟩ := mk.inj hrun
  have hproper := h.consistent.covered.proper
  rw [records_eq hmm] at hproper ⊢
  obtain ⟨hmem, haddr, hleft, hmarks⟩ := removeSysvShmAttach_marks hproper hr
  have hrp := hproper r hmem
  have hbelow := hrp.below
  have hstart : virtAddr r.addr = r.addr := mod_eq_of_lt (by omega)
  have hstop : virtAddr (r.addr + r.len) = r.addr + r.len := mod_eq_of_lt hbelow
  rw [hstart, hstop]
  refine ⟨r, hmem, haddr, hrp, ⟨?_, fun x => ?_⟩, hnext, rfl, rfl⟩
  · rwa [hrecords]
  rw [hrecords]
  have hx := hmarks x
  rw [marks_singleton] at hx
  split_ifs with hin
  · -- the record was the only one there
    have hcov : r.Covers x := hin
    have hone := (h.consistent.covered.of_mem (by rwa [records_eq hmm]) hcov).1
    rw [records_eq hmm] at hone
    rw [hone, if_pos hcov] at hx
    rw [perm_nil]
    exact length_eq_zero_iff.mp (by simpa using hx.length_eq)
  · have hcov : ¬ r.Covers x := hin
    rw [if_neg hcov] at hx
    exact hx.symm

theorem Matched.shmdt (pid shmaddr : Nat) (now : Int) : Matched mmId (st.shmdt mmId pid shmaddr now).1 := by
  generalize hrun : st.shmdt mmId pid shmaddr now = done
  obtain ⟨st', done⟩ := done
  cases done with
  | error =>
    -- nothing was done
    have hsame : st' = st := by
      unfold ShmSpace.shmdt at hrun
      split at hrun
      · exact (mk.inj hrun).1.symm
      · split at hrun
        · exact (mk.inj hrun).1.symm
        · cases (mk.inj hrun).2
    exact hsame ▸ h
  | ok =>
    obtain ⟨r, -, -, -, htrim, hnext, hmem, howner⟩ := h.shmdt_ok hrun
    have hreads := unmapUserVmaRange_reads h.reads r.addr (r.addr + r.len)
    rw [← hmem] at hreads
    refine of_reads hreads ?_
    rw [hnext, howner]
    exact h.consistent.unmapped htrim

end Attach

/-- Another process changes the segments, and not the records of this one. -/
theorem Matched.others (h : Matched mmId st) (hsame : shm'.mms.get? mmId = st.shm.mms.get? mmId)
    (hcounter : st.shm.nextAttachId ≤ shm'.nextAttachId) : Matched mmId { st with shm := shm' } := by
  refine of_reads h.reads ?_
  have hrecords : shm'.records mmId = st.shm.records mmId := by
    unfold records
    rw [hsame]
  rw [hrecords]
  exact h.consistent.mono hcounter

end Matched

/-! ### Runs -/

/-- A system call of the process. -/
inductive SpaceAct where
  | shmat (ns : Nat) (cred : Cred) (shmid shmaddr : Nat) (flags : ShmatFlags) (env : ShmSpace.AttachEnv)
  | shmdt (pid shmaddr : Nat) (now : Int)
  | mmap (call : ShmSpace.MmapCall) (env : ShmSpace.MmapEnv)
  | munmap (addr len : Nat) (written : Bool)
  | mremap (call : ShmSpace.MremapCall) (env : ShmSpace.MremapEnv)

/-- The state afterwards; `none` is a panic. -/
def SpaceAct.apply (mmId : Nat) (st : ShmSpace) : SpaceAct → Option ShmSpace
  | .shmat ns cred shmid shmaddr flags env =>
    (st.shmat mmId ns cred shmid shmaddr flags env).map fst
  | .shmdt pid shmaddr now => some (st.shmdt mmId pid shmaddr now).1
  | .mmap call env => (st.mmap mmId call env).map fst
  | .munmap addr len written => some (st.munmap addr len written).1
  | .mremap call env => (st.mremap mmId call env).map fst

/-- A step: a call of the process, or anything that other processes do to shared memory. -/
inductive SpaceStep (mmId : Nat) (st : ShmSpace) : ShmSpace → Prop
  | call (act : SpaceAct) {st' : ShmSpace} (h : act.apply mmId st = some st') : SpaceStep mmId st st'
  | others {shm' : ShmState} (h : ShmStep st.shm shm')
      (hsame : shm'.mms.get? mmId = st.shm.mms.get? mmId) : SpaceStep mmId st { st with shm := shm' }

/-- The process has just been started: nothing is attached, and whatever is mapped belongs to other
mappings. -/
structure FreshSpace (mmId : Nat) (st : ShmSpace) : Prop where
  wellFormed : st.mem.vmRegions.WellFormed
  records : st.shm.records mmId = []
  mapped : ∀ x, st.owner x = if (st.segments x).isSome then some .other else none
  counter : 1 ≤ st.shm.nextAttachId

/-- What a call must not do: unmap or replace what is recorded where the records are not trimmed,
attach a segment where virtual addresses end, or one with the identifier 0. -/
def SpaceAct.Careful (mmId : Nat) (st : ShmSpace) : SpaceAct → Prop
  | .shmat ns _ shmid shmaddr _ _ => shmid ≠ 0 ∧
    ∀ seg, st.shm.managers.segment? ⟨ns, shmid⟩ = some seg → shmaddr ≠ 0 →
      shmaddr / pageSize * pageSize + shmAlignUp seg.size < 2 ^ 39
  | .shmdt .. => True
  | .mmap call env => ∀ opened ringLen, env.file = some opened → opened.file = .packet ringLen →
    call.replaces = true → Spares (st.shm.records mmId) call.addr (call.addr + alignUp call.len)
  | .munmap addr len _ => Spares (st.shm.records mmId) addr (alignUp (addr + len))
  | .mremap .. => True

/-- A careful step. The counter of attaches does not wrap around in it. -/
inductive CarefulSpaceStep (mmId : Nat) (st : ShmSpace) : ShmSpace → Prop
  | call (act : SpaceAct) {st' : ShmSpace} (hcareful : act.Careful mmId st)
      (h : act.apply mmId st = some st') (hcounter : st.shm.nextAttachId ≤ st'.shm.nextAttachId) :
      CarefulSpaceStep mmId st st'
  | others {shm' : ShmState} (h : ShmStep st.shm shm') (hsame : shm'.mms.get? mmId = st.shm.mms.get? mmId)
      (hcounter : st.shm.nextAttachId ≤ shm'.nextAttachId) :
      CarefulSpaceStep mmId st { st with shm := shm' }

section Runs

theorem FreshSpace.matched (h : FreshSpace mmId st) : Matched mmId st := by
  refine ⟨h.wellFormed, ⟨?_, ?_⟩, fun x => ?_, h.counter, fun x i hx => ?_⟩
  · rw [h.records]
    exact nofun
  · rw [h.records]
    exact fun x => .inl rfl
  · rw [h.mapped]
    cases st.segments x <;> simp
  · rw [h.mapped] at hx
    split at hx <;> cases hx

theorem Matched.step (h : Matched mmId st) (hstep : CarefulSpaceStep mmId st st') : Matched mmId st' := by
  cases hstep with
  | others _ hsame hcounter => exact h.others hsame hcounter
  | call act hcareful hact hcounter =>
  cases act with
  | shmat =>
    obtain ⟨⟨st'', res⟩, hrun, rfl⟩ := map_eq_some_iff.mp hact
    exact h.shmat hcareful.1 hcareful.2 hcounter hrun
  | shmdt pid shmaddr now =>
    cases hact
    exact h.shmdt pid shmaddr now
  | mmap =>
    obtain ⟨⟨st'', res⟩, hrun, rfl⟩ := map_eq_some_iff.mp hact
    exact h.mmap hcareful hrun
  | munmap _ _ written =>
    cases hact
    exact h.munmap written hcareful
  | mremap =>
    obtain ⟨⟨_, _⟩, hrun, rfl⟩ := map_eq_some_iff.mp hact
    exact h.mremap hrun

/-- **`shmdt` removes what `shmat` mapped, and nothing else.** In every state that a careful run
reaches, an address has an owner if it is mapped; every address that a record covers belongs to the
attach of the record and is mapped, shared, for its segment; and when `shmdt` succeeds, an address
that does not belong to the attach of the record it finds keeps its mapping, whatever is looked at
of the region, and a page of which some address does not belong to that attach keeps its page table
entry. -/
theorem shmdt_unmaps_only_attached (hr : Reachable (FreshSpace mmId) (CarefulSpaceStep mmId) st) :
    (∀ x, st.owner x = none ↔ st.segments x = none) ∧
    (∀ r ∈ st.shm.records mmId, ∀ x, r.addr ≤ x → x < r.addr + r.len →
      st.owner x = some (.attach r.attachId) ∧ st.segments x = some (r.shmid, true)) ∧
    ∀ pid shmaddr now st' out, st.shmdt mmId pid shmaddr now = (st', .ok out) →
      ∃ r ∈ st.shm.records mmId, r.addr = shmaddr ∧
        (∀ x, st.owner x ≠ some (.attach r.attachId) → st'.owner x = st.owner x ∧
          ∀ {α : Type} (V : RegionView α), st.mem.vmRegions.AllGood V →
            st'.mem.vmRegions.viewAt V x = st.mem.vmRegions.viewAt V x) ∧
        ∀ x, st.owner x ≠ some (.attach r.attachId) →
          st'.mem.pageTable (x / pageSize) = st.mem.pageTable (x / pageSize) := by
  have h : Matched mmId st :=
    hr.invariant (fun _ hinit => FreshSpace.matched hinit) fun _ _ hs hstep => hs.step hstep
  refine ⟨h.consistent.mapped, fun r hmem x h1 h2 => (h.consistent.covered.of_mem hmem ⟨h1, h2⟩).2, ?_⟩
  intro _ _ _ _ _ hrun
  obtain ⟨r, hmem, haddr, hproper, -, -, hmem', howner⟩ := h.shmdt_ok hrun
  -- an address of another owner is not in the range of the record
  have hout : ∀ x, st.owner x ≠ some (.attach r.attachId) → ¬ (r.addr ≤ x ∧ x < r.addr + r.len) :=
    fun x hx hin => hx (h.consistent.covered.of_mem hmem hin).2.1
  refine ⟨r, hmem, haddr, fun x hx => ⟨?_, fun V hgood => ?_⟩, fun x hx => ?_⟩
  · rw [howner]
    exact if_neg (hout x hx)
  · have hreads : Reads V st.mem.vmRegions (st.mem.vmRegions.viewAt V) :=
      ⟨h.wellFormed, hgood, fun _ => rfl⟩
    rw [hmem', (unmapUserVmaRange_reads hreads r.addr (r.addr + r.len)).view]
    exact if_neg (hout x hx)
  · rw [hmem']
    refine unmapUserVmaRange_pageTable ?_
    have h1 := hproper.addr_aligned
    have h2 := hproper.len_aligned
    have h3 := hout x hx
    unfold vpnFloor vpnCeil
    unfold pageSize at *
    omega

/-- Process 2 has an empty address space, and there is a segment of one page. -/
def freshStart : ShmSpace := ⟨onePage.apply (startProcess ShmState.boot 1 2 2), {}, fun _ => none⟩

/-- The process attaches the segment at a fixed address. -/
def attachAt (addr : Nat) : SpaceAct := .shmat 0 ⟨0, 0, [], 2⟩ 1 addr ⟨false, false, false⟩ ⟨[], 65530, 0⟩

/-- It maps a page of anonymous memory there. -/
def mapAt : SpaceAct :=
  .mmap ⟨0x20000, 4096, 3, 0x100022, -1, 0⟩
    ⟨none, fun _ => false, [], false, 0, [9], 65530, fun _ => true, none, 2, 0⟩

theorem freshStart_fresh : FreshSpace 1 freshStart := by
  refine ⟨new_wellFormed, rfl, fun x => ?_, by decide⟩
  rfl

/-- Two attaches: the pages are there, each belongs to its attach, and `shmdt` finds its record. -/
theorem shmdt_unmaps_only_attached_page : ∃ st, Reachable (FreshSpace 1) (CarefulSpaceStep 1) st ∧
      (∃ r ∈ st.shm.records 1, r.addr = 0x20000 ∧ r.len = 4096) ∧
      st.owner 0x20000 = some (.attach 1) ∧ st.owner 0x30000 = some (.attach 2) ∧
      st.segments 0x20000 = some (1, true) ∧
      ∀ r ∈ st.shm.records 1, ∀ x, r.addr ≤ x → x < r.addr + r.len →
        st.owner x = some (.attach r.attachId) ∧ st.segments x = some (r.shmid, true) := by
  have hstart : Reachable (FreshSpace 1) (CarefulSpaceStep 1) _ := .start freshStart_fresh
  have hat := hstart.step (.call (attachAt 0x20000) (by
    refine ⟨by decide, fun seg hseg _ => ?_⟩
    cases hseg
    decide) rfl (by decide +kernel))
  have hagain := hat.step (.call (attachAt 0x30000) (by
    refine ⟨by decide, fun seg hseg _ => ?_⟩
    cases hseg
    decide) rfl (by decide +kernel))
  refine ⟨_, hagain, by decide +kernel, by decide +kernel, by decide +kernel, by decide +kernel,
    (shmdt_unmaps_only_attached hagain).2.1⟩

/-- **`munmap` does not trim the records.** The process attaches a segment, unmaps the page with
`munmap`, and maps anonymous memory at the address. The record is still there, and `shmdt` takes the
anonymous page away. -/
theorem shmdt_unmaps_another_mapping : ∃ st, Reachable (FreshSpace 1) (SpaceStep 1) st ∧
      (∃ r ∈ st.shm.records 1, r.addr = 0x20000 ∧ r.len = 4096) ∧
      st.owner 0x20000 = some .other ∧ st.segments 0x20000 = some (0, false) ∧
      ∃ st', st.shmdt 1 2 0x20000 0 = (st', .ok 0) ∧ st'.segments 0x20000 = none := by
  have hstart : Reachable (FreshSpace 1) (SpaceStep 1) _ := .start freshStart_fresh
  have hat := hstart.step (.call (attachAt 0x20000) rfl)
  have hunmapped := hat.step (.call (.munmap 0x20000 4096 true) rfl)
  have hmapped := hunmapped.step (.call mapAt rfl)
  refine ⟨_, hmapped, by decide +kernel, by decide +kernel, by decide +kernel, _, rfl, by decide +kernel⟩

end Runs

end HitOS
