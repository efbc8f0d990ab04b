import HitOS.Mm.CowIsolation

/-!
# Operations keep pages isolated

One lemma for each operation on an address space. Unmapping, faults, stores, insertion and `fork`
keep `World.Isolated` as they are. A change of protection keeps it under a condition
(`Isolated.mprotect`): it makes a page writable that is not marked copy-on-write, and `fork` does
not mark a page that is read-only at the time, so such a page must not share its frame with another
private one.
-/

namespace HitOS

open List Option PageView MemorySet

namespace World

section Operations

variable {w : World} {i maxMapCount j : Nat} {t : MemorySet}
  {W : Nat → Prop} {s u : MemorySet} {start stop : Nat} {region : VmRegion} {frames : List Nat}
  {areas : List VmaInsertArea} {postInsert : MemorySet → Bool} {mem' : Memory}

section

variable (h : w.Isolated)

include h

/-- A page that is as before. -/
theorem Isolated.placed_of_eq {pool : Set Nat} {v frame : Nat} (heq : t.pageView v = w.page (i, v))
    (hf : (t.pageView v).frame = some frame) : Placed w i t pool v frame := by
  refine .kept i (heq ▸ hf) (by rw [heq]) (fun _ hw => ⟨rfl, h.sole ?_⟩) fun _ hne => (hne rfl).elim
  rwa [← heq]

theorem Isolated.onlyAreaPages (i : Nat) : (w.spaces i).OnlyAreaPages := by
  intro v hv
  refine (h.backed (i, v)).pte_eq_none ?_
  change ((w.spaces i).pageView v).area.bind AreaPage.frame = none
  rw [hv]
  rfl

/-- **Unmapping.** -/
theorem Isolated.unmap (i start stop : Nat) :
    (w.put i ((w.spaces i).unmapUserVmaRange start stop) w.pool).Isolated := by
  obtain ⟨hvalid, hview⟩ := unmapUserRange_spec (h.valid i) start stop
  have hview' v : ((w.spaces i).unmapUserVmaRange start stop).pageView v = w.page (i, v) ∨
      ((w.spaces i).unmapUserVmaRange start stop).pageView v = ⟨none, none⟩ := by
    change ((w.spaces i).unmapUserRange start stop).pageView v = _ ∨
      ((w.spaces i).unmapUserRange start stop).pageView v = _
    rw [hview v]
    split
    · -- in the range, user pages go
      change ((w.spaces i).pageView v).update _ = (w.spaces i).pageView v ∨ _
      unfold update unmapped
      cases hp : ((w.spaces i).pageView v) with
      | mk area =>
        cases area with
        | none => exact .inl rfl
        | some =>
          dsimp only
          split
          · exact .inr rfl
          · exact .inl rfl
    · exact .inl rfl
  refine h.place hvalid (fun v => ?_) (fun _ hm => hm) (fun _ hm => .inl hm) fun v frame hf => ?_
  · rcases hview' v with heq | heq
    · rw [heq]
      exact h.backed (i, v)
    · rw [heq]
      exact backed_empty
  · rcases hview' v with heq | heq
    · exact h.placed_of_eq heq hf
    · rw [heq] at hf
      cases hf

/-- **A copy-on-write fault** gives the page a new frame of its own. -/
theorem Isolated.resolveCowFault (i faultVa : Nat) {frame : Option Nat}
    (hfresh : ∀ f, frame = some f → w.Fresh f) :
    (w.put i ((w.spaces i).resolveCowFault w.mem faultVa frame).1 w.pool).Isolated := by
  rcases resolveCowFault_spec (h.valid i) (h.onlyAreaPages i) with
    heq | ⟨region, pte, r, new, t, -, -, hold, hcow, hshared, hframe, hrun, -, hvalid, hview⟩
  · rwa [heq, put_self]
  rw [hrun]
  have hid : r.mapType ≠ .identical := (h.backed (i, vpnFloor faultVa)).notIdentical r (congrArg area hold)
  rw [if_neg hid] at hview
  have hnew := hfresh new hframe
  refine h.place hvalid (fun v => ?_) (fun _ hm => hm) (fun _ hm => .inl hm) fun v f hf => ?_
  · rw [hview v]
    split
    · exact backed_mapped rfl hid rfl
    · exact h.backed (i, v)
  by_cases hv : v = vpnFloor faultVa
  · have heq := hview v
    rw [if_pos hv] at heq
    rw [heq] at hf
    obtain rfl : new = f := some.inj hf
    refine .fresh ?_ hnew hnew.1 fun v' hf' => ?_
    · rwa [heq]
    · by_contra hne
      rw [hview v', if_neg fun h => hne (h.trans hv.symm)] at hf'
      exact hnew.2 (i, v') hf'
  · exact h.placed_of_eq (by rw [hview v, if_neg hv]; rfl) hf

/-- The pool after a fault on a page that is not resident: a new frame of a shared mapping joins
it. -/
def faultPool (w : World) (i faultVa : Nat) (env : FaultEnv) (res : LazyFaultResult) : Set Nat :=
  if res = .resolved ∧ ((w.spaces i).vmRegions.containingAddr faultVa).any (fun r => r.shared) = true
  then w.pool ∪ {frame | env.frame = some frame} else w.pool

/-- **A fault on a page that is not resident** gives a private page a new frame, and a shared page
one of a shared object. -/
theorem Isolated.resolveLazyFault (files : Files) (i faultVa : Nat) (access : MapPermission) {env : FaultEnv}
    (hfresh : ∀ f, env.frame = some f → w.Fresh f) (hcached : ∀ f, env.cachedShared = some f → f ∈ w.pool) :
    (w.put i ((w.spaces i).resolveLazyFault w.mem files faultVa access env).1 (w.faultPool i faultVa env
        ((w.spaces i).resolveLazyFault w.mem files faultVa access env).2.2)).Isolated := by
  rcases resolveLazyFault_spec (h.valid i) with
    ⟨mem', res, hrun, hres, -⟩ | ⟨region, flags, r, frame, t, hfault, hrun, -, hvalid, hview⟩
  · rw [hrun]
    have hpool : w.faultPool i faultVa env res = w.pool := if_neg fun hc => hres hc.1
    rwa [hpool, put_self]
  rw [hrun]
  have hshared := (lazyFaultPolicy_shared hfault.admitted).2
  have hid : r.mapType ≠ .identical := by rw [hfault.isLazy]; simp
  have hany : ((w.spaces i).vmRegions.containingAddr faultVa).any (fun r => r.shared) =
      region.shared := by rw [hfault.found]; rfl
  have hsub : w.pool ⊆ w.faultPool i faultVa env .resolved := by
    intro f hf
    unfold faultPool
    split
    · exact .inl hf
    · exact hf
  refine h.place hvalid (fun v => ?_) hsub (fun f hf => ?_) fun v f hf => ?_
  · rw [hview v]
    split
    · exact backed_mapped rfl hid rfl
    · exact h.backed (i, v)
  · unfold faultPool at hf
    split at hf
    · exact hf.imp id (hfresh f)
    · exact .inl hf
  by_cases hv : v = vpnFloor faultVa
  · have heq := hview v
    rw [if_pos hv] at heq
    rw [heq] at hf
    obtain rfl : frame = f := some.inj hf
    have hmark : (t.pageView v).isShared = region.shared := by rwa [heq]
    have hsupplied := hfault.supplied
    cases hsh : region.shared with
    | true =>
      -- from the cache, or new and in the cache from now on
      refine .shared (hmark.trans hsh) ?_
      cases hc : env.cached region with
      | some g =>
        rw [hc] at hsupplied
        obtain rfl : g = frame := some.inj hsupplied
        refine hsub (hcached g ?_)
        unfold FaultEnv.cached at hc
        split at hc
        · exact hc
        · cases hc
      | none =>
        rw [hc] at hsupplied
        unfold faultPool
        rw [if_pos ⟨rfl, hany.trans hsh⟩]
        exact .inr hsupplied
    | false =>
      have hpool : w.faultPool i faultVa env .resolved = w.pool :=
        if_neg fun hc => by rw [hany, hsh] at hc; cases hc.2
      have hc : env.cached region = none := by simp [FaultEnv.cached, VmRegion.usesSharedCache, hsh]
      rw [hc] at hsupplied
      have hnew := hfresh frame hsupplied
      refine .fresh (hmark.trans hsh) hnew (hpool ▸ hnew.1) fun v' hf' => ?_
      by_contra hne
      rw [hview v', if_neg fun h => hne (h.trans hv.symm)] at hf'
      exact hnew.2 (i, v') hf'
  · exact h.placed_of_eq (by rw [hview v, if_neg hv]; rfl) hf

/-- **A store** changes no more than the accessed and dirty bits of one entry. -/
theorem Isolated.store {va : Nat} {byte : UInt8}
    (hrun : (w.spaces i).store w.mem va byte = some (t, mem')) : (w.put i t w.pool).Isolated := by
  obtain ⟨pte, hpte, hview, hareas⟩ : ∃ pte, (w.spaces i).pageTable (vpnFloor va) = some pte ∧
      (∀ v, t.pageView v = if v = vpnFloor va then
          ⟨(w.page (i, v)).area, some (.new pte.ppn { pte.flags with a := true, d := true })⟩
        else w.page (i, v)) ∧ t.areas = (w.spaces i).areas := by
    obtain ⟨pte, hpte, -, -, rfl, -⟩ := store_eq_some hrun
    refine ⟨pte, hpte, fun v => ?_, rfl⟩
    unfold pageView
    dsimp only
    rw [PageTable.setFlags_apply, hpte]
    split <;> rfl
  -- the marked page is as before in all that counts
  have hflags v : (t.pageView v).frame = (w.page (i, v)).frame ∧ (t.pageView v).isShared =
      (w.page (i, v)).isShared ∧ (t.pageView v).isWritable = (w.page (i, v)).isWritable := by
    rw [hview v]
    split
    · next hv =>
      have hp : (w.page (i, v)).pte = some pte := by rw [hv]; exact hpte
      rw [isShared_of_pte hp, isWritable_of_pte hp]
      exact ⟨rfl, rfl, rfl⟩
    · exact ⟨rfl, rfl, rfl⟩
  refine h.place (hareas ▸ h.valid i) (fun v => ?_) (fun _ hm => hm) (fun _ hm => .inl hm) fun v frame hf => ?_
  · rw [hview v]
    split
    · next hv =>
      have hb := h.backed (i, v)
      refine ⟨fun pte' hp => ?_, nofun, hb.notIdentical⟩
      cases hp
      exact hb.mapped pte (hv ▸ hpte)
    · exact h.backed (i, v)
  · obtain ⟨h1, h2, h3⟩ := hflags v
    refine .kept i (h1 ▸ hf) h2 (fun _ hw => ⟨rfl, h.sole (h3 ▸ hw)⟩) fun _ hne => (hne rfl).elim

end

/-- What changes of protection do to an address space: frames and marks stay, and a page becomes
writable only in `W` and without a copy-on-write mark. -/
structure Reprotects (W : Nat → Prop) (s t : MemorySet) : Prop where
  valid : AreasValid t.areas
  backed : ∀ v, (t.pageView v).Backed
  frame : ∀ v, (t.pageView v).frame = (s.pageView v).frame
  marks : ∀ v, (s.pageView v).frame ≠ none → (t.pageView v).isShared = (s.pageView v).isShared ∧
    (t.pageView v).isCow = (s.pageView v).isCow
  writes : ∀ v, (t.pageView v).isWritable = true →
    (s.pageView v).isWritable = true ∨ W v ∧ (s.pageView v).isCow = false

section

variable (h : Reprotects W s u)

include h

theorem Reprotects.trans (h' : Reprotects W u t) : Reprotects W s t := by
  refine ⟨h'.valid, h'.backed, fun v => (h'.frame v).trans (h.frame v), fun v hv => ?_, fun v hw => ?_⟩
  · obtain ⟨h1, h2⟩ := h.marks v hv
    obtain ⟨h3, h4⟩ := h'.marks v (by rw [h.frame v]; exact hv)
    exact ⟨h3.trans h1, h4.trans h2⟩
  rcases h'.writes v hw with hu | ⟨hW, hc⟩
  · exact h.writes v hu
  · have hne : (s.pageView v).frame ≠ none := by
      rw [← h.frame v, ← h'.frame v]
      intro hf
      rw [isWritable, (h'.backed v).pte_eq_none hf] at hw
      cases hw
    exact .inr ⟨hW, (h.marks v hne).2 ▸ hc⟩

theorem Reprotects.mprotectUserRange (hlt : start < stop) (newPerm : MapPermission)
    (hW : newPerm.w = true → ∀ v, vpnFloor start ≤ v → v < vpnCeil stop → W v) :
    Reprotects W s (u.mprotectUserRange start stop newPerm) := by
  obtain ⟨hvalid, hview⟩ := mprotectUserRange_spec h.valid (vpnFloor_lt_vpnCeil hlt)
  refine h.trans ⟨hvalid, fun v => ?_, fun v => ?_, fun v hv => ?_, fun v hw => ?_⟩
  · rw [hview v]
    split
    · exact ((h.backed v).mprotected newPerm).1
    · exact h.backed v
  · rw [hview v]
    split
    · exact ((h.backed v).mprotected newPerm).2.1
    · rfl
  · rw [hview v]
    split
    · exact ((h.backed v).mprotected newPerm).2.2.1 hv
    · exact ⟨rfl, rfl⟩
  · rw [hview v] at hw
    split at hw
    · next hin =>
      exact (((h.backed v).mprotected newPerm).2.2.2 hw).imp id fun hc => ⟨hW hc.1 v hin.1 hin.2, hc.2⟩
    · exact .inl hw

/-- The pages that an `mprotect` of these regions may make writable. -/
def writeOpened (regions : List VmRegion) (v : Nat) : Prop :=
  ∃ region ∈ regions, region.mapPerm.w = true ∧ vpnFloor region.start ≤ v ∧
    v < vpnCeil (min region.endAddr region.sigbusStart)

theorem Reprotects.mprotectRegion (region : VmRegion) (hW : ∀ v, writeOpened [region] v → W v) :
    Reprotects W s (u.mprotectRegion region) := by
  unfold MemorySet.mprotectRegion
  dsimp only
  have hfirst : Reprotects W s (if region.start < min region.endAddr region.sigbusStart then
      u.mprotectUserRange region.start (min region.endAddr region.sigbusStart) region.mapPerm
      else u) := by
    split
    · next hlt =>
      refine h.mprotectUserRange hlt region.mapPerm fun hw v h1 h2 => hW v ?_
      exact ⟨region, mem_singleton_self region, hw, h1, h2⟩
    · exact h
  split
  · -- the pages behind the SIGBUS start get no access
    next hlt => exact hfirst.mprotectUserRange hlt .U nofun
  · exact hfirst

theorem Reprotects.mprotectRegions {regions : List VmRegion}
    (hW : ∀ v, writeOpened regions v → W v) : Reprotects W s (regions.foldl MemorySet.mprotectRegion u) := by
  induction regions generalizing u with
  | nil => exact h
  | cons region _ ih =>
    refine ih (h.mprotectRegion region fun v hv => hW v ?_) fun v hv => hW v ?_
    · obtain ⟨r, hr, hrest⟩ := hv
      exact ⟨r, mem_singleton.mp hr ▸ (.head _), hrest⟩
    · obtain ⟨r, hr, hrest⟩ := hv
      exact ⟨r, .tail _ hr, hrest⟩

end

/-- The regions whose pages an `mprotect` of the space `i` goes through. -/
def mprotectedRegions (w : World) (i start stop newProt : Nat) : List VmRegion :=
  (((w.spaces i).vmRegions.applyMprotectRange start stop newProt).map
    (fun vmRegions => vmRegions.snapshotRange start stop)).getD []

/-- **A change of protection**, where no page is made writable that has no copy-on-write mark and
whose frame another private page holds. -/
theorem Isolated.mprotect (h : w.Isolated) {newProt : Nat}
    (hrun : (w.spaces i).mprotectUserVmaRange start stop newProt = .ok t)
    (hguard : ∀ v, writeOpened (w.mprotectedRegions i start stop newProt) v →
      (w.page (i, v)).isCow = false → w.Sole (i, v)) : (w.put i t w.pool).Isolated := by
  have hrep : Reprotects (writeOpened (w.mprotectedRegions i start stop newProt)) (w.spaces i) t := by
    unfold mprotectUserVmaRange at hrun
    iterate 2
      split at hrun
      · cases hrun
    unfold mprotectedRegions
    cases happ : (w.spaces i).vmRegions.applyMprotectRange start stop newProt with
    | none => rw [happ] at hrun; cases hrun
    | some =>
      rw [happ] at hrun
      cases hrun
      refine Reprotects.mprotectRegions ?_ fun _ hv => hv
      exact ⟨h.valid i, fun v => h.backed (i, v), fun _ => rfl, fun _ _ => ⟨rfl, rfl⟩, fun _ => .inl⟩
  refine h.place hrep.valid hrep.backed (fun _ hm => hm) (fun _ hm => .inl hm) fun v frame hf => ?_
  have hheld : (w.page (i, v)).frame = some frame := (hrep.frame v).symm.trans hf
  have hne : ((w.spaces i).pageView v).frame ≠ none := by
    rw [← hrep.frame v, hf]
    simp
  refine .kept i hheld (hrep.marks v hne).1 (fun _ hw => ⟨rfl, ?_⟩) fun _ hno => (hno rfl).elim
  rcases hrep.writes v hw with hold | ⟨hopen, hcow⟩
  · exact h.sole hold
  · exact hguard v hopen hcow

theorem not_mem_drop_of_getElem? {l : List Nat} (hnodup : l.Nodup) {k f : Nat}
    (hj : l[j]? = some f) (hlt : j < k) : f ∉ l.drop k := by
  intro hmem
  obtain ⟨n, hn⟩ := mem_iff_getElem?.mp hmem
  rw [getElem?_drop] at hn
  have := (getElem?_inj (List.getElem?_eq_some_iff.mp hj).1 hnodup).mp (hj.trans hn.symm)
  omega

/-- **Inserting one area**: its pages have no frame yet, or new ones, or those of a shared
object. -/
theorem Isolated.insertedArea (h : w.Isolated) {area : VmaInsertArea}
    (hins : InsertedArea region start stop area frames (w.spaces i) t) (hnodup : frames.Nodup)
    (hfresh : ∀ f ∈ frames, w.Fresh f) (hshared : ∀ f ∈ area.frames, f ∈ w.pool) :
    (w.put i t w.pool).Isolated ∧ ∀ f ∈ frames.drop area.taken, (w.put i t w.pool).Fresh f := by
  have hpages v : (t.pageView v).Backed ∧ ∀ f, (t.pageView v).frame = some f → Placed w i t w.pool v f ∧
      f ∉ frames.drop area.taken := by
    rcases hins.pageView v with ⟨heq, -⟩ | ⟨-, ⟨hlt, h1, h2⟩, perm, -, hnew⟩
    · refine ⟨heq ▸ h.backed (i, v), fun f hf => ⟨h.placed_of_eq heq hf, fun hmem => ?_⟩⟩
      rw [heq] at hf
      exact (hfresh f (mem_of_mem_drop hmem)).2 (i, v) hf
    generalize hview : t.pageView v = view at hnew
    cases hnew with
    | lazy =>
      exact ⟨backed_unmapped nofun fun h => (h rfl).elim, nofun⟩
    | @framed a b v frame hframe =>
      refine ⟨backed_mapped rfl (by simp) rfl, fun f hf => ?_⟩
      obtain rfl : frame = f := some.inj hf
      have hmem : frame ∈ frames := mem_of_getElem? hframe
      have hnew := hfresh frame hmem
      refine ⟨.fresh (by rw [hview]; rfl) hnew hnew.1 fun v' hf' => ?_, ?_⟩
      · -- another page with the frame would have taken it from the same place of the list
        rcases hins.pageView v' with ⟨heq, -⟩ | ⟨-, ⟨-, h1', -⟩, perm', -, hnew'⟩
        · rw [heq] at hf'
          exact absurd hf' (hnew.2 (i, v'))
        generalize t.pageView v' = view' at hnew' hf'
        cases hnew' with
        | framed hframe' =>
          cases hf'
          have hidx := (getElem?_inj (List.getElem?_eq_some_iff.mp hframe).1 hnodup).mp
            (hframe.trans hframe'.symm)
          change vpnFloor a ≤ v at h1
          change vpnFloor a ≤ v' at h1'
          omega
      · refine not_mem_drop_of_getElem? hnodup hframe ?_
        change vpnFloor a ≤ v at h1
        change v < vpnCeil b at h2
        change a < b at hlt
        unfold VmaInsertArea.taken
        dsimp only
        rw [if_neg (Nat.not_le_of_lt hlt)]
        omega
    | @shared a b v frame l hframe =>
      refine ⟨backed_mapped rfl (by simp) rfl, fun f hf => ?_⟩
      obtain rfl : frame = f := some.inj hf
      have hmem := hshared frame (mem_of_getElem? hframe)
      exact ⟨.shared (by rw [hview]; rfl) hmem, fun hdrop => (hfresh frame (mem_of_mem_drop hdrop)).1 hmem⟩
  refine ⟨h.place (hins.valid (h.valid i)) (fun v => (hpages v).1) (fun _ hm => hm)
    (fun _ hm => .inl hm) fun v f hf => ((hpages v).2 f hf).1, fun f hf => ?_⟩
  have hold := hfresh f (mem_of_mem_drop hf)
  refine ⟨hold.1, fun a => ?_⟩
  rw [page_put]
  split
  · intro hheld
    exact ((hpages a.2).2 f hheld).2 hf
  · exact hold.2 a

theorem Isolated.insertedAreas (hins : InsertedAreas region start stop areas frames s t)
    (h : w.Isolated) (hs : w.spaces i = s) (hnodup : frames.Nodup) (hfresh : ∀ f ∈ frames, w.Fresh f)
    (hshared : ∀ area ∈ areas, ∀ f ∈ area.frames, f ∈ w.pool) : (w.put i t w.pool).Isolated := by
  induction hins generalizing w with
  | nil =>
    subst hs
    rwa [put_self]
  | @cons area areas frames s u t head tail ih =>
    subst hs
    obtain ⟨hone, hfresh'⟩ := h.insertedArea head hnodup hfresh (hshared area (.head _))
    have hself : (w.put i u w.pool).spaces i = u := by simp [put]
    have hrest := ih hone hself (hnodup.sublist (drop_sublist ..)) hfresh' fun area' h' => hshared
      area' (.tail _ h')
    simpa [put] using hrest

/-- A successful insertion is the insertion of its areas, as far as pages go. -/
theorem insertedAreas_of_insert (hvalid : AreasValid s.areas) (honly : s.OnlyAreaPages)
    {lockRange hasFile : Bool}
    (hrun : s.tryInsertUserVmaWith region areas lockRange hasFile frames maxMapCount
      postInsert = some (t, true)) :
    ∃ u, InsertedAreas region region.start region.endAddr areas frames s u ∧ t.areas = u.areas ∧
      t.pageTable = u.pageTable := by
  obtain ⟨u, _, ok, _, hareas, -, hall, hins⟩ :=
    @insertAreas_spec _ region.start region.endAddr frames region areas hvalid honly
  -- the only way to succeed is to record the region
  have hrec : ok = true ∧ u.recordRegion region lockRange hasFile = (t, true) := by
    unfold tryInsertUserVmaWith tryInsertUserVmaRaw at hrun
    rw [hareas] at hrun
    split at hrun
    · cases hrun
    cases ok with
    | false =>
      obtain ⟨_, -, heq⟩ := map_eq_some_iff.mp hrun
      cases heq
    | true =>
      dsimp only at hrun
      cases hr : u.recordRegion region lockRange hasFile with
      | mk _ ok' =>
        rw [hr] at hrun
        cases ok' with
        | false =>
          obtain ⟨_, -, heq⟩ := map_eq_some_iff.mp hrun
          cases heq
        | true =>
          dsimp only at hrun
          split at hrun
          · cases hrun
            exact ⟨rfl, rfl⟩
          · obtain ⟨_, -, heq⟩ := map_eq_some_iff.mp hrun
            cases heq
  obtain ⟨hok, hrec⟩ := hrec
  rw [hall hok] at hins
  refine ⟨u, hins, ?_⟩
  obtain ⟨h1, h2⟩ := @recordRegion_pages u region lockRange hasFile
  rw [hrec] at h1 h2
  exact ⟨h1, h2⟩

/-- **A mapping is inserted.** -/
theorem Isolated.insert (h : w.Isolated) {lockRange hasFile : Bool}
    (hrun : (w.spaces i).tryInsertUserVmaWith region areas lockRange hasFile frames maxMapCount
      postInsert = some (t, true)) (hnodup : frames.Nodup) (hfresh : ∀ f ∈ frames, w.Fresh f)
    (hshared : ∀ area ∈ areas, ∀ f ∈ area.frames, f ∈ w.pool) : (w.put i t w.pool).Isolated := by
  obtain ⟨u, hins, hareas, hpt⟩ := insertedAreas_of_insert (h.valid i) (h.onlyAreaPages i) hrun
  refine (insertedAreas hins h rfl hnodup hfresh hshared).congr (fun j => ?_) rfl
  unfold put
  dsimp only
  rw [Function.update_apply, Function.update_apply]
  split
  · exact ⟨hareas, hpt⟩
  · exact ⟨rfl, rfl⟩

/-- The frames of the pages of `s` that are marked `SHARED`. -/
def sharedFramesOf (s : MemorySet) : Set Nat :=
  {frame | ∃ v, (s.pageView v).frame = some frame ∧ (s.pageView v).isShared = true}

/-- **`fork`.** The parent's pages lose their write bit first; then the child has the same
frames. -/
theorem Isolated.fork (h : w.Isolated) {p c : MemorySet}
    (hrun : (w.spaces i).fromExistedUserCow w.mem frames = some (p, c, mem'))
    (hnodup : frames.Nodup) (hfresh : ∀ f ∈ frames, w.Fresh f) :
    ((w.put i p w.pool).put j c (w.pool ∪ sharedFramesOf c)).Isolated := by
  obtain ⟨_, _, _, copies, _, hrun', hforked⟩ := fromExistedUserCow_spec (h.valid i)
  rw [hrun] at hrun'
  cases hrun'
  have hused v f (hc : copies v = some f) : w.Fresh f :=
    hfresh f (hforked.taken.subset (hforked.mem_used v f hc))
  have hinj := hforked.inj (hnodup.sublist hforked.taken.sublist)
  have hpareas : p.areas = (w.spaces i).areas := by rw [hforked.parent]
  -- the parent
  have hparent : (w.put i p w.pool).Isolated := by
    refine h.place (hpareas ▸ h.valid i) (fun v => ?_) (fun _ hm => hm) (fun _ hm => .inl hm) fun v f hf => ?_
    · rw [hforked.parentView v]
      exact (h.backed (i, v)).forkedParent.1
    obtain ⟨-, h2, h3, h4⟩ := (h.backed (i, v)).forkedParent
    have heq : p.pageView v = (w.page (i, v)).forkedParent := hforked.parentView v
    rw [heq, h2] at hf
    refine .kept i hf (by rw [heq, h3]) (fun _ hw => ⟨rfl, h.sole (h4 ?_)⟩) fun _ hne => (hne rfl).elim
    rwa [← heq]
  have hpage v : (w.put i p w.pool).page (i, v) = (w.page (i, v)).forkedParent := by
    rw [page_put, if_pos rfl]
    exact hforked.parentView v
  -- the frames for copies are still new
  have hfresh' f (hf : w.Fresh f) : (w.put i p w.pool).Fresh f := by
    refine ⟨hf.1, fun a => ?_⟩
    rw [page_put]
    split
    · rw [hforked.parentView a.2]
      change (w.page (i, a.2)).forkedParent.frame ≠ some f
      rw [(h.backed (i, a.2)).forkedParent.2.1]
      exact hf.2 (i, a.2)
    · exact hf.2 a
  have hcases v f : (c.pageView v).frame = some f →
      ((w.page (i, v)).frame = some f ∧ (c.pageView v).isShared = (w.page (i, v)).isShared ∧
      ((w.page (i, v)).isShared = false → (c.pageView v).isWritable = false ∧
      (w.page (i, v)).forkedParent.isWritable = false)) ∨ copies v = some f := by
    rw [hforked.childView v]
    exact ((h.backed (i, v)).forkedChild (copies v)).2 f
  refine hparent.place hforked.valid (fun v => ?_) (fun f hf => .inl hf) (fun f hf => ?_) fun v f hf => ?_
  · rw [hforked.childView v]
    exact ((h.backed (i, v)).forkedChild (copies v)).1
  · -- a marked page of the child is one of the parent, or a copy
    rcases hf with hf | ⟨v, hv, hsh⟩
    · exact .inl hf
    · rcases hcases v f hv with ⟨hheld, hmark, -⟩ | hcopy
      · exact .inl ((h.pool (i, v) f hheld).mp (hmark ▸ hsh))
      · exact .inr (hfresh' f (hused v f hcopy))
  cases hsh : (c.pageView v).isShared with
  | true => exact .shared hsh (.inr ⟨v, hf, hsh⟩)
  | false =>
    rcases hcases v f hf with ⟨hheld, hmark, hnow⟩ | hcopy
    · have hpriv : (w.page (i, v)).isShared = false := hmark ▸ hsh
      obtain ⟨hc, hp⟩ := hnow hpriv
      refine .kept i ?_ ?_ (fun _ hw => ?_) fun _ _ => ?_
      · rwa [hpage, (h.backed (i, v)).forkedParent.2.1]
      · rw [hpage, (h.backed (i, v)).forkedParent.2.2.1, hmark]
      · rw [hc] at hw
        cases hw
      · rwa [hpage]
    · have hnew := hused v f hcopy
      refine .fresh hsh (hfresh' f hnew) ?_ fun v' hf' => ?_
      · rintro (hm | ⟨u, hu, hush⟩)
        · exact hnew.1 hm
        -- the copy belongs to the page `v`, which is private
        rcases hcases u f hu with ⟨hheld, -, -⟩ | hcopy'
        · exact hnew.2 _ hheld
        · rw [hinj v u f hcopy hcopy', hush] at hsh
          cases hsh
      · rcases hcases v' f hf' with ⟨hheld, -, -⟩ | hcopy'
        · exact absurd hheld (hnew.2 _)
        · exact hinj v' v f hcopy' hcopy

end Operations

end World

end HitOS
