import HitOS.Mm.CowSteps

/-!
# Runs of many address spaces

A run starts without any address space. `Op` is an operation with its arguments, `Op.Allowed` what
holds of the frames it is given: frames from the allocator are held by nobody, and the pages of
memfd and System V segments and of the shared page caches are frames of the pool.

`cow_isolated_of_run` is the result: along every run in which each `mprotect` meets `Op.Guarded`, no
frame of two private pages is writable through either, and a store is seen by no private page but
the one it goes to. Without the condition this fails (`mprotect_opens_shared_frame`): a page that is
made read-only, shared by `fork` and made writable again is written by both processes.
-/

namespace HitOS

open World Function PageView Option List

/-- An operation of one of the processes, or of the kernel on a shared object. -/
inductive Op where
  /-- A process starts with an address space that the loader has built. -/
  | spawn (i : Nat) (image : MemorySet)
  | exit (i : Nat)
  | insert (i : Nat) (region : VmRegion) (areas : List VmaInsertArea) (lockRange hasFile : Bool)
      (frames : List Nat) (maxMapCount : Nat) (postInsert : MemorySet → Bool)
  | unmap (i start stop : Nat)
  | mprotect (i start stop newProt : Nat)
  | fork (i j : Nat) (frames : List Nat)
  | cowFault (i faultVa : Nat) (frame : Option Nat)
  | lazyFault (i faultVa : Nat) (access : MapPermission) (env : FaultEnv)
  | store (i va : Nat) (byte : UInt8)
  /-- A frame becomes part of a shared object. -/
  | share (frame : Nat)
  /-- A shared object gives a frame up. -/
  | release (frame : Nat)

namespace Op

/-- The world after an operation; `none` where it reports failure or its access is not admitted. -/
def apply (files : Files) (w : World) : Op → Option World
  | spawn i image => some (w.put i image w.pool)
  | exit i => some (w.put i {} w.pool)
  | insert i region areas lockRange hasFile frames maxMapCount postInsert =>
    match (w.spaces i).tryInsertUserVmaWith region areas lockRange hasFile frames maxMapCount
        postInsert with
    | some (t, true) => some (w.put i t w.pool)
    | _ => none
  | unmap i start stop => some (w.put i ((w.spaces i).unmapUserVmaRange start stop) w.pool)
  | mprotect i start stop newProt =>
    match (w.spaces i).mprotectUserVmaRange start stop newProt with
    | .ok t => some (w.put i t w.pool)
    | .error _ => none
  | fork i j frames =>
    match (w.spaces i).fromExistedUserCow w.mem frames with
    | none => none
    | some (p, c, mem) =>
      some { (w.put i p w.pool).put j c (w.pool ∪ sharedFramesOf c) with mem := mem }
  | cowFault i faultVa frame =>
    match (w.spaces i).resolveCowFault w.mem faultVa frame with
    | (t, mem, _) => some { w.put i t w.pool with mem := mem }
  | lazyFault i faultVa access env =>
    match (w.spaces i).resolveLazyFault w.mem files faultVa access env with
    | (t, mem, res) => some { w.put i t (w.faultPool i faultVa env res) with mem := mem }
  | store i va byte =>
    match (w.spaces i).store w.mem va byte with
    | none => none
    | some (t, mem) => some { w.put i t w.pool with mem := mem }
  | share frame => some { w with pool := w.pool ∪ {frame} }
  | release frame => some { w with pool := w.pool \ {frame} }

/-- What the allocator and the shared objects provide. -/
def Allowed (w : World) : Op → Prop
  | spawn i image =>
    w.spaces i = {} ∧ AreasValid image.areas ∧ (∀ v, (image.pageView v).Backed) ∧
      ∀ v frame, (image.pageView v).frame = some frame → w.Fresh frame ∧ (image.pageView v).isShared = false ∧
        ∀ v', (image.pageView v').frame = some frame → v' = v
  | insert _ _ areas _ _ frames _ _ =>
    frames.Nodup ∧ (∀ frame ∈ frames, w.Fresh frame) ∧ ∀ area ∈ areas, ∀ frame ∈ area.frames, frame ∈ w.pool
  | fork i j frames => i ≠ j ∧ w.spaces j = {} ∧ frames.Nodup ∧ ∀ frame ∈ frames, w.Fresh frame
  | cowFault _ _ frame => ∀ f, frame = some f → w.Fresh f
  | lazyFault _ _ _ env =>
    (∀ f, env.frame = some f → w.Fresh f) ∧ ∀ f, env.cachedShared = some f → f ∈ w.pool
  | share frame => w.Fresh frame
  | release frame => ∀ a, (w.page a).frame ≠ some frame
  | exit _ | unmap .. | mprotect .. | store .. => True

/-- No `mprotect` makes a page writable that has no copy-on-write mark and whose frame another
private page holds. -/
def Guarded (w : World) : Op → Prop
  | mprotect i start stop newProt =>
    ∀ v, writeOpened (w.mprotectedRegions i start stop newProt) v → (w.page (i, v)).isCow = false →
      w.Sole (i, v)
  | _ => True

end Op

/-- No process, no shared object. -/
def World.boot : World := { spaces := fun _ => {}, mem := fun _ _ => 0, pool := ∅ }

theorem World.boot_isolated : boot.Isolated := by
  refine ⟨fun _ => areasValid_nil, fun a => ?_, fun a frame h => ?_, fun a b frame _ h => ?_⟩
  · exact backed_empty
  · cases h
  · have := h.1
    cases this

/-- The memory plays no part in isolation. -/
theorem World.Isolated.withMem {w : World} (h : w.Isolated) {mem : Memory} :
    ({ w with mem := mem } : World).Isolated :=
  h.congr (fun _ => ⟨rfl, rfl⟩) rfl

/-- **A step keeps pages isolated.** -/
theorem Op.apply_isolated {files : Files} {w w' : World} (h : w.Isolated) {op : Op} (hallowed : op.Allowed w)
    (hguarded : op.Guarded w) (hrun : op.apply files w = some w') : w'.Isolated := by
  cases op with
  | spawn =>
    cases hrun
    obtain ⟨-, hvalid, hbacked, hframes⟩ := hallowed
    refine h.place hvalid hbacked (fun _ hm => hm) (fun _ hm => .inl hm) fun v frame hf => ?_
    obtain ⟨hfresh, hpriv, hinj⟩ := hframes v frame hf
    exact .fresh hpriv hfresh hfresh.1 hinj
  | exit =>
    cases hrun
    refine h.place areasValid_nil (fun v => backed_empty) (fun _ hm => hm) (fun _ hm => .inl hm)
      fun v frame hf => ?_
    cases hf
  | insert =>
    obtain ⟨hnodup, hfresh, hshared⟩ := hallowed
    simp only [apply] at hrun
    split at hrun
    · next t hins =>
      cases hrun
      exact h.insert hins hnodup hfresh hshared
    · cases hrun
  | unmap i start stop =>
    cases hrun
    exact h.unmap i start stop
  | mprotect =>
    simp only [apply] at hrun
    split at hrun
    · next t hok =>
      cases hrun
      exact h.mprotect hok hguarded
    · cases hrun
  | fork =>
    obtain ⟨-, -, hnodup, hfresh⟩ := hallowed
    simp only [apply] at hrun
    split at hrun
    · cases hrun
    · next p c mem hfork =>
      cases hrun
      exact (h.fork hfork hnodup hfresh).withMem
  | cowFault i faultVa =>
    cases hrun
    exact (h.resolveCowFault i faultVa hallowed).withMem
  | lazyFault i faultVa access =>
    cases hrun
    exact (h.resolveLazyFault files i faultVa access hallowed.1 hallowed.2).withMem
  | store =>
    simp only [apply] at hrun
    split at hrun
    · cases hrun
    · next t mem hstore =>
      cases hrun
      exact (h.store hstore).withMem
  | share frame =>
    cases hrun
    refine ⟨h.valid, h.backed, fun a f hf => ?_, h.alone⟩
    change (w.page a).isShared = true ↔ f ∈ w.pool ∪ {frame}
    rw [h.pool a f hf]
    refine ⟨.inl, fun hm => hm.resolve_right ?_⟩
    rintro rfl
    exact hallowed.2 a hf
  | release frame =>
    cases hrun
    refine ⟨h.valid, h.backed, fun a f hf => ?_, h.alone⟩
    change (w.page a).isShared = true ↔ f ∈ w.pool \ {frame}
    rw [h.pool a f hf]
    refine ⟨fun hm => ⟨hm, ?_⟩, fun hm => hm.1⟩
    rintro rfl
    exact hallowed a hf

/-- **Copy-on-write isolation.** Along every run whose `mprotect` calls meet the condition, of two
private pages with one frame neither is writable, and a store changes no byte that can be read
through another private page. -/
theorem cow_isolated_of_run {files : Files} {w : World} (h : Reachable (· = World.boot)
      (fun w w' => ∃ op : Op, op.Allowed w ∧ op.Guarded w ∧ op.apply files w = some w') w) :
    (∀ i v j u pte pte', (i, v) ≠ (j, u) → (w.spaces i).pageTable v = some pte →
      (w.spaces j).pageTable u = some pte' → pte.ppn = pte'.ppn → pte.flags.shared = false →
      pte'.flags.shared = false → pte.flags.w = false ∧ pte'.flags.w = false) ∧
    ∀ i va byte w', (Op.store i va byte).apply files w = some w' → ∀ j va' pte, (j, vpnFloor va') ≠
      (i, vpnFloor va) →
        (w.spaces j).pageTable (vpnFloor va') = some pte → pte.flags.shared = false →
        (w'.spaces j).load w'.mem va' = (w.spaces j).load w.mem va' := by
  have hiso : w.Isolated := by
    refine Reachable.invariant ?_ ?_ h
    · rintro w rfl
      exact boot_isolated
    · rintro w w' hw ⟨op, hallowed, hguarded, hrun⟩
      exact Op.apply_isolated hw hallowed hguarded hrun
  have hholds i v pte (hpte : (w.spaces i).pageTable v = some pte) (hs : pte.flags.shared = false) :
      w.Holds (i, v) pte.ppn := by
    have hp : (w.page (i, v)).pte = some pte := hpte
    exact ⟨(hiso.backed (i, v)).mapped pte hp, (isShared_of_pte hp).trans hs⟩
  refine ⟨fun i v j u pte pte' hne hp hp' heq hs hs' => ?_, fun i va byte w' hrun j va' pte hne hp hs => ?_⟩
  · have h1 := hholds i v pte hp hs
    have h2 := hholds j u pte' hp' hs'
    rw [← heq] at h2
    have hw1 := hiso.alone _ _ _ hne h1 h2
    have hw2 := hiso.alone _ _ _ hne.symm h2 h1
    rw [isWritable_of_pte hp] at hw1
    rw [isWritable_of_pte hp'] at hw2
    exact ⟨hw1, hw2⟩
  simp only [Op.apply] at hrun
  split at hrun
  · cases hrun
  next _ _ hstore =>
  cases hrun
  obtain ⟨pte₀, hp₀, -, hw₀, rfl, rfl⟩ := MemorySet.store_eq_some hstore
  -- the frame that is written is not the frame of the other page
  have hframe : pte.ppn ≠ pte₀.ppn := by
    intro heq
    have h1 := hholds j (vpnFloor va') pte hp hs
    have hpage : (w.page (i, vpnFloor va)).pte = some pte₀ := hp₀
    have hheld := (hiso.backed (i, vpnFloor va)).mapped pte₀ hpage
    rw [heq] at h1
    cases hs₀ : pte₀.flags.shared with
    | true =>
      have hm := (hiso.pool _ _ hheld).mp ((isShared_of_pte hpage).trans hs₀)
      have := (hiso.pool _ _ h1.1).mpr hm
      rw [h1.2] at this
      cases this
    | false =>
      have h2 := hholds i (vpnFloor va) pte₀ hp₀ hs₀
      have := hiso.alone _ _ _ hne.symm h2 h1
      rw [isWritable_of_pte hpage, hw₀] at this
      cases this
  -- and its entry is as before
  have hentry : ((update w.spaces i { w.spaces i with
      pageTable := (w.spaces i).pageTable.setFlags (vpnFloor va)
        { pte₀.flags with a := true, d := true } }) j).pageTable (vpnFloor va') = some pte := by
    rw [update_apply]
    split
    · next hji =>
      subst hji
      dsimp only
      rwa [PageTable.setFlags_apply, if_neg fun hv => hne (by rw [hv])]
    · exact hp
  unfold MemorySet.load
  dsimp only [put]
  rw [hentry, hp]
  dsimp only
  rw [update_of_ne hframe]

/-- A frame that no area tracks is free. -/
theorem World.fresh_of_areas {w : World} {frame : Nat} (hpool : frame ∉ w.pool)
    (h : ∀ i, ∀ area ∈ (w.spaces i).areas, ∀ v, area.dataFrames.get? v ≠ some frame) : w.Fresh frame := by
  refine ⟨hpool, fun a hf => ?_⟩
  obtain ⟨r, hr, hframe⟩ := bind_eq_some_iff.mp hf
  obtain ⟨area, hmem, -, hread⟩ := Items.exists_of_readAt hr
  refine h a.1 area hmem a.2 ?_
  rw [← hframe, ← hread]
  rfl

/-- After the first mapping of the first process all frames that it does not track are free. -/
theorem World.boot_put_fresh {t : MemorySet} {frame : Nat}
    (h : ∀ area ∈ t.areas, ∀ v, area.dataFrames.get? v ≠ some frame) :
    (boot.put 0 t boot.pool).Fresh frame := by
  refine fresh_of_areas (fun hm => hm) fun i area hmem => ?_
  unfold put at hmem
  dsimp only at hmem
  rw [update_apply] at hmem
  split at hmem
  · exact h area hmem
  · cases hmem

/-- A writable page is mapped at 0x1000. -/
def mapPage : Op :=
  .insert 0 (.anonymous 0x1000 0x1000 3) [.lazy 0x1000 0x2000] false false [] 100 fun _ => true

theorem mapPage_allowed {w : World} : mapPage.Allowed w :=
  ⟨.nil, by simp, by simp [VmaInsertArea.frames]⟩

/-- It is accessed, and gets the frame 7. -/
def touchPage : Op := .lazyFault 0 0x1000 .W ⟨none, some 7, true⟩

theorem touchPage_allowed {w : World} (h : mapPage.apply (fun _ _ _ => 0) boot = some w) :
    touchPage.Allowed w := by
  cases h
  refine ⟨fun f _ => boot_put_fresh fun area hmem v h => ?_, nofun⟩
  cases mem_singleton.mp hmem
  cases h

/-- A page is written, made read-only and shared by `fork`: both processes have the frame 7, and
neither can write it. -/
theorem cow_isolated_of_run_fork : ∃ (w : World) (pte pte' : Pte), (w.spaces 0).pageTable 1 = some pte ∧
      (w.spaces 1).pageTable 1 = some pte' ∧ pte.ppn = 7 ∧ pte'.ppn = 7 ∧
      pte.flags.w = false ∧ pte'.flags.w = false := by
  have hrun : ∃ w, Reachable (· = boot) (fun w w' => ∃ op : Op, op.Allowed w ∧
        op.Guarded w ∧ op.apply (fun _ _ _ => 0) w = some w') w ∧
      ((w.spaces 0).pageTable 1).map (fun pte => (pte.ppn, pte.flags.shared)) = some (7, false) ∧
      ((w.spaces 1).pageTable 1).map (fun pte => (pte.ppn, pte.flags.shared)) = some (7, false) := by
    refine ⟨_, .step (.step (.step (.step (.step (.start rfl)
      ⟨mapPage, mapPage_allowed, trivial, rfl⟩) ⟨touchPage, touchPage_allowed rfl, trivial, rfl⟩)
      ⟨.store 0 0x1000 42, trivial, trivial, rfl⟩)
      ⟨.mprotect 0 0x1000 0x2000 1, trivial, fun v hv => ?_, rfl⟩)
      ⟨.fork 0 1 [], ⟨by decide, rfl, .nil, by simp⟩, trivial, rfl⟩, ?_⟩
    · -- the one region of the range is not writable
      obtain ⟨_, hmem, hw, -⟩ := hv
      cases mem_singleton.mp hmem
      cases hw
    · decide +kernel
  obtain ⟨w, hreach, h0, h1⟩ := hrun
  obtain ⟨pte, hpte, hval⟩ := map_eq_some_iff.mp h0
  obtain ⟨pte', hpte', hval'⟩ := map_eq_some_iff.mp h1
  obtain ⟨hppn, hshared⟩ := Prod.mk.inj hval
  obtain ⟨hppn', hshared'⟩ := Prod.mk.inj hval'
  exact ⟨w, pte, pte', hpte, hpte', hppn, hppn', (cow_isolated_of_run hreach).1 0 1 1 1 pte pte'
    (by decide) hpte hpte' (hppn.trans hppn'.symm) hshared hshared'⟩

/-- A page is made read-only, shared by `fork` and made writable again: the parent can write the
frame 7, which is the child's private page too, and the child sees the store. -/
theorem mprotect_opens_shared_frame : ∃ w w', Reachable (· = World.boot)
        (fun w w' => ∃ op : Op, op.Allowed w ∧ op.apply (fun _ _ _ => 0) w = some w') w ∧
      (Op.store 0 0x1000 42).apply (fun _ _ _ => 0) w = some w' ∧
      ((w.spaces 0).pageTable 1).map (fun pte => (pte.ppn, pte.flags.shared, pte.flags.w)) =
        some (7, false, true) ∧
      ((w.spaces 1).pageTable 1).map (fun pte => (pte.ppn, pte.flags.shared, pte.flags.w)) =
        some (7, false, false) ∧
      (w.spaces 1).load w.mem 0x1000 = some 0 ∧ (w'.spaces 1).load w'.mem 0x1000 = some 42 := by
  refine ⟨_, _, .step (.step (.step (.step (.step (.start rfl)
    ⟨mapPage, mapPage_allowed, rfl⟩) ⟨touchPage, touchPage_allowed rfl, rfl⟩)
    ⟨.mprotect 0 0x1000 0x2000 1, trivial, rfl⟩)
    ⟨.fork 0 1 [], ⟨by decide, rfl, .nil, by simp⟩, rfl⟩)
    ⟨.mprotect 0 0x1000 0x2000 3, trivial, rfl⟩, rfl, ?_⟩
  decide +kernel

/-- **After `fork`, both sides read what the parent read**, in every isolated state. -/
theorem fork_reads {w : World} {i frames} (h : w.Isolated) (hfresh : ∀ f ∈ frames, w.Fresh f) :
    ∃ p c mem, (w.spaces i).fromExistedUserCow w.mem frames = some (p, c, mem) ∧ ∀ va,
      p.load mem va = (w.spaces i).load w.mem va ∧ c.load mem va = (w.spaces i).load w.mem va := by
  obtain ⟨p, c, mem, copies, _, hrun, hf⟩ := fromExistedUserCow_spec (h.valid i)
  refine ⟨p, c, mem, hrun, fun va => ?_⟩
  unfold MemorySet.load
  generalize vpnFloor va = v
  have hb := h.backed (i, v)
  -- no page has a frame that is written
  have hmem e (he : (w.spaces i).pageTable v = some e) : mem e.ppn = w.mem e.ppn :=
    hf.keeps _ fun hu => (hfresh _ (hf.taken.subset hu)).2 _ (hb.mapped e he)
  rw [show p.pageTable v = _ from congrArg pte (hf.parentView v),
    show c.pageTable v = _ from congrArg pte (hf.childView v)]
  unfold page MemorySet.pageView at *
  generalize areaItems.readAt _ v = area at *
  cases hpte : (w.spaces i).pageTable v with
  | none => cases area <;> simp [forkedParent, forkedChild, forkedPte]
  | some e =>
    rw [hpte] at hb
    obtain ⟨r, rfl, hr⟩ := bind_eq_some_iff.mp (hb.mapped e rfl)
    cases hu : e.flags.u <;> cases copies v <;>
    simp [forkedParent, forkedChild, forkedPte, sharedPte, hb.notIdentical r rfl, hr, hu, hmem e hpte, Pte.new,
      PTEFlags.cowShared, apply_ite]

theorem fork_reads_stored : ∃ w p c mem, (spaces w 0).fromExistedUserCow w.mem [] = some (p, c, mem) ∧
    MemorySet.load c mem 0x1000 = some 42 := by
  have step {w w'} h o := @Op.apply_isolated (fun _ _ _ => 0) w w' h o
  have h := step (step (step boot_isolated mapPage mapPage_allowed trivial rfl)
    touchPage (touchPage_allowed rfl) trivial rfl) (.store 0 0x1000 42) trivial trivial rfl
  obtain ⟨p, c, mem, hf, hl⟩ := fork_reads (i := 0) h (nofun : ∀ f ∈ [], _)
  exact ⟨_, p, c, mem, hf, (hl 0x1000).2⟩

end HitOS
