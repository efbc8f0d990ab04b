import HitOS.Lib.Reachable
import HitOS.Mm.PageFault
import HitOS.Mm.PageFork

/-!
# Copy-on-write isolation

Address spaces share physical frames after `fork`. Who may write a frame that several private pages
hold? This module follows any number of address spaces through forks, changes of protection, faults,
insertions, unmappings and stores.

A page is **private** if its flags lack the mark `SHARED`. The kernel sets the mark on pages of
shared mappings when they get their frame (`lazy_fault_policy` copies it from the region; pages of a
memfd or a System V segment always have it), and `fork` and `mprotect` keep it. Under `PROT_NONE`
the flags are those the area has put aside.

The invariant is `World.Isolated`:

* `backed` — an entry maps the frame its area tracks, and a tracked frame without an entry has its
  flags put aside, so a page always has flags that tell whether it is private;
* `pool` — frames of shared objects (the shared page caches, memfd and System V segments) are held
  by pages marked `SHARED` only;
* `alone` — of two private pages with one frame, neither is writable.

An operation on one address space keeps it by `Isolated.place`, which asks where the frame of each
page comes from (`Placed`). The operations follow in `HitOS.Mm.CowSteps`.
-/

namespace HitOS

open PageView PTEFlags Function

/-! ### What a page holds -/

namespace PageView

variable (p : PageView)

/-- The frame that is tracked for the page. -/
def frame : Option Nat := p.area.bind AreaPage.frame

/-- The flags of the page: those of its entry, or those put aside by `PROT_NONE`. -/
def flags : Option PTEFlags := (p.pte.map Pte.flags).or (p.area.bind AreaPage.saved)

/-- The page belongs to a shared mapping. -/
def isShared : Bool := p.flags.any shared

/-- The page is marked copy-on-write. -/
def isCow : Bool := p.flags.any cow

/-- User code or the kernel can write the page through its entry. -/
def isWritable : Bool := p.pte.any (fun pte => pte.flags.w)

/-- The entry of a page and what its area tracks agree. -/
structure Backed (p : PageView) : Prop where
  mapped : ∀ pte, p.pte = some pte → p.frame = some pte.ppn
  aside : p.frame ≠ none → p.flags ≠ none
  notIdentical : ∀ r, p.area = some r → r.mapType ≠ .identical

variable {p : PageView} {r : AreaPage} {pte : Pte} {flags : PTEFlags}

theorem backed_empty : (⟨none, none⟩ : PageView).Backed :=
  ⟨fun _ h => (by cases h), fun h => (h rfl).elim, fun _ h => (by cases h)⟩

/-- A page without a frame has no entry. -/
theorem Backed.pte_eq_none (h : p.Backed) (hf : p.frame = none) : p.pte = none := by
  cases hp : p.pte with
  | none => rfl
  | some pte =>
    have := h.mapped pte hp
    rw [hf] at this
    cases this

theorem isShared_of_pte (h : p.pte = some pte) : p.isShared = pte.flags.shared := by
  simp [isShared, flags, h]

theorem isWritable_of_pte (h : p.pte = some pte) : p.isWritable = pte.flags.w := by
  simp [isWritable, h]

/-- A page with the frame its entry maps. -/
theorem backed_mapped {frame : Nat} (hr : r.frame = some frame) (hid : r.mapType ≠ .identical)
    (hp : pte.ppn = frame) : (⟨some r, some pte⟩ : PageView).Backed := by
  refine ⟨fun pte' h => ?_, fun _ h => ?_, fun r' h => ?_⟩
  · cases h
    rwa [hp]
  · cases h
  · cases h
    exact hid

/-- A page without an entry. -/
theorem backed_unmapped (hid : r.mapType ≠ .identical) (haside : r.frame ≠ none → r.saved ≠ none) :
    (⟨some r, none⟩ : PageView).Backed := by
  refine ⟨nofun, haside, fun r' h => ?_⟩
  cases h
  exact hid

/-! ### A new protection -/

/-- **A new protection** keeps frame and marks of a page, and makes it writable only if it is not
marked copy-on-write. -/
theorem Backed.mprotected (h : p.Backed) (newPerm : MapPermission) :
    (p.update (mprotected newPerm)).Backed ∧ (p.update (mprotected newPerm)).frame = p.frame ∧
      (p.frame ≠ none → (p.update (mprotected newPerm)).isShared = p.isShared ∧
        (p.update (mprotected newPerm)).isCow = p.isCow) ∧
      ((p.update (mprotected newPerm)).isWritable = true →
        p.isWritable = true ∨ newPerm.w = true ∧ p.isCow = false) := by
  obtain ⟨area, pte⟩ := p
  cases area with
  | none => exact ⟨h, rfl, fun _ => ⟨rfl, rfl⟩, .inl⟩
  | some r =>
  have hid : r.mapType ≠ .identical := h.notIdentical r rfl
  unfold update mprotected
  dsimp only
  -- pages of the kernel stay as they are
  split
  swap
  · exact ⟨h, rfl, fun _ => ⟨rfl, rfl⟩, .inl⟩
  unfold reprotected
  cases pte with
  | some pte =>
    have hframe : r.frame = some pte.ppn := h.mapped pte rfl
    obtain ⟨hshared, hcow, hw⟩ := pteFlagsForMprotect_marks
    dsimp only
    split
    · -- `PROT_NONE`: the flags are put aside
      exact ⟨backed_unmapped hid nofun, rfl, fun _ => ⟨rfl, rfl⟩, nofun⟩
    · exact ⟨backed_mapped hframe hid rfl, rfl, fun _ => ⟨hshared, hcow⟩, fun h => .inr (hw h)⟩
  | none =>
    dsimp only
    split
    · exact ⟨backed_unmapped hid h.aside, rfl, fun _ => ⟨rfl, rfl⟩, .inl⟩
    cases hf : r.frame with
    | none =>
      exact ⟨backed_unmapped hid fun hne => (hne hf).elim, rfl, fun hne => (hne hf).elim, .inl⟩
    | some =>
      -- the page comes back with the flags put aside
      obtain ⟨saved, hsaved⟩ : ∃ saved, r.saved = some saved := by
        have hne : (⟨some r, none⟩ : PageView).frame ≠ none := by
          change r.frame ≠ none
          rw [hf]
          simp
        exact Option.ne_none_iff_exists'.mp (h.aside hne)
      obtain ⟨hshared, hcow, hw⟩ := pteFlagsForMprotect_marks
      have hs : (⟨some r, none⟩ : PageView).isShared = saved.shared := by simp [isShared, flags, hsaved]
      have hc : (⟨some r, none⟩ : PageView).isCow = saved.cow := by simp [isCow, flags, hsaved]
      rw [hs, hc, hsaved]
      exact ⟨backed_mapped rfl hid rfl, hf.symm, fun _ => ⟨hshared, hcow⟩, fun h => .inr (hw h)⟩

/-! ### Both sides of a fork -/

theorem cowShared_shared : flags.cowShared.shared = flags.shared := by
  unfold cowShared
  split <;> rfl

/-- A private page that parent and child share is not writable. -/
theorem cowShared_w (h : flags.shared = false) : flags.cowShared.w = false := by
  unfold cowShared
  cases hw : flags.w <;> cases hd : flags.d <;> simp [h, hw]

theorem cowShared_w_le (h : flags.cowShared.w = true) : flags.w = true := by
  unfold cowShared at h
  split at h
  · cases h
  · exact h

/-- The page of the parent has its frame and its mark, and does not become writable. -/
theorem Backed.forkedParent (h : p.Backed) : p.forkedParent.Backed ∧ p.forkedParent.frame = p.frame ∧
    p.forkedParent.isShared = p.isShared ∧ (p.forkedParent.isWritable = true → p.isWritable = true) := by
  obtain ⟨area, pte⟩ := p
  cases area with
  | none => exact ⟨h, rfl, rfl, id⟩
  | some r =>
  have hid : r.mapType ≠ .identical := h.notIdentical r rfl
  unfold forkedParent
  dsimp only
  rw [if_neg hid]
  cases pte with
  | none =>
    have hsame : (if r.frame.isSome = true then (none : Option Pte).map sharedPte else none) =
        none := by split <;> rfl
    rw [hsame]
    exact ⟨h, rfl, rfl, id⟩
  | some pte =>
    have hframe : r.frame = some pte.ppn := h.mapped pte rfl
    rw [if_pos (by rw [hframe]; rfl)]
    have hp : (sharedPte pte).ppn = pte.ppn ∧ (sharedPte pte).flags.shared = pte.flags.shared ∧
        ((sharedPte pte).flags.w = true → pte.flags.w = true) := by
      unfold sharedPte
      split
      · exact ⟨rfl, cowShared_shared, cowShared_w_le⟩
      · exact ⟨rfl, rfl, id⟩
    exact ⟨backed_mapped hframe hid hp.1, rfl, hp.2.1, hp.2.2⟩

/-- The page of the child has the frame of the parent's page, and then neither of the two is
writable unless the page is shared, or it has a copy. -/
theorem Backed.forkedChild (h : p.Backed) (copy : Option Nat) :
    (p.forkedChild copy).Backed ∧ ∀ f, (p.forkedChild copy).frame = some f →
      (p.frame = some f ∧ (p.forkedChild copy).isShared = p.isShared ∧
        (p.isShared = false → (p.forkedChild copy).isWritable = false ∧
          p.forkedParent.isWritable = false)) ∨ copy = some f := by
  obtain ⟨area, pte⟩ := p
  cases area with
  | none => exact ⟨backed_empty, fun f hf => (by cases hf)⟩
  | some r =>
  have hid : r.mapType ≠ .identical := h.notIdentical r rfl
  unfold forkedChild forkedArea
  dsimp only
  rw [if_neg hid]
  cases pte with
  | none =>
    -- a page without an entry is skipped
    have hsame : (if r.frame.isSome = true then forkedPte copy none else none) = none := by
      split <;> rfl
    have hnone : r.frame.bind (fun frame => forkedFrame copy frame none) = none := by
      cases r.frame <;> rfl
    rw [hsame, hnone]
    exact ⟨backed_unmapped hid fun h => (h rfl).elim, (by intros; contradiction)⟩
  | some pte =>
    have hframe : r.frame = some pte.ppn := h.mapped pte rfl
    rw [hframe]
    unfold forkedFrame forkedPte
    dsimp only
    split
    · next hu =>
      refine ⟨backed_mapped rfl hid rfl, fun f hf => .inl ⟨hframe.trans hf, ?_, fun hs => ?_⟩⟩
      · exact cowShared_shared
      have hs' : pte.flags.shared = false := hs
      refine ⟨cowShared_w hs', ?_⟩
      unfold PageView.forkedParent
      dsimp only
      rw [if_neg hid, hframe, isWritable_of_pte rfl, sharedPte, if_pos hu]
      exact cowShared_w hs'
    · -- a page of the kernel is copied, or left out
      cases copy with
      | none => exact ⟨backed_unmapped hid fun h => (h rfl).elim, (by intros; contradiction)⟩
      | some => exact ⟨backed_mapped rfl hid rfl, fun f hf => .inr hf⟩

end PageView

/-! ### Address spaces and their frames -/

/-- The address spaces, the physical memory, and the frames of shared objects. A space that does not
exist is the empty one. -/
structure World where
  spaces : Nat → MemorySet
  mem : Memory
  /-- The frames of shared objects: shared page caches, memfd and System V segments. -/
  pool : Set Nat

namespace World

variable (w : World)

/-- The page `a.2` of the address space `a.1`. -/
def page (a : Nat × Nat) : PageView := (w.spaces a.1).pageView a.2

/-- A private page holds the frame. -/
def Holds (a : Nat × Nat) (frame : Nat) : Prop :=
  (w.page a).frame = some frame ∧ (w.page a).isShared = false

/-- No other private page holds the frame of this one. -/
def Sole (a : Nat × Nat) : Prop := ∀ b frame, a ≠ b → w.Holds a frame → ¬ w.Holds b frame

/-- No page and no shared object has the frame, so `frame_alloc` may return it. -/
def Fresh (frame : Nat) : Prop := frame ∉ w.pool ∧ ∀ a, (w.page a).frame ≠ some frame

/-- **Isolation**, as an invariant. -/
structure Isolated (w : World) : Prop where
  valid : ∀ i, AreasValid (w.spaces i).areas
  backed : ∀ a, (w.page a).Backed
  /-- The frames of shared objects are those of the pages marked `SHARED`. -/
  pool : ∀ a frame, (w.page a).frame = some frame → ((w.page a).isShared = true ↔ frame ∈ w.pool)
  /-- Of two private pages with one frame neither is writable. -/
  alone : ∀ a b frame, a ≠ b → w.Holds a frame → w.Holds b frame → (w.page a).isWritable = false

variable {w : World} {a : Nat × Nat} {pool : Set Nat} {t : MemorySet} {i : Nat}

/-- A writable private page is the only one with its frame. -/
theorem Isolated.sole (h : w.Isolated) (hw : (w.page a).isWritable = true) : w.Sole a := by
  intro b frame hne ha hb
  rw [h.alone a b frame hne ha hb] at hw
  cases hw

/-- Only areas and page tables matter. -/
theorem Isolated.congr {w' : World} (h : w.Isolated)
    (hspaces : ∀ i, (w'.spaces i).areas = (w.spaces i).areas ∧
      (w'.spaces i).pageTable = (w.spaces i).pageTable)
    (hpool : w'.pool = w.pool) : w'.Isolated := by
  have hpage a : w'.page a = w.page a := by
    unfold page MemorySet.pageView
    rw [(hspaces a.1).1, (hspaces a.1).2]
  refine ⟨fun i => (hspaces i).1 ▸ h.valid i, fun a => hpage a ▸ h.backed a, fun a frame => ?_,
    fun a b frame => ?_⟩
  · rw [hpage, hpool]
    exact h.pool a frame
  · unfold Holds
    rw [hpage, hpage]
    exact h.alone a b frame

/-- One address space is replaced, and the pool is another. -/
def put (w : World) (i : Nat) (t : MemorySet) (pool : Set Nat) : World :=
  { w with spaces := update w.spaces i t, pool := pool }

theorem put_self : w.put i (w.spaces i) w.pool = w := by
  unfold put
  rw [update_eq_self]

theorem page_put : (w.put i t pool).page a = if a.1 = i then t.pageView a.2 else w.page a := by
  unfold page put
  dsimp only
  rw [update_apply]
  split <;> rfl

/-- Where the frame of a page of `t` comes from, when `t` becomes the space `i`: the page had it
before, or the same page of another space `o` has it; it belongs to a shared object; or it is
new. -/
inductive Placed (w : World) (i : Nat) (t : MemorySet) (pool : Set Nat) (v frame : Nat) : Prop
  | kept (o : Nat) (held : (w.page (o, v)).frame = some frame)
      (shared : (t.pageView v).isShared = (w.page (o, v)).isShared)
      (writes : (t.pageView v).isShared = false → (t.pageView v).isWritable = true → o = i ∧ w.Sole (i, v))
      (yields : (t.pageView v).isShared = false → o ≠ i → (w.page (o, v)).isWritable = false)
  | shared (shared : (t.pageView v).isShared = true) (mem : frame ∈ pool)
  | fresh (priv : (t.pageView v).isShared = false) (fresh : w.Fresh frame) (notMem : frame ∉ pool)
      (inj : ∀ v', (t.pageView v').frame = some frame → v' = v)

/-- **Replacing one address space** keeps isolation, if every frame of the new one has a proper
place. -/
theorem Isolated.place (h : w.Isolated) (hvalid : AreasValid t.areas) (hbacked : ∀ v, (t.pageView v).Backed)
    (hpool : w.pool ⊆ pool) (hnew : ∀ frame ∈ pool, frame ∈ w.pool ∨ w.Fresh frame)
    (hpages : ∀ v frame, (t.pageView v).frame = some frame → Placed w i t pool v frame) :
    (w.put i t pool).Isolated := by
  -- a frame that a page has is in the pool as before
  have hsame a frame (hf : (w.page a).frame = some frame) : (frame ∈ w.pool ↔ frame ∈ pool) := by
    refine ⟨fun hm => hpool hm, fun hm => ?_⟩
    rcases hnew frame hm with hm | hfresh
    · exact hm
    · exact absurd hf (hfresh.2 a)
  have hkept : ∀ o v frame, (w.page (o, v)).frame = some frame →
      (t.pageView v).isShared = (w.page (o, v)).isShared → (t.pageView v).isShared = false →
      w.Holds (o, v) frame := fun _ _ _ hheld hshared hpriv => ⟨hheld, hshared ▸ hpriv⟩
  refine ⟨fun j => ?_, fun a => ?_, fun a frame => ?_, fun a b frame hne => ?_⟩
  · unfold put
    dsimp only
    rw [update_apply]
    split
    · exact hvalid
    · exact h.valid j
  · rw [page_put]
    split
    · exact hbacked a.2
    · exact h.backed a
  · rw [page_put]
    split
    · intro hf
      cases hpages a.2 frame hf with
      | kept o held shared _ _ =>
        rw [shared, h.pool (o, a.2) frame held]
        exact hsame _ _ held
      | shared shared mem => exact ⟨fun _ => mem, fun _ => shared⟩
      | fresh priv _ notMem =>
        rw [priv]
        exact ⟨nofun, fun hm => absurd hm notMem⟩
    · intro hf
      rw [h.pool a frame hf]
      exact hsame a frame hf
  unfold Holds
  simp only [page_put]
  rintro ⟨hfa, hpa⟩ ⟨hfb, hpb⟩
  by_cases ha : a.1 = i
  · obtain ⟨_, v⟩ := a
    subst ha
    rw [if_pos rfl] at hfa hpa ⊢
    cases hpages v frame hfa with
    | kept o held shared writes _ =>
      -- a writable page was the only one with its frame, and the other page had it too
      cases hwr : (t.pageView v).isWritable with
      | false => rfl
      | true =>
      exfalso
      obtain ⟨rfl, hsole⟩ := writes hpa hwr
      have hold := hkept _ _ _ held shared hpa
      by_cases hb : b.1 = o
      · rw [if_pos hb] at hfb hpb
        obtain ⟨ib, u⟩ := b
        cases hpages u frame hfb with
        | kept o' held' shared' _ _ =>
          refine hsole (o', u) frame (fun heq => hne ?_) hold (hkept _ _ _ held' shared' hpb)
          exact Prod.ext hb.symm (Prod.mk.inj heq).2
        | shared shared' => rw [hpb] at shared'; cases shared'
        | fresh _ hfresh _ _ => exact hfresh.2 _ held
      · rw [if_neg hb] at hfb hpb
        exact hsole b frame hne hold ⟨hfb, hpb⟩
    | shared shared => rw [hpa] at shared; cases shared
    | fresh _ hfresh _ inj =>
      exfalso
      split at hfb
      · next hb => exact hne (Prod.ext hb.symm (inj b.2 hfb).symm)
      · exact hfresh.2 b hfb
  · rw [if_neg ha] at hfa hpa ⊢
    by_cases hb : b.1 = i
    · obtain ⟨_, v⟩ := b
      subst hb
      rw [if_pos rfl] at hfb hpb
      cases hpages v frame hfb with
      | kept o held shared _ yields =>
        have hold := hkept _ _ _ held shared hpb
        by_cases hao : a = (o, v)
        · rw [hao]
          exact yields hpb fun heq => ha (by rw [hao]; exact heq)
        · exact h.alone a (o, v) frame hao ⟨hfa, hpa⟩ hold
      | shared shared => rw [hpb] at shared; cases shared
      | fresh _ hfresh => exact absurd hfa (hfresh.2 a)
    · rw [if_neg hb] at hfb hpb
      exact h.alone a b frame hne ⟨hfa, hpa⟩ ⟨hfb, hpb⟩

end World

end HitOS
