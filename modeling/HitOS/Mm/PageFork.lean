import HitOS.Mm.Fault
import HitOS.Mm.PageOps

/-!
# `fork`, page by page

What `from_existed_user_cow` gives the child for each page, and what it leaves of the parent's
entry. A resident user page with an entry is shared, and loses its write bit on both sides unless it
is a page of shared memory. A kernel page is copied into a new frame. A page without an entry is
handed on without its frame: this is so for pages that are not resident, and for resident pages
under `PROT_NONE` as well.

Which frame a kernel page is copied into depends on the order of the loops, so it appears as a
function `copies` of the page (`Copied`).

* `foldlM_forkPage` — the loop over the resident pages of one area;
* `fromExistedUserCow_spec` — the whole of it.
-/

namespace HitOS

open List Option PageView MapArea PageTable Function Prod OrdMap

namespace PageView

/-- The entry of the parent, and of the child if it shares the frame. -/
def sharedPte (pte : Pte) : Pte :=
  if pte.flags.u then .new pte.ppn pte.flags.cowShared else pte

/-- The entry of the child; `copy` is the new frame of a kernel page, if there is one. -/
def forkedPte (copy : Option Nat) (pte : Option Pte) : Option Pte :=
  match pte with
  | none => none
  | some pte =>
    if pte.flags.u then some (.new pte.ppn pte.flags.cowShared)
    else copy.map (fun frame => .new frame pte.flags)

/-- The frame the child tracks where the parent tracks `frame`. -/
def forkedFrame (copy : Option Nat) (frame : Nat) (pte : Option Pte) : Option Nat :=
  match pte with
  | none => none
  | some pte => if pte.flags.u then some frame else copy

/-- What the child's area says about a page. -/
def forkedArea (copy : Option Nat) (r : AreaPage) (pte : Option Pte) : AreaPage :=
  { r with frame := r.frame.bind (fun frame => forkedFrame copy frame pte), saved := none }

/-- The page of the child. The entries of an identical area are handed on as they are. -/
def forkedChild (copy : Option Nat) (p : PageView) : PageView :=
  match p.area with
  | none => ⟨none, none⟩
  | some r => ⟨some (forkedArea copy r p.pte), if r.mapType = .identical then p.pte
      else if r.frame.isSome then forkedPte copy p.pte else none⟩

def forkedParent (p : PageView) : PageView :=
  match p.area with
  | none => p
  | some r => ⟨some r, if r.mapType = .identical then p.pte
      else if r.frame.isSome then p.pte.map sharedPte else p.pte⟩

end PageView

/-! ### Copies of kernel pages -/

open MemorySet

/-- Between two states of the loops, the kernel pages `v` with `copies v = some frame` have been
copied into frames taken one after the other. -/
structure Copied (a b : ForkState) (copies : Nat → Option Nat) (used : List Nat) : Prop where
  taken : a.frames = used ++ b.frames
  mem_used : ∀ v frame, copies v = some frame → frame ∈ used
  /-- Only the frames taken are written. -/
  keeps : ∀ frame, frame ∉ used → b.mem frame = a.mem frame
  /-- No frame is used twice. -/
  inj : used.Nodup → ∀ v w frame, copies v = some frame → copies w = some frame → v = w
  /-- A copy is a copy, if no source page lies in a frame that is taken. -/
  content : used.Nodup → ∀ v frame pte, copies v = some frame → a.parent v = some pte →
    pte.ppn ∉ used → b.mem frame = a.mem pte.ppn

namespace Copied

variable {a b c : ForkState} {copies copies' : Nat → Option Nat} {used used' : List Nat}

/-- Nothing copied. -/
theorem none_of (hframes : b.frames = a.frames) (hmem : b.mem = a.mem) : Copied a b (fun _ => none) [] :=
  ⟨by rw [hframes]; rfl, by simp, fun _ _ => by rw [hmem], by simp, by simp⟩

/-- One page copied. -/
theorem one {v frame : Nat} {pte : Pte} (hframes : a.frames = frame :: b.frames)
    (hpte : a.parent v = some pte) (hmem : b.mem = update a.mem frame (a.mem pte.ppn)) :
    Copied a b (fun w => if w = v then some frame else none) [frame] := by
  have hcopy w f (h : (if w = v then some frame else none) = some f) : w = v ∧ f = frame := by
    split at h
    · next hw => exact ⟨hw, (some.inj h).symm⟩
    · cases h
  refine ⟨hframes, fun w f h => ?_, fun f hf => ?_, fun _ w w' f h h' => ?_, fun _ w f q h hq _ => ?_⟩
  · rw [(hcopy w f h).2]
    exact mem_singleton_self frame
  · rw [hmem, update_of_ne (by simpa using hf)]
  · rw [(hcopy w f h).1, (hcopy w' f h').1]
  · obtain ⟨rfl, rfl⟩ := hcopy w f h
    rw [hmem, update_self, some.inj (hpte.symm.trans hq)]

/-- One run of copies after another, of other pages. -/
theorem trans (h : Copied a b copies used) (h' : Copied b c copies' used')
    (hparent : ∀ v, copies' v ≠ none → b.parent v = a.parent v) :
    Copied a c (fun v => (copies v).or (copies' v)) (used ++ used') := by
  have hcases v frame (hv : (copies v).or (copies' v) = some frame) : copies v = some frame ∨ copies' v =
      some frame :=
    (or_eq_some_iff.mp hv).imp_right And.right
  refine ⟨?_, fun v frame hv => ?_, fun frame hf => ?_, fun hnodup v w frame hv hw => ?_,
    fun hnodup v frame pte hv hpte hppn => ?_⟩
  · rw [h.taken, h'.taken, append_assoc]
  · rcases hcases v frame hv with hv | hv
    · exact mem_append_left _ (h.mem_used v frame hv)
    · exact mem_append_right _ (h'.mem_used v frame hv)
  · rw [mem_append, not_or] at hf
    rw [h'.keeps frame hf.2, h.keeps frame hf.1]
  · obtain ⟨hn, hn', hdisj⟩ := nodup_append.mp hnodup
    rcases hcases v frame hv with hv | hv <;> rcases hcases w frame hw with hw | hw
    · exact h.inj hn v w frame hv hw
    · exact absurd rfl (hdisj frame (h.mem_used v frame hv) frame (h'.mem_used w frame hw))
    · exact absurd rfl (hdisj frame (h.mem_used w frame hw) frame (h'.mem_used v frame hv))
    · exact h'.inj hn' v w frame hv hw
  · obtain ⟨hn, hn', hdisj⟩ := nodup_append.mp hnodup
    rw [mem_append, not_or] at hppn
    rcases hcases v frame hv with hv | hv
    · -- copied in the first run; the second one does not write this frame
      have hout : frame ∉ used' := fun hin => hdisj frame (h.mem_used v frame hv) frame hin rfl
      rw [h'.keeps frame hout, h.content hn v frame pte hv hpte hppn.1]
    · -- copied in the second run, from a frame the first one did not write
      rw [h'.content hn' v frame pte hv ((hparent v (by simp [hv])).trans hpte) hppn.2, h.keeps pte.ppn hppn.1]

end Copied

/-! ### The pages of one area -/

/-- One page of the loop: the entries of the page and the frame tracked for it, everything else
being left alone. -/
theorem forkPage_spec {acc : ForkState} {newArea : MapArea} (v frame : Nat)
    (hfree : acc.child v = none) (hnew : newArea.dataFrames.get? v = none) :
    ∃ acc' frames' copies used, forkPage (acc, newArea) (v, frame) =
        some (acc', { newArea with dataFrames := frames' }) ∧
      acc'.parent = update acc.parent v ((acc.parent v).map sharedPte) ∧
      acc'.child = update acc.child v (forkedPte (copies v) (acc.parent v)) ∧
      frames'.get? = update newArea.dataFrames.get? v (forkedFrame (copies v) frame (acc.parent v)) ∧
      (∀ w, w ≠ v → copies w = none) ∧ Copied acc acc' copies used := by
  unfold forkPage
  dsimp only
  cases hpte : acc.parent v with
  | none =>
    -- no entry: the page is skipped
    exact ⟨acc, newArea.dataFrames, fun _ => none, [], rfl, eq_update_self_iff.mpr hpte,
      eq_update_self_iff.mpr hfree, eq_update_self_iff.mpr hnew, fun _ _ => rfl, .none_of rfl rfl⟩
  | some pte =>
    dsimp only
    rcases Bool.eq_false_or_eq_true pte.flags.u with hu | hu
    · -- a user page is shared
      rw [if_neg (by simp [hu]), map_of_unmapped hfree]
      refine ⟨_, newArea.dataFrames.insert v frame, fun _ => none, [], rfl, funext fun w => ?_, ?_,
        funext fun w => ?_, fun _ _ => rfl, .none_of rfl rfl⟩
      · dsimp only
        rw [setFlags_apply, hpte, map_some, map_some, sharedPte, if_pos hu, update_apply]
      · rw [forkedPte, if_pos hu]
        rfl
      · rw [get?_insert, forkedFrame, if_pos hu, update_apply]
    have hu' : ¬ pte.flags.u = true := by simp [hu]
    have hkept : acc.parent = update acc.parent v ((some pte).map sharedPte) :=
      eq_update_self_iff.mpr (by rw [hpte, map_some, sharedPte, if_neg hu'])
    rw [if_pos (by simp [hu])]
    cases hframes : acc.frames with
    | nil =>
      -- no frame left: the kernel page is skipped
      refine ⟨acc, newArea.dataFrames, fun _ => none, [], rfl, hkept, eq_update_self_iff.mpr ?_,
        eq_update_self_iff.mpr ?_, fun _ _ => rfl, .none_of rfl rfl⟩
      · rw [hfree, forkedPte, if_neg hu']
        rfl
      · rw [hnew, forkedFrame, if_neg hu']
    | cons copy =>
      dsimp only
      rw [map_of_unmapped hfree]
      refine ⟨_, newArea.dataFrames.insert v copy, fun w => if w = v then some copy else none,
        [copy], rfl, hkept, ?_, funext fun w => ?_, fun w hw => if_neg hw, .one hframes hpte rfl⟩
      · dsimp only
        rw [forkedPte, if_neg hu', if_pos rfl]
        rfl
      · dsimp only
        rw [get?_insert, forkedFrame, if_neg hu', if_pos rfl, update_apply]

/-- **The loop over the resident pages of an area.** -/
theorem foldlM_forkPage {l : List (Nat × Nat)} (hnodup : (l.map fst).Nodup) (acc : ForkState)
    (newArea : MapArea)
    (hfree : ∀ e ∈ l, acc.child e.1 = none) (hnew : ∀ e ∈ l, newArea.dataFrames.get? e.1 = none) :
    ∃ acc' frames' copies used, l.foldlM forkPage (acc, newArea) =
        some (acc', { newArea with dataFrames := frames' }) ∧
      (∀ v, v ∉ l.map fst → acc'.parent v = acc.parent v ∧ acc'.child v = acc.child v ∧
        frames'.get? v = newArea.dataFrames.get? v ∧ copies v = none) ∧
      (∀ e ∈ l, acc'.parent e.1 = (acc.parent e.1).map sharedPte ∧
        acc'.child e.1 = forkedPte (copies e.1) (acc.parent e.1) ∧
        frames'.get? e.1 = forkedFrame (copies e.1) e.2 (acc.parent e.1)) ∧
      Copied acc acc' copies used := by
  induction l generalizing acc newArea with
  | nil =>
    exact ⟨acc, newArea.dataFrames, fun _ => none, [], rfl, fun _ _ => ⟨rfl, rfl, rfl, rfl⟩,
      by simp, .none_of rfl rfl⟩
  | cons e l ih =>
    obtain ⟨hel, hl⟩ := nodup_cons.mp hnodup
    have hne : ∀ e' ∈ l, e'.1 ≠ e.1 := fun _ he' heq => hel (heq ▸ mem_map_of_mem he')
    obtain ⟨acc₁, frames₁, copies₁, used₁, hrun₁, hpar₁, hchild₁, hfr₁, hcop₁, hcopied₁⟩ :=
      forkPage_spec e.1 e.2 (hfree e (.head _)) (hnew e (.head _))
    obtain ⟨acc₂, frames₂, copies₂, used₂, hrun₂, hout₂, hin₂, hcopied₂⟩ :=
      ih hl acc₁ { newArea with dataFrames := frames₁ } fun e' he' => by
          rw [hchild₁, update_of_ne (hne e' he'), hfree e' (.tail _ he')]
        fun e' he' => by rw [hfr₁, update_of_ne (hne e' he'), hnew e' (.tail _ he')]
    -- the first page is not among the others
    obtain ⟨hpar, hchild, hfr, hcop⟩ := hout₂ e.1 hel
    refine ⟨acc₂, frames₂, fun v => (copies₁ v).or (copies₂ v), used₁ ++ used₂, ?_, fun v hv => ?_,
      fun e' he' => ?_, hcopied₁.trans hcopied₂ fun v hv => ?_⟩
    · rwa [foldlM_cons, hrun₁]
    · rw [map_cons, mem_cons, not_or] at hv
      obtain ⟨h1, h2, h3, h4⟩ := hout₂ v hv.2
      simp only [h1, h2, h3, h4, hpar₁, hchild₁, hfr₁, hcop₁ v hv.1, update_of_ne hv.1, or_none, and_self]
    · rcases mem_cons.mp he' with rfl | he'
      · simp only [hpar, hchild, hfr, hcop, hpar₁, hchild₁, hfr₁, update_self, or_none, and_self]
      · obtain ⟨h1, h2, h3⟩ := hin₂ e' he'
        simp only [h1, h2, h3, hpar₁, update_of_ne (hne e' he'), hcop₁ _ (hne e' he'), none_or, and_self]
    · rw [hpar₁, update_of_ne]
      rintro rfl
      exact hv hcop

/-! ### One area -/

/-- The child's area, and the entries of its pages on both sides. -/
structure ForkedArea (area newArea : MapArea) (acc acc' : ForkState) (copies : Nat → Option Nat)
    (used : List Nat) : Prop where
  ok : newArea.Ok
  start_eq : newArea.start = area.start
  stop_eq : newArea.stop = area.stop
  page : ∀ v, newArea.page v = PageView.forkedArea (copies v) (area.page v) (acc.parent v)
  /-- Pages of the area. -/
  inside : ∀ v, area.containsVpn v = true →
    acc'.parent v = (PageView.forkedParent ⟨some (area.page v), acc.parent v⟩).pte ∧
      acc'.child v = (PageView.forkedChild (copies v) ⟨some (area.page v), acc.parent v⟩).pte
  /-- Other pages. -/
  outside : ∀ v, area.containsVpn v = false →
    acc'.parent v = acc.parent v ∧ acc'.child v = acc.child v ∧ copies v = none
  copied : Copied acc acc' copies used

/-- The pages of an identical area are handed on with their entries. -/
theorem foldlM_forkIdenticalPage {l : List Nat} (hnodup : l.Nodup) (acc : ForkState)
    (hfree : ∀ v ∈ l, acc.child v = none) :
    ∃ child', l.foldlM forkIdenticalPage acc = some { acc with child := child' } ∧
      ∀ v, child' v = if v ∈ l then acc.parent v else acc.child v := by
  induction l generalizing acc with
  | nil => exact ⟨acc.child, rfl, by simp⟩
  | cons x l ih =>
    obtain ⟨hx, hl⟩ := nodup_cons.mp hnodup
    -- the first page, mapped or skipped
    obtain ⟨child₁, hrun₁, hchild₁⟩ : ∃ child₁, forkIdenticalPage acc x = some { acc with child := child₁ } ∧
        ∀ v, child₁ v = if v = x then acc.parent x else acc.child v := by
      unfold forkIdenticalPage
      cases hpte : acc.parent x with
      | none =>
        refine ⟨acc.child, rfl, fun v => ?_⟩
        split
        · next hv => rw [hv, hfree x (.head _)]
        · rfl
      | some =>
        dsimp only
        rw [map_of_unmapped (hfree x (.head _))]
        refine ⟨_, rfl, fun v => ?_⟩
        rw [put_apply, Pte.new_self]
    obtain ⟨child₂, hrun₂, hchild₂⟩ := ih hl { acc with child := child₁ } fun v hv => by
      have hne : v ≠ x := fun h => hx (h ▸ hv)
      dsimp only
      rw [hchild₁, if_neg hne, hfree v (.tail _ hv)]
    refine ⟨child₂, ?_, fun v => ?_⟩
    · rwa [foldlM_cons, hrun₁]
    rw [hchild₂]
    dsimp only
    rw [hchild₁]
    by_cases hv : v = x
    · simp [hv]
    · simp [hv]

theorem forkArea_spec {acc : ForkState} {area : MapArea} (hok : area.Ok)
    (hfree : ∀ v, area.containsVpn v = true → acc.child v = none) :
    ∃ acc' newArea copies used, forkArea acc area = some (acc', newArea) ∧
      ForkedArea area newArea acc acc' copies used := by
  unfold forkArea
  by_cases hid : area.mapType = .identical
  · have hframes := hok.identical (isIdentical_iff.mpr hid)
    obtain ⟨_, hrun, hchild⟩ := foldlM_forkIdenticalPage
      nodup_vpnRange acc fun v hv => hfree v (by
        rw [containsVpn_iff]
        exact mem_vpnRange.mp hv)
    rw [hid]
    rw [hrun]
    refine ⟨_, _, fun _ => none, [], rfl, ?_, rfl, rfl, fun v => ?_, fun v hv => ?_, fun v hv => ?_,
      .none_of rfl rfl⟩
    · exact ⟨hok.nonempty, by simp [fromAnother], by simp [fromAnother], by simp [fromAnother]⟩
    · simp only [page, hframes v]
      rfl
    · refine ⟨?_, ?_⟩
      · simp [forkedParent, page, hid]
      · dsimp only
        rw [hchild, if_pos (mem_vpnRange.mpr (containsVpn_iff.mp hv))]
        simp [forkedChild, page, hid]
    · refine ⟨rfl, ?_, rfl⟩
      dsimp only
      rw [hchild, if_neg]
      intro hin
      rw [containsVpn_iff.mpr (mem_vpnRange.mp hin)] at hv
      cases hv
  · -- only the resident pages are visited
    have hmem : ∀ v frame, (v, frame) ∈ area.dataFrames.entries ↔
        area.dataFrames.get? v = some frame := fun _ _ => get?_eq_some_iff.symm
    have hnodup : (area.dataFrames.entries.map fst).Nodup :=
      pairwise_map.mpr (area.dataFrames.sorted.imp ne_of_lt)
    obtain ⟨acc', frames', copies, used, hrun, hout, hin, hcopied⟩ := foldlM_forkPage
      hnodup acc (fromAnother area)
      (fun e he => hfree e.1 (hok.tracked e.1 e.2 ((hmem e.1 e.2).mp he)))
      fun e _ => get?_empty
    have hkeys : ∀ v, area.dataFrames.get? v = none → v ∉ area.dataFrames.entries.map fst := by
      intro v hnone hv
      obtain ⟨e, he, rfl⟩ := mem_map.mp hv
      rw [(hmem e.1 e.2).mp he] at hnone
      cases hnone
    have hframe v : frames'.get? v =
        (area.dataFrames.get? v).bind fun frame => forkedFrame (copies v) frame (acc.parent v) := by
      cases hf : area.dataFrames.get? v with
      | none => exact (hout v (hkeys v hf)).2.2.1.trans (get?_empty)
      | some frame => exact (hin (v, frame) ((hmem v frame).mpr hf)).2.2
    refine ⟨acc', { fromAnother area with dataFrames := frames' }, copies, used, ?_, ?_, rfl,
      rfl, fun v => ?_, fun v hv => ?_, fun v hv => ?_, hcopied⟩
    · cases htype : area.mapType with
      | identical => exact absurd htype hid
      | framed | lazy => exact hrun
    · refine ⟨hok.nonempty, fun v frame hv => ?_, by simp [fromAnother],
        fun h => absurd (isIdentical_iff.mp h) hid⟩
      rw [hframe] at hv
      obtain ⟨f, hf, -⟩ := bind_eq_some_iff.mp hv
      exact hok.tracked v f hf
    · simp only [page, hframe v]
      rfl
    · cases hf : area.dataFrames.get? v with
      | none =>
        obtain ⟨h1, h2, -, -⟩ := hout v (hkeys v hf)
        simp [forkedParent, forkedChild, page, hid, hf, h1, h2, hfree v hv]
      | some frame =>
        obtain ⟨h1, h2, -⟩ := hin (v, frame) ((hmem v frame).mpr hf)
        simp [forkedParent, forkedChild, page, hid, hf, h1, h2]
    · have hnone : area.dataFrames.get? v = none :=
        congrArg AreaPage.frame (hok.page_of_not (Bool.eq_false_iff.mp hv))
      obtain ⟨h1, h2, -, h4⟩ := hout v (hkeys v hnone)
      exact ⟨h1, h2, h4⟩

/-! ### All areas -/

/-- **The loop over the areas.** `done` are the areas the child already has. -/
theorem forkAreas_spec {areas : List MapArea} (acc : ForkState) (done : List MapArea)
    {f g : Nat → Option AreaPage} (hreads : areaItems.Reads areas f) (hdone : areaItems.Reads done g)
    (hsorted : done.Pairwise (fun a b => a.start ≤ b.start)) (hapart : ∀ v, g v = none ∨ f v = none)
    (hfree : ∀ v, f v ≠ none → acc.child v = none) :
    ∃ acc' done' copies used, forkAreas acc done areas = some (acc', done') ∧
      done'.Pairwise (fun a b => a.start ≤ b.start) ∧
      areaItems.Reads done' (fun v => (g v).or
        ((f v).map (fun r => forkedArea (copies v) r (acc.parent v)))) ∧
      (∀ v, acc'.parent v = (forkedParent ⟨f v, acc.parent v⟩).pte ∧
        (acc'.child v = if f v = none then acc.child v
          else (forkedChild (copies v) ⟨f v, acc.parent v⟩).pte) ∧
        (f v = none → copies v = none)) ∧ Copied acc acc' copies used := by
  induction areas generalizing acc done f g with
  | nil =>
    have hnone v : f v = none := (hreads.read v).symm
    refine ⟨acc, done, fun _ => none, [], rfl, hsorted, hdone.congr fun v => ?_, fun v => ?_, .none_of rfl rfl⟩
    · rw [hnone, map_none, or_none]
    · rw [hnone]
      exact ⟨rfl, rfl, fun _ => rfl⟩
  | cons area areas ih =>
    have hok : area.Ok := hreads.ok area (.head _)
    -- a page of the first area is no page of the others
    have hown v (hv : area.containsVpn v = true) : f v = some (area.page v) := hreads.of_mem (.head _) hv
    have hrest : areaItems.Reads areas fun v => if area.containsVpn v = true then none
      else f v := hreads.erase .rfl
    obtain ⟨acc₁, newArea, copies₁, used₁, hrun₁, hone⟩ := forkArea_spec hok
      fun v hv => hfree v (by rw [hown v hv]; simp)
    have hcont v : areaItems.owns newArea v = area.containsVpn v := by
      change newArea.containsVpn v = _
      simp only [containsVpn, hone.start_eq, hone.stop_eq]
    have hfirst v (hv : area.containsVpn v = true) : g v = none :=
      (hapart v).resolve_right (by rw [hown v hv]; simp)
    have hjoin := hdone.append (Items.Reads.singleton hone.ok) fun v => by
      rw [hcont]
      cases hv : area.containsVpn v with
      | true => exact .inl (hfirst v hv)
      | false => exact .inr rfl
    obtain ⟨hvalid₁, hread₁⟩ := sortUserAreas_valid hjoin
    obtain ⟨acc₂, done₂, copies₂, used₂, hrun₂, hsorted₂, hreads₂, hpages₂, hcopied₂⟩ :=
      ih acc₁ (sortUserAreas (done ++ [newArea])) hrest ⟨hvalid₁.ok, hvalid₁.apart, hread₁⟩
        hvalid₁.sorted fun v => by
          rw [hcont]
          cases area.containsVpn v with
          | true => exact .inr rfl
          | false => exact (hapart v).imp fun h => by rw [h]; rfl id
        fun v hv => by
          cases hin : area.containsVpn v with
          | true => exact absurd (if_pos hin) hv
          | false =>
            rw [hin] at hv
            rw [(hone.outside v hin).2.1]
            exact hfree v hv
    refine ⟨acc₂, done₂, fun v => (copies₁ v).or (copies₂ v), used₁ ++ used₂, ?_, hsorted₂,
      hreads₂.congr fun v => ?_, fun v => ?_, hone.copied.trans hcopied₂ fun v hv => ?_⟩
    · rwa [forkAreas, hrun₁]
    · dsimp only
      rw [hcont]
      cases hv : area.containsVpn v with
      | true =>
        rw [hown v hv, hfirst v hv, (hpages₂ v).2.2 (if_pos hv), or_none]
        change some (newArea.page v) = _
        rw [hone.page]
        rfl
      | false =>
        obtain ⟨hp, -, hc⟩ := hone.outside v hv
        rw [hp, hc]
        simp
    · have hrest₂ := hpages₂ v
      dsimp only
      cases hv : area.containsVpn v with
      | true =>
        obtain ⟨hpar, hchild⟩ := hone.inside v hv
        obtain ⟨hpar₂, hchild₂, hcop₂⟩ := hv ▸ hrest₂
        rw [hpar₂, hchild₂, hown v hv, hcop₂ rfl, or_none]
        exact ⟨hpar, hchild, (by intros; contradiction)⟩
      | false =>
        obtain ⟨hp, hc, hcop⟩ := hone.outside v hv
        rw [hv, hp, hc] at hrest₂
        rwa [hcop]
    · cases hin : area.containsVpn v with
      | true => exact absurd ((hpages₂ v).2.2 (if_pos hin)) hv
      | false => exact (hone.outside v hin).1

/-- What `fork` makes of an address space `s`: the parent `p` and the child `c`. -/
structure Forked (s p c : MemorySet) (mem mem' : Memory) (frames : List Nat)
    (copies : Nat → Option Nat) (used : List Nat) : Prop where
  parent : p = { s with pageTable := p.pageTable }
  child : c = { pageTable := c.pageTable, areas := c.areas
                vmRegions := s.vmRegions.markForkInheritedAnonymousMmap
                mmapBackings := s.mmapBackings, nextMmapBackingId := s.nextMmapBackingId
                kernelRanges := s.kernelRanges }
  valid : AreasValid c.areas
  parentView : ∀ v, p.pageView v = (s.pageView v).forkedParent
  childView : ∀ v, c.pageView v = (s.pageView v).forkedChild (copies v)
  taken : used <+: frames
  mem_used : ∀ v frame, copies v = some frame → frame ∈ used
  keeps : ∀ frame, frame ∉ used → mem' frame = mem frame
  inj : used.Nodup → ∀ v w frame, copies v = some frame → copies w = some frame → v = w
  content : used.Nodup → ∀ v frame pte, copies v = some frame → s.pageTable v = some pte →
    pte.ppn ∉ used → mem' frame = mem pte.ppn

/-- **`fork`.** -/
theorem fromExistedUserCow_spec {s : MemorySet} (hvalid : AreasValid s.areas) {mem : Memory}
    {frames : List Nat} :
    ∃ p c mem' copies used, s.fromExistedUserCow mem frames = some (p, c, mem') ∧
      Forked s p c mem mem' frames copies used := by
  obtain ⟨acc, _, copies, used, hrun, hsorted, hreads, hpages, hcopied⟩ := forkAreas_spec
    { parent := s.pageTable, child := new, frames := frames, mem := mem } []
    hvalid.reads Items.Reads.nil .nil (fun _ => .inl rfl) fun _ _ => rfl
  unfold fromExistedUserCow
  rw [hrun]
  refine ⟨_, _, _, copies, used, rfl, rfl, rfl, ⟨hreads.ok, hreads.apart, hsorted⟩, fun v => ?_,
    fun v => ?_, ⟨acc.frames, hcopied.taken.symm⟩, hcopied.mem_used, hcopied.keeps, hcopied.inj,
    hcopied.content⟩
  · unfold pageView
    dsimp only
    rw [(hpages v).1]
    cases areaItems.readAt s.areas v <;> rfl
  · unfold pageView
    dsimp only
    rw [hreads.read, (hpages v).2.1]
    cases areaItems.readAt s.areas v <;> rfl

end HitOS
