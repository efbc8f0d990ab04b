import HitOS.Mm.FrameAllocator

/-!
# What the frame allocator starts with

`init_frame_allocator` adds the pages of the memory ranges around the exclusions:
`manages_addAround` says which pages one walk over the exclusions adds. The ends of the ranges are
cut to 56 bits before they are rounded, so a range up to the last physical address is lost
(`range_to_last_address_lost`), and an empty exclusion inside of a frame takes the frame.
`initFrameAllocator_exact`: apart from that, and only then, the pages are the frames inside a memory
range that share no byte with an exclusion.
-/

namespace HitOS

open List Intervals

variable (ranges : List (Nat × Nat))

/-- A frame lies wholly inside one of the ranges. -/
def WhollyInside (ppn : Nat) : Prop :=
  ∃ r ∈ ranges, r.1 ≤ ppn * 4096 ∧ (ppn + 1) * 4096 ≤ r.2

/-- A frame shares a byte with one of the ranges. -/
def SharesByte (ppn : Nat) : Prop :=
  ∃ x, (ppn * 4096 ≤ x ∧ x < (ppn + 1) * 4096) ∧ x ∈ Intervals.cover ranges

/-- A frame that is to be handed over. -/
def Usable (mem exs : List (Nat × Nat)) (ppn : Nat) : Prop := WhollyInside mem ppn ∧ ¬ SharesByte exs ppn

/-- The ranges that do not reach the last physical address. -/
def endingBelow : List (Nat × Nat) := ranges.filter (·.2 < 2 ^ 56)

/-- A frame shares a byte with one of the ranges, or has an empty one inside. -/
def Meets (ppn : Nat) : Prop :=
  ∃ r ∈ ranges, ppn * 4096 < r.2 ∧ r.1 < (ppn + 1) * 4096

/-- **Where the rounding does no harm.** -/
structure KeepsFrames (mem exs : List (Nat × Nat)) : Prop where
  /-- The usable frames lie in memory ranges that do not reach the last address. -/
  memory : ∀ ppn, Usable mem exs ppn → WhollyInside (endingBelow mem) ppn
  /-- No usable frame has an empty exclusion inside. -/
  empties : ∀ ppn, Usable mem exs ppn → ∀ e ∈ exs, e.1 = e.2 →
    ¬ (ppn * 4096 < e.2 ∧ e.1 < (ppn + 1) * 4096)
  /-- In these memory ranges no exclusion that reaches it is the only one a frame meets. -/
  exclusions : ∀ ppn, WhollyInside (endingBelow mem) ppn → SharesByte exs ppn → Meets (endingBelow exs) ppn

theorem SharesByte.meets {ranges : List (Nat × Nat)} {ppn : Nat} (h : SharesByte ranges ppn) :
    Meets ranges ppn := by
  obtain ⟨x, hx, hc⟩ := h
  obtain ⟨r, hr, hin⟩ := mem_cover.mp hc
  exact ⟨r, hr, by omega, by omega⟩

/-- A range that a frame meets and shares no byte with is empty. -/
theorem empty_of_meets {ranges : List (Nat × Nat)} {ppn : Nat} {r : Nat × Nat} (hr : r ∈ ranges)
    (hle : r.1 ≤ r.2) (hmeets : ppn * 4096 < r.2 ∧ r.1 < (ppn + 1) * 4096)
    (hshares : ¬ SharesByte ranges ppn) : r.1 = r.2 := by
  by_contra hne
  exact hshares ⟨max r.1 (ppn * 4096), by omega, mem_cover.mpr ⟨r, hr, by omega⟩⟩

namespace StackFrameAllocator

variable {a : StackFrameAllocator} {ppn cursor stop : Nat} {exs : List (Nat × Nat)}

theorem manages_addRange (l r : Nat) : (a.addRange l r).Manages ppn ↔ a.Manages ppn ∨ l ≤ ppn ∧ ppn < r := by
  unfold addRange Manages
  split
  · exact ⟨.inl, fun h => h.resolve_right (by omega)⟩
  · simp

/-- The end of the walk: what is left behind the cursor. -/
theorem manages_rest : (if cursor < stop then a.addRange cursor stop else a).Manages ppn ↔
      a.Manages ppn ∨ cursor ≤ ppn ∧ ppn < stop := by
  split
  · exact manages_addRange cursor stop
  · exact ⟨.inl, fun h => h.resolve_right (by omega)⟩

section Walk

variable (hgaps : exs.Pairwise (fun r q => r.2 < q.1)) (hne : ∀ e ∈ exs, e.1 < e.2)

include hgaps hne

/-- **One walk over the exclusions** adds the pages from the cursor on that lie in none of them. -/
theorem manages_addAround : (addAround stop exs cursor a).Manages ppn ↔
    a.Manages ppn ∨ (cursor ≤ ppn ∧ ppn < stop) ∧ ppn ∉ cover exs := by
  induction exs generalizing a cursor with
  | nil => simpa [addAround, cover] using manages_rest
  | cons e exs ih =>
    obtain ⟨hbehind, hgaps⟩ := pairwise_cons.mp hgaps
    obtain ⟨he, hne⟩ := forall_mem_cons.mp hne
    -- a page the later exclusions hold lies behind this one
    have hrest (h : ppn ∈ cover exs) : e.2 < ppn := by
      obtain ⟨q, hq, hle, -⟩ := mem_cover.mp h
      exact (hbehind q hq).trans_le hle
    have hcover : ppn ∉ cover (e :: exs) ↔ ¬ (e.1 ≤ ppn ∧ ppn < e.2) ∧ ppn ∉ cover exs := by
      simp [cover]
    rw [hcover]
    unfold addAround
    split
    · rw [ih hgaps hne]
      have : cursor ≤ ppn → ¬ ppn < e.2 := by omega
      tauto
    split
    · rw [manages_rest]
      have : ppn < stop → ¬ e.1 ≤ ppn ∧ ppn ∉ cover exs :=
        fun h => ⟨by omega, fun hc => by have := hrest hc; omega⟩
      tauto
    -- the gap before the exclusion, and the walk from behind it
    have hgap : (if cursor < e.1 then a.addRange cursor (min e.1 stop) else a).Manages ppn ↔
        a.Manages ppn ∨ cursor ≤ ppn ∧ ppn < e.1 := by
      rw [min_eq_left (by omega)]
      exact manages_rest
    have hbefore : ppn < e.1 → ppn ∉ cover exs := fun h hc => by
      have := hrest hc
      omega
    dsimp only
    split
    · rw [hgap]
      exact or_congr_right ⟨fun h => ⟨by omega, by omega, hbefore h.2⟩, fun h => by omega⟩
    rw [ih hgaps hne, hgap, or_assoc]
    refine or_congr_right ⟨?_, fun h => ?_⟩
    · rintro (h | h)
      · exact ⟨by omega, by omega, hbefore h.2⟩
      · exact ⟨by omega, by omega, h.2⟩
    · by_cases hlt : ppn < e.1
      · exact .inl (by omega)
      · exact .inr ⟨by omega, h.2.2⟩

/-- The frames of one memory range, which is rounded inwards. -/
theorem manages_addMemory {r : Nat × Nat} (hlt : r.1 < r.2) (hle : r.2 ≤ 2 ^ 56) :
    (addMemory exs a r).Manages ppn ↔
      a.Manages ppn ∨ (r.2 < 2 ^ 56 ∧ r.1 ≤ ppn * 4096 ∧ (ppn + 1) * 4096 ≤ r.2) ∧ ppn ∉ cover exs := by
  have hinside : r.2 < 2 ^ 56 ∧ r.1 ≤ ppn * 4096 ∧ (ppn + 1) * 4096 ≤ r.2 ↔
      physCeil (physAddr r.1) ≤ ppn ∧ ppn < physFloor (physAddr r.2) := by
    rw [physAddr, physAddr]
    unfold physCeil physFloor
    split <;> omega
  rw [hinside]
  unfold addMemory
  dsimp only
  split
  · exact ⟨.inl, fun h => h.resolve_right (by omega)⟩
  · exact manages_addAround hgaps hne

theorem manages_foldl_addMemory {l : List (Nat × Nat)} (hl : ∀ r ∈ l, r.1 < r.2 ∧ r.2 ≤ 2 ^ 56) :
    (l.foldl (addMemory exs) a).Manages ppn ↔
      a.Manages ppn ∨ WhollyInside (endingBelow l) ppn ∧ ppn ∉ cover exs := by
  induction l generalizing a with
  | nil => simp [WhollyInside, endingBelow]
  | cons r l ih =>
    obtain ⟨⟨hlt, hle⟩, hl⟩ := forall_mem_cons.mp hl
    have hcons : WhollyInside (endingBelow (r :: l)) ppn ↔
        (r.2 < 2 ^ 56 ∧ r.1 ≤ ppn * 4096 ∧ (ppn + 1) * 4096 ≤ r.2) ∨ WhollyInside (endingBelow l) ppn := by
      simp only [WhollyInside, endingBelow, mem_filter, decide_eq_true_eq, exists_mem_cons_iff, and_assoc]
    rw [foldl_cons, ih hl, manages_addMemory hgaps hne hlt hle, hcons, or_and_right, or_assoc]

end Walk

/-- The exclusions are rounded outwards: their pages are those that meet one, if this does not reach
the last address. -/
theorem mem_cover_exclusions {stext ekernel : Nat} {reserved : List (Nat × Nat)}
    (h : ∀ e ∈ (stext, ekernel) :: reserved, e.1 ≤ e.2 ∧ e.2 ≤ 2 ^ 56) :
    ppn ∈ cover (exclusions stext ekernel reserved) ↔
      Meets (endingBelow ((stext, ekernel) :: reserved)) ppn := by
  have htouch e (he : e ∈ (stext, ekernel) :: reserved) :
      physFloor (physAddr e.1) ≤ ppn ∧ ppn < physCeil (physAddr e.2) ↔
        e.2 < 2 ^ 56 ∧ ppn * 4096 < e.2 ∧ e.1 < (ppn + 1) * 4096 := by
    obtain ⟨hlt, hle⟩ := h e he
    rw [physAddr, physAddr]
    unfold physCeil physFloor
    split <;> omega
  rw [exclusions, (sortAndMerge_spec fun r hr => by simpa using (mem_filter.mp hr).2).1]
  simp only [Meets, endingBelow, mem_cover, mem_filter, mem_map, decide_eq_true_eq]
  constructor
  · rintro ⟨_, ⟨⟨e, he, rfl⟩, -⟩, hx⟩
    obtain ⟨hbelow, hmeets⟩ := (htouch e he).mp hx
    exact ⟨e, ⟨he, hbelow⟩, hmeets⟩
  · rintro ⟨e, ⟨he, hbelow⟩, hmeets⟩
    have hpage := (htouch e he).mpr ⟨hbelow, hmeets⟩
    exact ⟨_, ⟨⟨e, he, rfl⟩, hpage.1.trans_lt hpage.2⟩, hpage⟩

/-- **The frames the allocator starts with**, for all ranges of physical addresses. -/
theorem neverAllocated_init {stext ekernel : Nat} {m : PhysMemoryMap}
    (hexs : ∀ e ∈ (stext, ekernel) :: m.reservedRanges, e.1 ≤ e.2 ∧ e.2 ≤ 2 ^ 56) :
    (initFrameAllocator stext ekernel m).NeverAllocated ppn ↔ WhollyInside (endingBelow m.physMemRanges) ppn ∧
      ¬ Meets (endingBelow ((stext, ekernel) :: m.reservedRanges)) ppn := by
  obtain ⟨_, hfresh⟩ := initFrameAllocator_fresh
  have hnever : (initFrameAllocator stext ekernel m).NeverAllocated ppn ↔
      (initFrameAllocator stext ekernel m).Manages ppn :=
    exists_congr fun r => and_congr_right fun hr => by rw [(hfresh.untouched r hr).1]
  obtain ⟨-, hgaps, hne⟩ : _ ∧ (exclusions stext ekernel m.reservedRanges).Pairwise _ ∧ _ :=
    sortAndMerge_spec fun r hr => by simpa using (mem_filter.mp hr).2
  have hmemory : ∀ r ∈ m.physMemRanges, r.1 < r.2 ∧ r.2 ≤ 2 ^ 56 := fun r hr =>
    ⟨(sortAndMerge_spec m.memory_nonempty).2.2 r hr, sortAndMerge_le m.memory_nonempty m.memory_le r hr⟩
  rw [hnever, initFrameAllocator, manages_foldl_addMemory hgaps hne hmemory, mem_cover_exclusions hexs]
  simp [Manages, new]

/-- **The usable frames.** For all lists of memory ranges and of exclusions: the frames the
allocator starts with are the usable ones, none of them in two of its ranges, if and only if the
rounding does no harm. -/
theorem initFrameAllocator_exact {stext ekernel : Nat} {m : PhysMemoryMap}
    (hexs : ∀ e ∈ (stext, ekernel) :: m.reservedRanges, e.1 ≤ e.2 ∧ e.2 ≤ 2 ^ 56) :
    ((∀ ppn, (initFrameAllocator stext ekernel m).NeverAllocated ppn ↔
        Usable m.physMemRanges ((stext, ekernel) :: m.reservedRanges) ppn) ∧
      (initFrameAllocator stext ekernel m).ranges.Pairwise (fun r q => r.stop ≤ q.start)) ↔
    KeepsFrames m.physMemRanges ((stext, ekernel) :: m.reservedRanges) := by
  obtain ⟨_, hfresh⟩ := initFrameAllocator_fresh
  rw [and_iff_left hfresh.ordered]
  simp only [neverAllocated_init hexs]
  constructor
  · intro h
    refine ⟨fun ppn hu => ((h ppn).mpr hu).1, fun ppn hu e he hempty hin => ((h ppn).mpr hu).2 ?_,
      fun ppn hmem hshares => ?_⟩
    · have hbelow : e.2 < 2 ^ 56 := by
        obtain ⟨r, hr, -, hle⟩ := ((h ppn).mpr hu).1
        have hend := of_decide_eq_true (mem_filter.mp hr).2
        omega
      exact ⟨e, mem_filter.mpr ⟨he, decide_eq_true hbelow⟩, hin⟩
    · by_contra hmeets
      exact ((h ppn).mp ⟨hmem, hmeets⟩).2 hshares
  · intro h ppn
    constructor
    · rintro ⟨hmem, hmeets⟩
      obtain ⟨r, hr, hin⟩ := hmem
      exact ⟨⟨r, (mem_filter.mp hr).1, hin⟩, fun hshares => hmeets (h.exclusions ppn ⟨r, hr, hin⟩ hshares)⟩
    · intro hu
      refine ⟨h.memory ppn hu, fun ⟨e, he, hin⟩ => ?_⟩
      have hmem := (mem_filter.mp he).1
      exact h.empties ppn hu e hmem (empty_of_meets hmem (hexs e hmem).1 hin hu.2) hin

/-- The kernel takes the first of four pages and half of the second. -/
theorem initFrameAllocator_exact_four_pages :
    (initFrameAllocator 0x80000000 0x80001800 fourPages).NeverAllocated 0x80002 := by
  have hkeeps : KeepsFrames fourPages.physMemRanges ((0x80000000, 0x80001800) :: fourPages.reservedRanges) :=
    { memory := fun _ h => h.1
      empties := fun _ _ e he hempty => by
        cases mem_singleton.mp he
        cases hempty
      exclusions := fun _ _ h => h.meets }
  refine (((initFrameAllocator_exact (by decide)).mpr hkeeps).1 0x80002).mpr
    ⟨⟨(0x80000000, 0x80004000), .head _, by decide, by decide⟩, fun h => ?_⟩
  obtain ⟨_, he, hlt⟩ := h.meets
  cases mem_singleton.mp he
  omega

/-- Memory up to the last physical address: its end is cut to 0, and none of it is added. -/
theorem range_to_last_address_lost :
    initFrameAllocator 0x80000000 0x80001000 ⟨[(0x80000000, 2 ^ 56)], [], by decide, by decide⟩ = new ∧
      WhollyInside [(0x80000000, 2 ^ 56)] 0x80001 ∧
      ¬ SharesByte [(0x80000000, 0x80001000)] 0x80001 := by
  refine ⟨rfl, ⟨_, mem_cons_self, by decide, by decide⟩, ?_⟩
  rintro ⟨x, hx, hc⟩
  obtain ⟨_, he, -, hlt⟩ := mem_cover.mp hc
  cases mem_singleton.mp he
  omega

end StackFrameAllocator

end HitOS
