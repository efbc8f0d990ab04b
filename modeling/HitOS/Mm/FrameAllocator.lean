import HitOS.Lib.Intervals
import HitOS.Lib.OrdMap
import HitOS.Lib.Reachable
import HitOS.Lib.Usize

/-!
# The physical frame allocator

`frame_allocator.rs`: a bump pointer per physical memory range, a stack of recycled frames, and a
table of reference counts for the `FrameTracker` values that own frames.

The state carries, besides what the code stores, the list of live trackers: one entry for every
`FrameTracker` value that has been made and not yet dropped. `FrameInv` relates the three:

* the frames taken from a bump range are exactly the recycled ones and the ones with a live tracker;
* a frame's count is the number of its live trackers.

`frameInv_step` shows that no operation breaks it, or reaches the panic of `dealloc`, and
`framesSound_of_run` reads off what it means for every run after `init_frame_allocator`.
-/

namespace HitOS

open List Intervals OrdMap Nat

/-! ### The allocator -/

/-- A contiguous run of frames, taken from `current` up. -/
structure FrameRange where
  start : Nat
  current : Nat
  stop : Nat
  deriving DecidableEq, Repr

/-- `StackFrameAllocator`. The top of the `recycled` vector is the head of the list. -/
structure StackFrameAllocator where
  ranges : List FrameRange
  recycled : List Nat
  recycledSet : Finset Nat
  managedPages : Nat
  deriving DecidableEq

/-- `PhysPageNum::from`: a page number has 44 bits. -/
def physPageNum (v : Nat) : Nat := v % 2 ^ 44

/-- `PhysAddr::from`: a physical address has 56 bits. -/
def physAddr (v : Nat) : Nat := v % 2 ^ 56

/-- `PhysAddr::floor`. -/
def physFloor (a : Nat) : Nat := a / 4096

/-- `PhysAddr::ceil`. -/
def physCeil (a : Nat) : Nat := if a = 0 then 0 else (a - 1 + 4096) / 4096

namespace StackFrameAllocator

/-- `StackFrameAllocator::new`, which is also what `init` with an empty range leaves. -/
def new : StackFrameAllocator := ⟨[], [], ∅, 0⟩

variable (a : StackFrameAllocator)

def addRange (l r : Nat) : StackFrameAllocator :=
  if r ≤ l then a
  else
    { a with
      managedPages := satAdd a.managedPages (r - l)
      ranges := a.ranges ++ [⟨l, l, r⟩] }

/-- The loop shared by the two allocations: the first range that `fits` gives up `pages` frames. -/
def takeFrom (fits : FrameRange → Bool) (pages : Nat) : List FrameRange → Option (Nat × List FrameRange)
  | [] => none
  | r :: rs =>
    if fits r then some (r.current, { r with current := r.current + pages } :: rs)
    else (takeFrom fits pages rs).map (fun res => (res.1, r :: res.2))

/-- `alloc`: a recycled frame if there is one, else the next frame of a range. -/
def alloc : Option (Nat × StackFrameAllocator) :=
  match a.recycled with
  | ppn :: rest =>
    some (physPageNum ppn, { a with recycled := rest, recycledSet := a.recycledSet.erase ppn })
  | [] =>
    (takeFrom (fun r => r.current < r.stop) 1 a.ranges).map
      (fun res => (physPageNum res.1, { a with ranges := res.2 }))

/-- `alloc_contiguous`: never from the recycled frames, never across ranges. -/
def allocContiguous (pages : Nat) : Option (Nat × StackFrameAllocator) :=
  if pages = 0 then none
  else
    (takeFrom (fun r => satAdd r.current pages ≤ r.stop) pages a.ranges).map
      (fun res => (physPageNum res.1, { a with ranges := res.2 }))

def wasAllocated (ppn : Nat) : Bool :=
  a.ranges.any (fun r => r.start ≤ ppn && ppn < r.current)

/-- `dealloc`: `none` is the panic. -/
def dealloc (ppn : Nat) : Option StackFrameAllocator :=
  if !a.wasAllocated ppn || decide (ppn ∈ a.recycledSet) then none
  else
    some { a with recycledSet := insert ppn a.recycledSet, recycled := ppn :: a.recycled }

def availablePages : Nat :=
  a.recycled.length + (a.ranges.map (fun r => r.stop - r.current)).sum

end StackFrameAllocator

/-! ### Initialisation from the device tree -/

/-- The memory the device tree reports, as `parse_memory_ranges` and `parse_reserved_ranges` read
it. The parser asserts that no range is empty; physical addresses have 56 bits. -/
structure PhysMemoryMap where
  memory : List (Nat × Nat)
  reserved : List (Nat × Nat)
  memory_nonempty : ∀ r ∈ memory, r.1 < r.2
  memory_le : ∀ r ∈ memory, r.2 ≤ 2 ^ 56

namespace PhysMemoryMap

def physMemRanges (m : PhysMemoryMap) : List (Nat × Nat) := Intervals.sortAndMerge m.memory

def reservedRanges (m : PhysMemoryMap) : List (Nat × Nat) := Intervals.sortAndMerge m.reserved

end PhysMemoryMap

namespace StackFrameAllocator

/-- The page ranges that are not to be handed out: the kernel image and what the device tree
reserves, sorted and merged. -/
def exclusions (stext ekernel : Nat) (reserved : List (Nat × Nat)) : List (Nat × Nat) :=
  Intervals.sortAndMerge ((((stext, ekernel) :: reserved).map
      (fun r => (physFloor (physAddr r.1), physCeil (physAddr r.2)))).filter (fun r => r.1 < r.2))

/-- The loop over the exclusions for the pages up to `endPpn`, and the range it leaves at the
end. -/
def addAround (endPpn : Nat) : List (Nat × Nat) → Nat → StackFrameAllocator → StackFrameAllocator
  | [], cursor, a => if cursor < endPpn then a.addRange cursor endPpn else a
  | (exStart, exEnd) :: exs, cursor, a =>
    if exEnd ≤ cursor then addAround endPpn exs cursor a
    else if exStart ≥ endPpn then if cursor < endPpn then a.addRange cursor endPpn else a
    else
      let a := if cursor < exStart then a.addRange cursor (min exStart endPpn) else a
      let cursor := max cursor exEnd
      if cursor ≥ endPpn then a else addAround endPpn exs cursor a

/-- The closure `init_frame_allocator` runs for each physical memory range. -/
def addMemory (exs : List (Nat × Nat)) (a : StackFrameAllocator) (r : Nat × Nat) : StackFrameAllocator :=
  let startPpn := physCeil (physAddr r.1)
  let endPpn := physFloor (physAddr r.2)
  if endPpn ≤ startPpn then a else addAround endPpn exs startPpn a

def initFrameAllocator (stext ekernel : Nat) (m : PhysMemoryMap) : StackFrameAllocator :=
  m.physMemRanges.foldl (addMemory (exclusions stext ekernel m.reservedRanges)) new

end StackFrameAllocator

/-! ### Trackers -/

/-- The global state: the allocator, `FRAME_REFCOUNTS`, and the `FrameTracker` values in existence,
by the frame they own. -/
structure FrameState where
  allocator : StackFrameAllocator
  refcounts : OrdMap Nat Nat
  trackers : List Nat

namespace FrameState

variable (st : FrameState)

def trackerNew (ppn : Nat) : FrameState :=
  { st with refcounts := st.refcounts.insert ppn 1, trackers := ppn :: st.trackers }

def trackerClone (ppn : Nat) : FrameState :=
  { st with refcounts := st.refcounts.insert ppn ((st.refcounts.get? ppn).getD 0 + 1) }

/-- `FrameTracker::drop`: the last tracker gives the frame back. `none` is a panic. -/
def trackerDrop (ppn : Nat) : Option FrameState :=
  match st.refcounts.get? ppn with
  | none => some st
  | some cnt =>
    if cnt ≤ 1 then
      (st.allocator.dealloc ppn).map
        (fun a => { st with allocator := a, refcounts := st.refcounts.erase ppn })
    else some { st with refcounts := st.refcounts.insert ppn (cnt - 1) }

/-- A tracker is dropped, and is one of those in existence no longer. -/
def dropTracker (ppn : Nat) : Option FrameState :=
  (st.trackerDrop ppn).map fun st' => { st' with trackers := st.trackers.erase ppn }

/-- `frame_alloc` without reclaim: take a frame and make its tracker. -/
def tryAlloc : Option (Nat × FrameState) :=
  st.allocator.alloc.map (fun res => (res.1, trackerNew { st with allocator := res.2 } res.1))

/-- `frame_alloc`. When no frame is left the page cache drops the trackers in `reclaimed`, and if
there were any the allocation is tried again. The result carries the frame handed out, if any. -/
def frameAlloc (reclaimed : List Nat) : Option (Option Nat × FrameState) :=
  match st.tryAlloc with
  | some (ppn, st) => some (some ppn, st)
  | none => do
    let st ← reclaimed.foldlM dropTracker st
    if reclaimed.length > 0 then
      match st.tryAlloc with
      | some (ppn, st) => some (some ppn, st)
      | none => some (none, st)
    else some (none, st)

/-- `frame_alloc_contiguous`: one tracker for each of the frames. -/
def frameAllocContiguous (pages : Nat) : Option Nat × FrameState :=
  match st.allocator.allocContiguous pages with
  | none => (none, st)
  | some (start, a) =>
    (some start, (List.range pages).foldl (fun st i => st.trackerNew (start + i)) { st with allocator := a })

@[simp] theorem trackerNew_trackers {st : FrameState} {ppn : Nat} :
    (st.trackerNew ppn).trackers = ppn :: st.trackers := rfl

def frameRefcount (ppn : Nat) : Nat := (st.refcounts.get? ppn).getD 0

/-- The frames with at least one live tracker. -/
def liveFrames : Finset Nat := st.trackers.toFinset

end FrameState

/-! ### Initial shape -/

variable {a : StackFrameAllocator} {st : FrameState}

namespace StackFrameAllocator

/-- An allocator under construction: ranges in order, below `bound`, nothing handed out yet. -/
structure Fresh (a : StackFrameAllocator) (bound : Nat) : Prop where
  untouched : ∀ r ∈ a.ranges, r.current = r.start ∧ r.start < r.stop ∧ r.stop ≤ bound ∧ r.stop ≤ 2 ^ 44
  ordered : a.ranges.Pairwise (fun r q => r.stop ≤ q.start)
  managed : a.managedPages = (a.ranges.map (fun r => r.stop - r.start)).sum
  managed_le : a.managedPages ≤ bound
  recycled_nil : a.recycled = []
  recycledSet_empty : a.recycledSet = ∅

namespace Fresh

variable {b c : Nat}

theorem mono (h : Fresh a b) (hbc : b ≤ c) : Fresh a c := by
  refine ⟨fun r hr => ?_, h.ordered, h.managed, le_trans h.managed_le hbc, h.recycled_nil, h.recycledSet_empty⟩
  obtain ⟨h1, h2, h3, h4⟩ := h.untouched r hr
  exact ⟨h1, h2, h3.trans hbc, h4⟩

theorem new (b : Nat) : Fresh StackFrameAllocator.new b :=
  ⟨by simp [StackFrameAllocator.new], Pairwise.nil, rfl, zero_le _, rfl, rfl⟩

/-- A range above all others can be added. -/
theorem addRange (h : Fresh a b) (hbc : b < c) (hc : c ≤ 2 ^ 44) : Fresh (a.addRange b c) c := by
  have hmax : (2 : Nat) ^ 44 ≤ usizeMax := by decide
  have hadd : satAdd a.managedPages (c - b) = a.managedPages + (c - b) := by
    have := h.managed_le
    exact satAdd_of_le (by omega)
  rw [StackFrameAllocator.addRange, if_neg (by omega)]
  refine ⟨fun r hr => ?_, ?_, ?_, ?_, h.recycled_nil, h.recycledSet_empty⟩
  · rcases mem_append.mp hr with hr | hr
    · obtain ⟨h1, h2, h3, h4⟩ := h.untouched r hr
      exact ⟨h1, h2, by omega, h4⟩
    · rw [mem_singleton.mp hr]
      exact ⟨rfl, hbc, le_rfl, hc⟩
  · refine pairwise_append.mpr ⟨h.ordered, pairwise_singleton .., fun r hr q hq => ?_⟩
    rw [mem_singleton.mp hq]
    exact (h.untouched r hr).2.2.1
  · rw [hadd, h.managed]
    simp
  · change satAdd _ _ ≤ _
    have := h.managed_le
    omega

variable {exs : List (Nat × Nat)}

/-- The pieces of one memory range around the exclusions. -/
theorem addAround (hexs : ∀ e ∈ exs, e.1 < e.2) (hc : c ≤ 2 ^ 44)
    (h : Fresh a b) (hbc : b ≤ c) : Fresh (addAround c exs b a) c := by
  induction exs generalizing a b with
  | nil =>
    unfold addAround
    split
    · next hlt => exact h.addRange hlt hc
    · exact h.mono hbc
  | cons e exs ih =>
    have hrest e (he : e ∈ exs) : e.1 < e.2 := hexs e (.tail _ he)
    have he := hexs e (.head _)
    unfold addAround
    split
    · exact ih hrest h hbc
    split
    · split
      · next hlt => exact h.addRange hlt hc
      · exact h.mono hbc
    -- the gap before the exclusion, if there is one, and then the cursor moves behind it
    next _ _ =>
    have hgap : Fresh (if b < e.1 then a.addRange b (min e.1 c) else a) (max b (min e.1 c)) := by
      split
      · exact (h.addRange (by omega) (by omega)).mono (by omega)
      · exact h.mono (by omega)
    dsimp only
    split
    · exact hgap.mono (by omega)
    · exact ih hrest (hgap.mono (by omega)) (by omega)

end Fresh

/-- The pages of one memory range, wherever the allocator has got to below it. -/
theorem addMemory_fresh {a : StackFrameAllocator} (hexs : ∀ e ∈ exs, e.1 < e.2) {r : Nat × Nat}
    (hlt : r.1 < r.2)
    (hle : r.2 ≤ 2 ^ 56) (h : Fresh a (physCeil r.1)) : Fresh (addMemory exs a r) (physCeil r.2) := by
  have hstart : physAddr r.1 = r.1 := mod_eq_of_lt (by omega)
  have hmono : physCeil r.1 ≤ physCeil r.2 := by
    unfold physCeil
    split <;> split <;> omega
  have hfloor : physFloor (physAddr r.2) ≤ physCeil r.2 ∧ physFloor (physAddr r.2) ≤ 2 ^ 44 := by
    unfold physFloor physCeil physAddr
    split <;> omega
  unfold addMemory
  rw [hstart]
  dsimp only
  split
  · exact h.mono hmono
  · exact (h.addAround hexs hfloor.2 (by omega)).mono hfloor.1

/-- **Initialisation.** The allocator starts with disjoint untouched ranges. -/
theorem initFrameAllocator_fresh {stext : Nat} {ekernel : Nat} {m : PhysMemoryMap} :
    ∃ b, Fresh (initFrameAllocator stext ekernel m) b := by
  have hexs : ∀ e ∈ exclusions stext ekernel m.reservedRanges, e.1 < e.2 :=
    (sortAndMerge_spec fun r hr => by simpa using (mem_filter.mp hr).2).2.2
  obtain ⟨-, hgaps, hne⟩ := sortAndMerge_spec m.memory_nonempty
  have hle := sortAndMerge_le m.memory_nonempty m.memory_le
  unfold initFrameAllocator PhysMemoryMap.physMemRanges
  generalize sortAndMerge m.memory = l at hgaps hne hle ⊢
  suffices hfold : ∀ (a : StackFrameAllocator) (b : Nat), (∀ r ∈ l, b ≤ physCeil r.1) → Fresh a b →
      ∃ b, Fresh (l.foldl (addMemory (exclusions stext ekernel m.reservedRanges)) a) b from
    hfold new 0 (fun _ _ => zero_le _) (Fresh.new 0)
  induction l with
  | nil => exact fun a b _ h => ⟨b, h⟩
  | cons r l ih =>
    intro a b hb h
    obtain ⟨hr, hl⟩ := pairwise_cons.mp hgaps
    refine ih hl (fun q hq => hne q (.tail _ hq)) (fun q hq => hle q (.tail _ hq)) _ (physCeil r.2)
      (fun q hq => ?_)
      (addMemory_fresh hexs (hne r (.head _)) (hle r (.head _)) (h.mono (hb r (.head _))))
    have := hr q hq
    unfold physCeil
    split <;> split <;> omega

end StackFrameAllocator

/-! ### The invariant -/

/-- **The frame invariant**, while the frames of `pending` have been taken from the allocator but
have no tracker yet. -/
structure FrameInv (st : FrameState) (pending : Nat → Prop) : Prop where
  /-- Bump pointers stay inside their ranges, and page numbers inside their width. -/
  inside : ∀ r ∈ st.allocator.ranges, r.start ≤ r.current ∧ r.current ≤ r.stop ∧ r.stop ≤ 2 ^ 44
  /-- The ranges are disjoint. -/
  apart : st.allocator.ranges.Pairwise (fun r q => r.stop ≤ q.start)
  /-- The managed total is what the ranges hold. -/
  managed : st.allocator.managedPages = (st.allocator.ranges.map (fun r => r.stop - r.start)).sum
  /-- The recycled frames form a set, which the code also keeps as one. -/
  recycled_nodup : st.allocator.recycled.Nodup
  recycledSet_eq : st.allocator.recycledSet = st.allocator.recycled.toFinset
  /-- The frames taken from a range are the recycled ones, the ones with a tracker, and the pending
  ones. -/
  taken : ∀ ppn, st.allocator.wasAllocated ppn = true ↔ ppn ∈ st.allocator.recycled ∨
    ppn ∈ st.trackers ∨ pending ppn
  /-- These three are disjoint. -/
  recycled_free : ∀ ppn ∈ st.allocator.recycled, ppn ∉ st.trackers ∧ ¬ pending ppn
  pending_free : ∀ ppn, pending ppn → ppn ∉ st.trackers
  /-- The count of a frame is the number of its trackers, and there is no zero count. -/
  counted : ∀ ppn, st.refcounts.get? ppn = if st.trackers.count ppn = 0 then none
    else some (st.trackers.count ppn)

/-- The ranges the allocator manages and their total, which are fixed by initialisation. -/
def StackFrameAllocator.extent (a : StackFrameAllocator) : List (Nat × Nat) × Nat :=
  (a.ranges.map (fun r => (r.start, r.stop)), a.managedPages)

/-- No frame is pending between two operations. -/
abbrev FrameInv.Settled (st : FrameState) : Prop := FrameInv st (fun _ => False)

namespace FrameInv

open StackFrameAllocator

variable {ppn x : Nat}

variable {pending : Nat → Prop}

theorem wasAllocated_iff : a.wasAllocated ppn = true ↔ ∃ r ∈ a.ranges, r.start ≤ ppn ∧ ppn < r.current := by
  simp [wasAllocated]

theorem init {b : Nat} (h : Fresh a b) : Settled ⟨a, empty, []⟩ := by
  refine ⟨fun r hr => ?_, h.ordered, h.managed, ?_, ?_, fun ppn => ?_, ?_, ?_, fun ppn => rfl⟩
  · obtain ⟨h1, h2, -, h4⟩ := h.untouched r hr
    exact ⟨by omega, by omega, h4⟩
  · rw [h.recycled_nil]
    exact nodup_nil
  · rw [h.recycled_nil, h.recycledSet_empty]
    rfl
  · rw [wasAllocated_iff, h.recycled_nil]
    constructor
    · rintro ⟨r, hr, h1, h2⟩
      have := (h.untouched r hr).1
      omega
    · rintro (h | h | h) <;> simp at h
  · simp
  · simp

section

variable (h : FrameInv st pending)

include h

/-- Making the tracker of a pending frame. -/
theorem trackerNew (hp : pending ppn) : FrameInv (st.trackerNew ppn) (fun x => pending x ∧ x ≠ ppn) := by
  have hfree := h.pending_free ppn hp
  refine ⟨h.inside, h.apart, h.managed, h.recycled_nodup, h.recycledSet_eq, fun x => ?_,
    fun x hx => ?_, fun x hx => ?_, fun x => ?_⟩
  · change st.allocator.wasAllocated x = true ↔ x ∈ st.allocator.recycled ∨ x ∈ ppn :: st.trackers ∨ _
    rw [h.taken x]
    by_cases hx : x = ppn
    · simp [hx, hp]
    · simp [hx]
  · obtain ⟨h1, h2⟩ := h.recycled_free x hx
    refine ⟨fun hmem => ?_, fun hpend => h2 hpend.1⟩
    rcases mem_cons.mp hmem with rfl | hmem
    · exact h2 hp
    · exact h1 hmem
  · intro hmem
    rcases mem_cons.mp hmem with rfl | hmem
    · exact hx.2 rfl
    · exact h.pending_free x hx.1 hmem
  · change (st.refcounts.insert ppn 1).get? x = _
    rw [get?_insert, FrameState.trackerNew_trackers]
    by_cases hx : x = ppn
    · have hzero : st.trackers.count x = 0 := count_eq_zero.mpr (hx ▸ hfree)
      subst hx
      simp [hzero]
    · rw [if_neg hx, h.counted x, count_cons_of_ne fun he => hx he.symm]

/-- The numbers of trackers change, and no frame gets a first or loses its last one. -/
theorem recount {counts : OrdMap Nat Nat} {trackers : List Nat} (hmem : ∀ x, x ∈ trackers ↔ x ∈ st.trackers)
    (hcounted : ∀ x, counts.get? x = if trackers.count x = 0 then none else some (trackers.count x)) :
    FrameInv ⟨st.allocator, counts, trackers⟩ pending := by
  refine ⟨h.inside, h.apart, h.managed, h.recycled_nodup, h.recycledSet_eq, fun x => ?_,
    fun x hx => ?_, fun x hx => ?_, hcounted⟩
  · rw [hmem]
    exact h.taken x
  · rw [hmem]
    exact h.recycled_free x hx
  · rw [hmem]
    exact h.pending_free x hx

/-- Cloning a live tracker. -/
theorem trackerClone (hp : ppn ∈ st.trackers) :
    FrameInv { st.trackerClone ppn with trackers := ppn :: st.trackers } pending := by
  have hmem x : x ∈ ppn :: st.trackers ↔ x ∈ st.trackers := by
    rw [mem_cons]
    exact ⟨fun hx => hx.elim (fun he => he ▸ hp) id, .inr⟩
  refine h.recount hmem fun x => ?_
  have hpos : st.trackers.count ppn ≠ 0 := fun hz => count_eq_zero.mp hz hp
  rw [FrameState.trackerClone, get?_insert]
  by_cases hx : x = ppn
  · subst hx
    rw [h.counted x, if_neg hpos]
    simp
  · rw [if_neg hx, h.counted x, count_cons_of_ne fun he => hx he.symm]

/-- Dropping a live tracker does not panic: a last tracker means the frame is taken and not
recycled. -/
theorem dropTracker (hp : ppn ∈ st.trackers) :
    ∃ st', st.dropTracker ppn = some st' ∧ FrameInv st' pending ∧ st'.trackers = st.trackers.erase ppn ∧
      st'.allocator.extent = st.allocator.extent := by
  have hpos : st.trackers.count ppn ≠ 0 := fun hz => count_eq_zero.mp hz hp
  have hget := h.counted ppn
  rw [if_neg hpos] at hget
  have hcount x : (st.trackers.erase ppn).count x = if x = ppn then
      st.trackers.count x - 1 else st.trackers.count x := by
    by_cases hx : x = ppn
    · simp [hx]
    · simp [hx]
  have hmem x (hx : x ∈ st.trackers.erase ppn) : x ∈ st.trackers := mem_of_mem_erase hx
  have hrec : ppn ∉ st.allocator.recycled := fun hr => (h.recycled_free ppn hr).1 hp
  have hpend : ¬ pending ppn := fun hpe => h.pending_free ppn hpe hp
  unfold FrameState.dropTracker FrameState.trackerDrop
  simp only [hget]
  split
  · -- the last tracker: the frame goes back to the allocator
    next _ =>
    have hlast : ppn ∉ st.trackers.erase ppn := by
      rw [← count_eq_zero, hcount, if_pos rfl]
      omega
    have hdealloc : st.allocator.dealloc ppn = some { st.allocator with
          recycledSet := insert ppn st.allocator.recycledSet
          recycled := ppn :: st.allocator.recycled } := by
      rw [dealloc]
      rw [(h.taken ppn).mpr (.inr (.inl hp)), h.recycledSet_eq]
      simp [hrec]
    rw [hdealloc]
    refine ⟨_, rfl, ⟨h.inside, h.apart, h.managed, nodup_cons.mpr ⟨hrec, h.recycled_nodup⟩, ?_,
      fun x => ?_, fun x hx => ?_, fun x hx hmx => h.pending_free x hx (hmem x hmx),
      fun x => ?_⟩, rfl, rfl⟩
    · rw [h.recycledSet_eq, toFinset_cons]
    · change st.allocator.wasAllocated x = true ↔ x ∈ ppn :: st.allocator.recycled ∨
        x ∈ st.trackers.erase ppn ∨ _
      rw [h.taken x]
      by_cases hx : x = ppn
      · subst hx
        simp [hp]
      · simp [hx]
    · rcases mem_cons.mp hx with rfl | hx
      · exact ⟨hlast, hpend⟩
      · obtain ⟨h1, h2⟩ := h.recycled_free x hx
        exact ⟨fun hm => h1 (hmem x hm), h2⟩
    · rw [get?_erase]
      split
      · next hx => rw [hx, if_pos (count_eq_zero.mpr hlast)]
      · next hx => rw [hcount, if_neg hx, h.counted x]
  · have hsame x : x ∈ st.trackers.erase ppn ↔ x ∈ st.trackers := by
      rw [← count_pos_iff, ← count_pos_iff, hcount]
      split
      · next hx => subst hx; omega
      · rfl
    refine ⟨_, rfl, h.recount hsame fun x => ?_, rfl, rfl⟩
    rw [get?_insert, hcount]
    by_cases hx : x = ppn
    · subst hx
      rw [if_pos rfl, if_pos rfl, if_neg (by omega)]
    · rw [if_neg hx, if_neg hx, h.counted x]

end

/-! ### Taking frames -/

variable {fits : FrameRange → Bool}

/-- The range the frames are taken from, and what becomes of it. -/
theorem takeFrom_eq_some {pages start : Nat} {l l' : List FrameRange}
    (h : takeFrom fits pages l = some (start, l')) :
    ∃ l₁ r l₂, l = l₁ ++ r :: l₂ ∧ fits r = true ∧ start = r.current ∧
      l' = l₁ ++ { r with current := r.current + pages } :: l₂ := by
  induction l generalizing l' with
  | nil => cases h
  | cons r rs ih =>
    unfold takeFrom at h
    split at h
    · next hfit =>
      cases h
      exact ⟨[], r, rs, rfl, hfit, rfl, rfl⟩
    · obtain ⟨⟨_, _⟩, hres, heq⟩ := Option.map_eq_some_iff.mp h
      cases heq
      obtain ⟨l₁, q, l₂, rfl, hfit, rfl, rfl⟩ := ih hres
      exact ⟨r :: l₁, q, l₂, rfl, hfit, rfl, rfl⟩

/-- A frame lies in one range only. -/
theorem range_unique (h : Settled st) {r q : FrameRange} (hr : r ∈ st.allocator.ranges)
    (hq : q ∈ st.allocator.ranges)
    (hrx : r.start ≤ x ∧ x < r.stop) (hqx : q.start ≤ x ∧ x < q.stop) : r = q := by
  by_contra hne
  have hboth : st.allocator.ranges.Pairwise fun r q => r.stop ≤ q.start ∨ q.stop ≤ r.start := h.apart.imp .inl
  have : Std.Symm fun r q : FrameRange => r.stop ≤ q.start ∨ q.stop ≤ r.start := ⟨fun _ _ => .symm⟩
  have hapart := hboth.forall hr hq hne
  omega

/-- A frame beyond the bump pointer of its range has not been taken. -/
theorem not_wasAllocated (h : Settled st) {r : FrameRange} (hr : r ∈ st.allocator.ranges) (h1 : r.current ≤ x)
    (h2 : x < r.stop) : st.allocator.wasAllocated x ≠ true := by
  intro hx
  obtain ⟨q, hq, hq1, hq2⟩ := wasAllocated_iff.mp hx
  have hrin := h.inside r hr
  have hqin := h.inside q hq
  have hrq := h.range_unique hr hq ⟨by omega, h2⟩ ⟨hq1, by omega⟩
  subst hrq
  omega

/-- Taking frames from the end of a range makes exactly these frames pending. -/
theorem take (h : Settled st) {pages start : Nat}
    {rs : List FrameRange} (hfits : ∀ r ∈ st.allocator.ranges, fits r = true → r.current + pages ≤ r.stop)
    (htake : takeFrom fits pages st.allocator.ranges = some (start, rs)) :
    start + pages ≤ 2 ^ 44 ∧ extent { st.allocator with ranges := rs } = st.allocator.extent ∧
      FrameInv { st with allocator := { st.allocator with ranges := rs } }
        (fun x => start ≤ x ∧ x < start + pages) := by
  obtain ⟨l₁, r, l₂, hl, hfit, rfl, rfl⟩ := takeFrom_eq_some htake
  have hr : r ∈ st.allocator.ranges := by simp [hl]
  have hroom := hfits r hr hfit
  obtain ⟨hin1, hin2, hin3⟩ := h.inside r hr
  have hsub : ∀ q, q ∈ l₁ ∨ q ∈ l₂ → q ∈ st.allocator.ranges := by rintro q (hq | hq) <;> simp [hl, hq]
  have hnew x (h1 : r.current ≤ x) (h2 : x < r.current + pages) : st.allocator.wasAllocated x ≠ true :=
    h.not_wasAllocated hr h1 (by omega)
  have halloc x : wasAllocated { st.allocator with ranges :=
      l₁ ++ { r with current := r.current + pages } :: l₂ } x = true ↔ st.allocator.wasAllocated x = true ∨
      r.current ≤ x ∧ x < r.current + pages := by
    have hmore : r.start ≤ x ∧ x < r.current + pages ↔
        r.start ≤ x ∧ x < r.current ∨ r.current ≤ x ∧ x < r.current + pages := by omega
    simp only [wasAllocated, hl, any_append, any_cons, Bool.or_eq_true, Bool.and_eq_true, decide_eq_true_eq]
    tauto
  refine ⟨by omega, by simp [extent, hl],
    ⟨fun q hq => ?_, ?_, ?_, h.recycled_nodup, h.recycledSet_eq, fun x => ?_,
    fun x hx => ?_, fun x hx hmem => ?_, h.counted⟩⟩
  · rcases mem_append.mp hq with hq | hq
    · exact h.inside q (hsub q (.inl hq))
    · rcases mem_cons.mp hq with rfl | hq
      · exact ⟨by dsimp only; omega, hroom, hin3⟩
      · exact h.inside q (hsub q (.inr hq))
  · simpa [hl, pairwise_append] using h.apart
  · rw [h.managed, hl]
    simp
  · rw [halloc, h.taken x]
    tauto
  · refine ⟨(h.recycled_free x hx).1, fun hrange => ?_⟩
    exact hnew x hrange.1 hrange.2 ((h.taken x).mpr (.inl hx))
  · exact hnew x hx.1 hx.2 ((h.taken x).mpr (.inr (.inl hmem)))

theorem congr {pending' : Nat → Prop} (h : FrameInv st pending)
    (heq : ∀ x, pending x ↔ pending' x) : FrameInv st pending' := by
  have : pending = pending' := funext fun x => propext (heq x)
  exact this ▸ h

variable (h : Settled st)

include h

/-- Taking the top of the recycled stack makes that frame pending. -/
theorem pop {rest : List Nat} (hrec : st.allocator.recycled = ppn :: rest) : FrameInv
      { st with allocator :=
          { st.allocator with recycled := rest, recycledSet := st.allocator.recycledSet.erase ppn } }
      (fun x => x = ppn) := by
  have hnodup := h.recycled_nodup
  rw [hrec] at hnodup
  obtain ⟨hnot, hrest⟩ := nodup_cons.mp hnodup
  have hmem x : x ∈ st.allocator.recycled ↔ x = ppn ∨ x ∈ rest := by rw [hrec, mem_cons]
  refine ⟨h.inside, h.apart, h.managed, hrest, ?_, fun x => ?_, fun x hx => ?_, fun x hx => ?_, h.counted⟩
  · rw [h.recycledSet_eq, hrec, toFinset_cons]
    exact Finset.erase_insert (by simpa using hnot)
  · change st.allocator.wasAllocated x = true ↔ x ∈ rest ∨ x ∈ st.trackers ∨ x = ppn
    rw [h.taken x, hmem]
    tauto
  · exact ⟨(h.recycled_free x ((hmem x).mpr (.inr hx))).1, fun he => hnot (he ▸ hx)⟩
  · exact (h.recycled_free x ((hmem x).mpr (.inl hx))).1

/-- **A single allocation** hands out a frame without trackers and makes its first one. -/
theorem tryAlloc {st' : FrameState} (halloc : st.tryAlloc = some (ppn, st')) :
    ppn ∉ st.trackers ∧ Settled st' ∧ st'.trackers = ppn :: st.trackers ∧
      st'.allocator.extent = st.allocator.extent := by
  obtain ⟨⟨p, a⟩, hres, heq⟩ := Option.map_eq_some_iff.mp halloc
  cases heq
  unfold alloc at hres
  split at hres
  · next ppn _ hrec =>
    have hlt : ppn < 2 ^ 44 := by
      obtain ⟨r, hr, -, h2⟩ := wasAllocated_iff.mp ((h.taken ppn).mpr (.inl (hrec ▸ mem_cons_self)))
      have := h.inside r hr
      omega
    have hmask : physPageNum ppn = ppn := mod_eq_of_lt hlt
    cases hres
    have hpend := h.pop hrec
    rw [hmask]
    exact ⟨hpend.pending_free ppn rfl, (hpend.trackerNew rfl).congr fun x => by simp, rfl, rfl⟩
  · obtain ⟨⟨q, _⟩, htake, heq'⟩ := Option.map_eq_some_iff.mp hres
    obtain ⟨hle, hext, hpend⟩ := h.take (fun r _ hfit => succ_le_of_lt (by simpa using hfit)) htake
    cases heq'
    have hmask : physPageNum q = q := mod_eq_of_lt (by omega)
    rw [hmask]
    have hin : q ≤ q ∧ q < q + 1 := by omega
    exact ⟨hpend.pending_free q hin, (hpend.trackerNew hin).congr fun x => by simp; omega, rfl, hext⟩

/-- **A contiguous allocation** hands out frames without trackers, all different, and makes the
first tracker of each. -/
theorem frameAllocContiguous (pages : Nat) : (Settled (st.frameAllocContiguous pages).2 ∧
      (st.frameAllocContiguous pages).2.allocator.extent = st.allocator.extent) ∧
      ∀ start, (st.frameAllocContiguous pages).1 = some start → ∀ i, i < pages → start + i ∉ st.trackers := by
  unfold FrameState.frameAllocContiguous
  split
  · exact ⟨⟨h, rfl⟩, nofun⟩
  next start a hres =>
  unfold allocContiguous at hres
  split at hres
  · cases hres
  obtain ⟨⟨q, rs⟩, htake, heq⟩ := Option.map_eq_some_iff.mp hres
  have hmax : (2 : Nat) ^ 44 < usizeMax := by decide
  obtain ⟨hle, hext, hpend⟩ := h.take (fun r hr hfit => by
    have hin := h.inside r hr
    have : satAdd r.current pages ≤ r.stop := by simpa using hfit
    unfold satAdd at this
    omega) htake
  cases heq
  next _ =>
  have hmask : physPageNum q = q := mod_eq_of_lt (by omega)
  rw [hmask]
  refine ⟨?_, fun start hs i hi => ?_⟩
  · -- after `n` trackers the frames from `q + n` on are pending
    suffices hloop : ∀ n, n ≤ pages → ∃ st', (range n).foldl (fun st i => st.trackerNew (q + i))
          { st with allocator := { st.allocator with ranges := rs } } = st' ∧
        FrameInv st' (fun x => q + n ≤ x ∧ x < q + pages) ∧ st'.allocator.extent = st.allocator.extent by
      obtain ⟨_, rfl, hinv, hext⟩ := hloop pages (le_rfl)
      exact ⟨hinv.congr fun x => by simp, hext⟩
    intro n
    induction n with
    | zero => exact fun _ => ⟨_, rfl, hpend, hext⟩
    | succ n ih =>
      intro _
      obtain ⟨_, hloop, hinv, hext⟩ := ih (by omega)
      have hin : q + n ≤ q + n ∧ q + n < q + pages := ⟨le_rfl, by omega⟩
      rw [range_succ, foldl_append, hloop]
      exact ⟨_, rfl, (hinv.trackerNew hin).congr fun x => by omega, hext⟩
  · cases hs
    exact hpend.pending_free (q + i) ⟨by omega, by omega⟩

/-- Dropping a list of live trackers, as the page cache does when it is asked to shrink. -/
theorem dropAll {l : List Nat} (hl : ∀ ppn, l.count ppn ≤ st.trackers.count ppn) :
    ∃ st', l.foldlM FrameState.dropTracker st = some st' ∧ Settled st' ∧
      st'.allocator.extent = st.allocator.extent := by
  induction l generalizing st with
  | nil => exact ⟨st, rfl, h, rfl⟩
  | cons ppn l ih =>
    have hp : ppn ∈ st.trackers := by
      rw [← count_pos_iff]
      have := hl ppn
      rw [count_cons_self] at this
      omega
    obtain ⟨_, hdrop, hinv, htr, hext⟩ := h.dropTracker hp
    obtain ⟨st', hrest, hinv', hext'⟩ := ih hinv fun x => by
      have := hl x
      rw [htr, count_erase]
      rw [count_cons] at this
      omega
    refine ⟨st', ?_, hinv', hext'.trans hext⟩
    rwa [foldlM_cons, hdrop]

/-! ### Counting -/

/-- **The frames add up.** What is available and what has a live tracker is everything managed. -/
theorem available_add_live : st.allocator.availablePages + st.liveFrames.card = st.allocator.managedPages := by
  -- the frames taken so far, as one set, counted in two ways
  have hapart : (st.allocator.ranges.map fun r => (r.start, r.current)).Pairwise Apart := by
    rw [pairwise_map]
    refine h.apart.imp_of_mem fun {r q} hr hq hle => .inl ?_
    have := h.inside r hr
    omega
  have hcover : cover (st.allocator.ranges.map fun r => (r.start, r.current)) =
      st.allocator.recycled.toFinset ∪ st.liveFrames := by
    ext x
    have htaken := h.taken x
    rw [wasAllocated_iff] at htaken
    rw [mem_cover, FrameState.liveFrames]
    simpa using htaken
  have hdisj : Disjoint st.allocator.recycled.toFinset st.liveFrames := by
    rw [Finset.disjoint_left]
    intro x hx hlive
    exact (h.recycled_free x (mem_toFinset.mp hx)).1 (mem_toFinset.mp hlive)
  have hcard := card_cover hapart
  rw [hcover, Finset.card_union_of_disjoint hdisj, toFinset_card_of_nodup h.recycled_nodup, map_map] at hcard
  have hsum (l : List FrameRange) (hl : (∀ r ∈ l, r.start ≤ r.current ∧ r.current ≤ r.stop)) :
      (l.map fun r => r.stop - r.start).sum =
      (l.map ((fun r : Nat × Nat => r.2 - r.1) ∘ fun r => (r.start, r.current))).sum +
      (l.map fun r => r.stop - r.current).sum := by
    induction l with
    | nil => rfl
    | cons r l ih =>
      have hr := hl r (.head _)
      have := ih fun q hq => hl q (.tail _ hq)
      simp only [map_cons, sum_cons, Function.comp_apply] at this ⊢
      omega
  rw [h.managed, hsum _ fun r hr => ⟨(h.inside r hr).1, (h.inside r hr).2.1⟩]
  unfold availablePages
  omega

end FrameInv

namespace FrameState

/-- A frame handed out by `frame_alloc` has the new tracker and no other. -/
theorem frameAlloc_spec (hinv : FrameInv.Settled st) {reclaimed : List Nat}
    (hl : ∀ ppn, reclaimed.count ppn ≤ st.trackers.count ppn) :
    ∃ res, st.frameAlloc reclaimed = some res ∧ FrameInv.Settled res.2 ∧
      res.2.allocator.extent = st.allocator.extent ∧
      ∀ ppn, res.1 = some ppn → res.2.trackers.count ppn = 1 := by
  have hone {st st' : FrameState} {p : Nat} (h : FrameInv.Settled st) (htry : st.tryAlloc =
      some (p, st')) ppn (hp : some p = some ppn) : st'.trackers.count ppn = 1 := by
    obtain ⟨hnot, -, htr, -⟩ := h.tryAlloc htry
    cases hp
    rw [htr, count_cons_self, count_eq_zero.mpr hnot]
  unfold frameAlloc
  cases hfirst : st.tryAlloc with
  | some res =>
    obtain ⟨-, hinv', -, hext⟩ := hinv.tryAlloc hfirst
    exact ⟨_, rfl, hinv', hext, hone hinv hfirst⟩
  | none =>
    obtain ⟨st₁, hdrop, hinv₁, hext⟩ := hinv.dropAll hl
    simp only [hdrop, Option.bind_eq_bind, Option.bind_some]
    split
    · cases hsecond : st₁.tryAlloc with
      | some res =>
        obtain ⟨-, hinv', -, hext'⟩ := hinv₁.tryAlloc hsecond
        exact ⟨_, rfl, hinv', hext'.trans hext, hone hinv₁ hsecond⟩
      | none => exact ⟨_, rfl, hinv₁, hext, nofun⟩
    · exact ⟨_, rfl, hinv₁, hext, nofun⟩

end FrameState

/-! ### Runs -/

/-- The operations on frames. -/
inductive FrameOp where
  /-- `frame_alloc`, with the trackers the page cache gives up if the first attempt fails. -/
  | alloc (reclaimed : List Nat)
  | allocContiguous (pages : Nat)
  | clone (ppn : Nat)
  | drop (ppn : Nat)

namespace FrameOp

/-- Only a live tracker can be cloned or dropped. -/
def Allowed (st : FrameState) : FrameOp → Prop
  | alloc reclaimed => ∀ ppn, reclaimed.count ppn ≤ st.trackers.count ppn
  | allocContiguous _ => True
  | clone ppn | drop ppn => ppn ∈ st.trackers

/-- The state after an operation, with the trackers that there are then; `none` is the panic of
`dealloc`. -/
def apply (st : FrameState) : FrameOp → Option FrameState
  | alloc reclaimed => (st.frameAlloc reclaimed).map Prod.snd
  | allocContiguous pages => some (st.frameAllocContiguous pages).2
  | clone ppn => some { st.trackerClone ppn with trackers := ppn :: st.trackers }
  | drop ppn => st.dropTracker ppn

end FrameOp

/-- **One operation** neither panics nor breaks the invariant, and manages the same frames. -/
theorem frameInv_step {st : FrameState} {op : FrameOp} (h : FrameInv.Settled st) (hop : op.Allowed st) :
    ∃ st', op.apply st = some st' ∧ FrameInv.Settled st' ∧ st'.allocator.extent = st.allocator.extent := by
  cases op with
  | alloc =>
    obtain ⟨res, hres, hinv, hext, -⟩ := FrameState.frameAlloc_spec h hop
    exact ⟨res.2, by rw [FrameOp.apply, hres]; rfl, hinv, hext⟩
  | allocContiguous pages => exact ⟨_, rfl, (h.frameAllocContiguous pages).1⟩
  | clone => exact ⟨_, rfl, h.trackerClone hop, rfl⟩
  | drop =>
    obtain ⟨st', hdrop, hinv, -, hext⟩ := h.dropTracker hop
    exact ⟨st', hdrop, hinv, hext⟩

def StackFrameAllocator.Manages (a : StackFrameAllocator) (ppn : Nat) : Prop :=
  ∃ r ∈ a.ranges, r.start ≤ ppn ∧ ppn < r.stop

/-- The managed frames that have never been handed out. -/
def StackFrameAllocator.NeverAllocated (a : StackFrameAllocator) (ppn : Nat) : Prop :=
  ∃ r ∈ a.ranges, r.current ≤ ppn ∧ ppn < r.stop

/-- **What the allocator guarantees** in a state that grew out of the initial allocator `a₀`. -/
structure FramesSound (a₀ : StackFrameAllocator) (st : FrameState) : Prop where
  /-- A frame handed out singly has its new tracker and no other. -/
  alloc_fresh : ∀ reclaimed, FrameOp.Allowed st (.alloc reclaimed) →
    ∀ ppn st', st.frameAlloc reclaimed = some (some ppn, st') → st'.trackers.count ppn = 1
  /-- No frame of a contiguous run had a tracker. -/
  contiguous_fresh : ∀ pages start, (st.frameAllocContiguous pages).1 = some start →
    ∀ i, i < pages → start + i ∉ st.trackers
  /-- The count of a frame is the number of its live trackers. -/
  refcount_eq : ∀ ppn, st.frameRefcount ppn = st.trackers.count ppn
  /-- The managed frames are those of the initial allocator. -/
  manages_iff : ∀ ppn, st.allocator.Manages ppn ↔ a₀.Manages ppn
  /-- Each is never allocated, recycled or live, … -/
  covered : ∀ ppn, st.allocator.Manages ppn ↔
    st.allocator.NeverAllocated ppn ∨ ppn ∈ st.allocator.recycled ∨ ppn ∈ st.trackers
  /-- … and only one of the three, … -/
  exclusive : ∀ ppn, ¬ (st.allocator.NeverAllocated ppn ∧ ppn ∈ st.allocator.recycled) ∧
      ¬ (st.allocator.NeverAllocated ppn ∧ ppn ∈ st.trackers) ∧
      ¬ (ppn ∈ st.allocator.recycled ∧ ppn ∈ st.trackers)
  /-- … so that the available and the live ones always add up to the same number. -/
  constant : st.allocator.availablePages + st.liveFrames.card = a₀.managedPages
  /-- The panic of `dealloc` is not reached. -/
  no_panic : ∀ op : FrameOp, op.Allowed st → (op.apply st).isSome

namespace FrameInv

theorem manages_iff_of_extent {a b : StackFrameAllocator} (h : a.extent = b.extent) (ppn : Nat) :
    a.Manages ppn ↔ b.Manages ppn := by
  have hext : a.ranges.map (fun r => (r.start, r.stop)) = b.ranges.map fun r => (r.start, r.stop) :=
    congrArg Prod.fst h
  have hiff (c : StackFrameAllocator) : c.Manages ppn ↔
      ∃ e ∈ c.ranges.map fun r => (r.start, r.stop), e.1 ≤ ppn ∧ ppn < e.2 := by
    simp [StackFrameAllocator.Manages]
  rw [hiff, hiff, hext]

/-- The invariant says what the allocator guarantees. -/
theorem sound {a₀ : StackFrameAllocator} (h : Settled st) (hext : st.allocator.extent = a₀.extent) :
    FramesSound a₀ st := by
  -- a frame that is recycled or live has been taken, so it is not beyond a bump pointer
  have hnever ppn : st.allocator.NeverAllocated ppn → st.allocator.wasAllocated ppn ≠ true :=
    fun ⟨_, hr, h1, h2⟩ => h.not_wasAllocated hr h1 h2
  refine ⟨fun reclaimed hall ppn st' hres => ?_, fun pages => (h.frameAllocContiguous pages).2,
    fun ppn => ?_, manages_iff_of_extent hext, fun ppn => ?_, fun ppn => ⟨?_, ?_, ?_⟩, ?_,
    fun op hop => ?_⟩
  · obtain ⟨_, hres', -, -, hone⟩ := FrameState.frameAlloc_spec h hall
    rw [hres] at hres'
    cases hres'
    exact hone ppn rfl
  · unfold FrameState.frameRefcount
    rw [h.counted ppn]
    split
    · next hz => rw [hz]; rfl
    · rfl
  · have htaken := h.taken ppn
    rw [or_false] at htaken
    rw [← htaken, wasAllocated_iff]
    constructor
    · rintro ⟨r, hr, h1, h2⟩
      by_cases hx : ppn < r.current
      · exact .inr ⟨r, hr, h1, hx⟩
      · exact .inl ⟨r, hr, by omega, h2⟩
    · rintro (⟨r, hr, h1, h2⟩ | ⟨r, hr, h1, h2⟩)
      · exact ⟨r, hr, le_trans (h.inside r hr).1 h1, h2⟩
      · exact ⟨r, hr, h1, h2.trans_le (h.inside r hr).2.1⟩
  · rintro ⟨h1, h2⟩
    exact hnever ppn h1 ((h.taken ppn).mpr (.inl h2))
  · rintro ⟨h1, h2⟩
    exact hnever ppn h1 ((h.taken ppn).mpr (.inr (.inl h2)))
  · rintro ⟨h1, h2⟩
    exact (h.recycled_free ppn h1).1 h2
  · have hpages : st.allocator.managedPages = a₀.managedPages := congrArg Prod.snd hext
    rw [h.available_add_live, hpages]
  · obtain ⟨_, hst', -⟩ := frameInv_step h hop
    rw [hst']
    rfl

end FrameInv

/-- The state `init_frame_allocator` leaves: no frame handed out, no tracker. -/
def FrameState.init (stext ekernel : Nat) (m : PhysMemoryMap) : FrameState :=
  ⟨StackFrameAllocator.initFrameAllocator stext ekernel m, empty, []⟩

/-- **Frames are never shared by accident.** In every state that allocations, clones and drops reach
after `init_frame_allocator`, live frames are not handed out again, counts are exact, the managed
frames are partitioned, and nothing panics. -/
theorem framesSound_of_run {stext ekernel : Nat} {m : PhysMemoryMap} {st : FrameState}
    (h : Reachable (· = FrameState.init stext ekernel m)
      (fun s t => ∃ op : FrameOp, op.Allowed s ∧ op.apply s = some t) st) :
    FramesSound (StackFrameAllocator.initFrameAllocator stext ekernel m) st := by
  have hinv : FrameInv.Settled st ∧ st.allocator.extent =
      (StackFrameAllocator.initFrameAllocator stext ekernel m).extent := by
    refine Reachable.invariant (I := fun st => FrameInv.Settled st ∧ st.allocator.extent =
      (StackFrameAllocator.initFrameAllocator stext ekernel m).extent) ?_ ?_ h
    · rintro s rfl
      obtain ⟨b, hfresh⟩ := StackFrameAllocator.initFrameAllocator_fresh
      exact ⟨FrameInv.init hfresh, rfl⟩
    rintro s t ⟨hs, hext⟩ ⟨op, hop, ht⟩
    obtain ⟨_, ht', hinv, hext'⟩ := frameInv_step hs hop
    rw [ht] at ht'
    cases ht'
    exact ⟨hinv, hext'.trans hext⟩
  exact hinv.1.sound hinv.2

/-- A machine with four pages. -/
def fourPages : PhysMemoryMap := ⟨[(0x80000000, 0x80004000)], [], by decide, by decide⟩

/-- The kernel is in the first page. A frame is allocated, its tracker cloned, and one of the two
dropped. -/
theorem framesSound_of_run_one_alloc :
    ∃ st : FrameState, st.frameRefcount 0x80001 = 1 ∧ st.trackers = [0x80001] ∧
    FramesSound (StackFrameAllocator.initFrameAllocator 0x80000000 0x80001000 fourPages) st :=
  ⟨_, rfl, rfl, framesSound_of_run (.step (.step (.step (.start rfl) ⟨.alloc [], fun _ => zero_le _, rfl⟩)
    ⟨.clone 0x80001, .head _, rfl⟩) ⟨.drop 0x80001, .head _, rfl⟩)⟩

end HitOS
