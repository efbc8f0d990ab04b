import HitOS.Lib.Reachable
import HitOS.Mm.RegionMove

/-!
# Runs of the region set

A run starts from the empty set and makes calls one after the other. `SetOp` is a call with its
arguments, `SetOp.Allowed` what its callers establish before making it.

`wellFormed_of_run` is the result: the set stays well formed along every run in which `mprotect`
meets no pending merge. Without that condition it does not. When the lower of two adjacent regions
is re-protected to what the upper one already has, the two are merged, and the loop of
`apply_mprotect_range`, which still has the upper one on its list, then puts it back a second time
(`mprotect_run_overlaps`).
-/

namespace HitOS

namespace VmRegionSet

/-- A call on the region set. -/
inductive SetOp where
  | insertMerged (region : VmRegion)
  | trimRange (start stop : Nat)
  | trimHeapRange (start stop : Nat)
  | applyMprotectRange (start stop newProt : Nat)
  | moveRangeMetadataRaw (oldAddr oldLen newStart : Nat)
  | isolateRangeRaw (start len : Nat)
  | setLenByStart (start len : Nat)
  | setLenAndFileValidByStart (start len fileValidLen : Nat)
  | expandGrowsdownAt (oldStart newStart : Nat)

namespace SetOp

/-- The set after a call; a call that reports failure leaves it as it was. -/
def apply (s : VmRegionSet) : SetOp → VmRegionSet
  | insertMerged region => s.insertMerged region
  | trimRange start stop => s.trimRange start stop
  | trimHeapRange start stop => s.trimHeapRange start stop
  | applyMprotectRange start stop newProt => (s.applyMprotectRange start stop newProt).getD s
  | moveRangeMetadataRaw oldAddr oldLen newStart => s.moveRangeMetadataRaw oldAddr oldLen newStart
  | isolateRangeRaw start len => (s.isolateRangeRaw start len).getD s
  | setLenByStart start len => (s.setLenByStart start len).1
  | setLenAndFileValidByStart start len fileValidLen =>
    (s.setLenAndFileValidByStart start len fileValidLen).1
  | expandGrowsdownAt oldStart newStart => (s.expandGrowsdownAt oldStart newStart).1

/-- What the callers establish. An inserted region is page-aligned, not empty and does not overlap
the set; a range is moved to a free destination; a change of length creates no overlap. -/
def Allowed (s : VmRegionSet) : SetOp → Prop
  | insertMerged region =>
    0 < region.len ∧ region.start % pageSize = 0 ∧ region.len % pageSize = 0 ∧ region.Fits ∧
      s.Free region.start region.endAddr
  | moveRangeMetadataRaw oldAddr oldLen newStart =>
    oldAddr + oldLen ≤ usizeMax ∧ newStart + oldLen ≤ usizeMax ∧
      (oldAddr + oldLen ≤ newStart ∨ newStart + oldLen ≤ oldAddr) ∧
      s.Free newStart (newStart + oldLen)
  | setLenByStart start len | setLenAndFileValidByStart start len _ =>
    start + len ≤ usizeMax ∧ (s.remove start).Free start (start + len)
  | expandGrowsdownAt oldStart newStart => newStart ≤ oldStart ∧ s.Free newStart oldStart
  | trimRange .. | trimHeapRange .. | applyMprotectRange .. | isolateRangeRaw .. => True

/-- The call does not run into a pending merge. -/
def Undisturbed (s : VmRegionSet) : SetOp → Prop
  | applyMprotectRange start stop newProt => NoPendingMerge s start stop newProt
  | _ => True

instance (s : VmRegionSet) (op : SetOp) : Decidable (op.Allowed s) := by
  cases op <;> unfold Allowed <;> infer_instance

instance (s : VmRegionSet) (op : SetOp) : Decidable (op.Undisturbed s) := by
  cases op <;> unfold Undisturbed <;> infer_instance

end SetOp

variable {s : VmRegionSet}

section

variable (hs : s.WellFormed)

include hs

theorem getD_wellFormed {o : Option VmRegionSet} (h : ∀ s', o = some s' → s'.WellFormed) :
    (o.getD s).WellFormed := by
  cases o with
  | none => exact hs
  | some s' => exact h s' rfl

theorem trimHeapRange_wellFormed (a b : Nat) : (s.trimHeapRange a b).WellFormed := by
  by_cases hab : a < b
  · exact (trimHeapRange_reads hab (reads_mapped hs)).wellFormed
  · rwa [trimHeapRange, collectOverlapsWhere, if_pos (by omega)]

theorem applyMprotectRange_wellFormed {s' : VmRegionSet} {a b prot : Nat} (hno : NoPendingMerge s a b prot)
    (hs' : s.applyMprotectRange a b prot = some s') : s'.WellFormed := by
  by_cases hab : a < b
  · exact (applyMprotectRange_reads id hab (reads_mapped hs) hno (fun _ _ => trivial)
      (fun _ _ => rfl) hs').wellFormed
  have hnil : s.collectOverlapsWhere a b (fun _ => true) = [] := by
    rw [collectOverlapsWhere, if_pos (by omega)]
  rw [applyMprotectRange, hnil] at hs'
  rwa [← Option.some.inj hs']

/-- **One call keeps the set well formed.** -/
theorem SetOp.apply_wellFormed {op : SetOp}
    (hallowed : op.Allowed s) (hund : op.Undisturbed s) : (op.apply s).WellFormed := by
  cases op with
  | insertMerged =>
    obtain ⟨hpos, -, -, hfit, hfree⟩ := hallowed
    exact insertMerged_wellFormed ⟨hs, hpos, hfit, hfree⟩
  | trimRange => exact (trimRange_reads (reads_mapped hs)).wellFormed
  | trimHeapRange start stop => exact trimHeapRange_wellFormed hs start stop
  | applyMprotectRange => exact getD_wellFormed hs fun _ hres => applyMprotectRange_wellFormed hs hund hres
  | moveRangeMetadataRaw =>
    obtain ⟨hold, hnew, hout, hfree⟩ := hallowed
    exact moveRangeMetadataRaw_wellFormed hs hold hnew hout hfree
  | isolateRangeRaw =>
    exact getD_wellFormed hs fun _ hres => (isolateRangeRaw_reads (reads_mapped hs) hres).wellFormed
  | setLenByStart start len | setLenAndFileValidByStart start len _ =>
    obtain ⟨hmax, hfree⟩ := hallowed
    refine updateByStart_wellFormed hs fun r hr => ?_
    obtain rfl := hs.keyed start r hr
    refine ⟨hmax, ?_⟩
    change (s.remove r.start).Free r.start (satAdd r.start len)
    rwa [satAdd_of_le hmax]
  | expandGrowsdownAt => exact expandGrowsdownAt_wellFormed hs hallowed.1 hallowed.2

end

/-- **Runs keep the set well formed.** From the empty set, along every run of allowed calls in which
no `mprotect` meets a pending merge, every set reached is well formed. -/
theorem wellFormed_of_run {s : VmRegionSet}
    (h : Reachable (· = new) (fun s t => ∃ op : SetOp, op.Allowed s ∧ op.Undisturbed s ∧ t = op.apply s) s) :
    s.WellFormed := by
  refine Reachable.invariant ?_ ?_ h
  · rintro s rfl
    exact new_wellFormed
  · rintro s t hs ⟨op, hallowed, hund, rfl⟩
    exact SetOp.apply_wellFormed hs hallowed hund

/-- Two anonymous pages, the first of which is then re-protected. -/
theorem wellFormed_of_run_two_pages : (SetOp.apply
      (SetOp.apply new (.insertMerged (.anonymous 0x1000 0x2000 3)))
      (.applyMprotectRange 0x1000 0x2000 1)).WellFormed :=
  wellFormed_of_run (.step (.step (.start rfl) ⟨_, by decide, by decide, rfl⟩) ⟨_, by decide, by decide, rfl⟩)

/-- A readable page and a writable page above it; making both writable leaves the upper page in the
set twice. -/
theorem mprotect_run_overlaps : Reachable (· = new)
      (fun s t => ∃ op : SetOp, op.Allowed s ∧ t = op.apply s)
      (SetOp.apply (SetOp.apply (SetOp.apply new (.insertMerged (.anonymous 0x1000 0x1000 1)))
          (.insertMerged (.anonymous 0x2000 0x1000 3)))
        (.applyMprotectRange 0x1000 0x3000 3)) ∧
    ¬ (SetOp.apply (SetOp.apply (SetOp.apply new (.insertMerged (.anonymous 0x1000 0x1000 1)))
          (.insertMerged (.anonymous 0x2000 0x1000 3)))
        (.applyMprotectRange 0x1000 0x3000 3)).WellFormed :=
  ⟨.step (.step (.step (.start rfl) ⟨_, by decide, rfl⟩) ⟨_, by decide, rfl⟩) ⟨_, by decide, rfl⟩, by decide⟩

end VmRegionSet

end HitOS
