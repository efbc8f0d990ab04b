import HitOS.Lib.OrdMap
import HitOS.Mm.VmRegion

/-!
# The region set

The `VmRegionSet` of `vma.rs`: the regions of one address space, keyed by their start. Insertion
joins a region with mergeable neighbours; the range operations collect the regions that overlap the
range, and then take each one out and put its pieces back.

`WellFormed` is the shape the lookups rely on: every region stored under its own start, non-empty,
and any two disjoint. Under it a lookup is membership:

* `containingAddr_eq_some_iff` — `containingAddr` finds the one region that holds the address;
* `mem_collectOverlapsWhere_iff` — the overlap scan finds exactly the regions that meet the range.
-/

namespace HitOS

open List OrdMap VmRegion Prod

/-- The regions of an address space, keyed by start address. -/
structure VmRegionSet where
  regions : OrdMap Nat VmRegion
  deriving DecidableEq

namespace VmRegionSet

/-! ### The operations of `vma.rs` -/

def new : VmRegionSet := ⟨empty⟩

variable (s : VmRegionSet)

def remove (key : Nat) : VmRegionSet := ⟨s.regions.erase key⟩

/-- `insert_unmerged`, in the release build, where the overlap assertions are compiled out. -/
def insertUnmerged (region : VmRegion) : VmRegionSet :=
  if region.len = 0 then s else ⟨s.regions.insert region.start region⟩

/-- The forward loop of `insert_merged`: while the entry that begins where `region` ends can be
merged, take it out and grow `region` by it. Every round removes an entry, so as many rounds as
there are entries always suffice. -/
def mergeForward : Nat → OrdMap Nat VmRegion → VmRegion → OrdMap Nat VmRegion × VmRegion
  | 0, m, region => (m, region)
  | fuel + 1, m, region =>
    match m.get? region.endAddr with
    | none => (m, region)
    | some next =>
      match region.mergeWith next with
      | none => (m, region)
      | some merged => mergeForward fuel (m.erase region.endAddr) merged

/-- The backward step of `insert_merged`: the nearest entry below joins in when it can. -/
def mergeBackward (m : OrdMap Nat VmRegion) (region : VmRegion) : OrdMap Nat VmRegion × VmRegion :=
  match m.lastLT region.start with
  | none => (m, region)
  | some (prevKey, prev) =>
    match prev.mergeWith region with
    | none => (m, region)
    | some merged => (m.erase prevKey, merged)

def insertMerged (region : VmRegion) : VmRegionSet :=
  if region.len = 0 then s
  else
    let back := mergeBackward s.regions region
    let fwd := mergeForward back.1.size back.1 back.2
    insertUnmerged ⟨fwd.1⟩ fwd.2

def containingAddr (addr : Nat) : Option VmRegion :=
  match s.regions.lastLE addr with
  | none => none
  | some (_, region) => if addr < region.endAddr then some region else none

def firstOverlapBeforeOrAt (start stop : Nat) : Option VmRegion :=
  if stop ≤ start then none
  else
    match s.regions.lastLE start with
    | none => none
    | some (_, region) => if region.overlaps start stop then some region else none

/-- `collect_overlaps_where`: the region across the lower bound, then those that start inside. -/
def collectOverlapsWhere (start stop : Nat) (pred : VmRegion → Bool) : List VmRegion :=
  if stop ≤ start then []
  else
    (s.firstOverlapBeforeOrAt start stop).toList.filter pred ++
      ((s.regions.range (satAdd start 1) stop).map snd).filter pred

def anyOverlapWhere (start stop : Nat) (pred : VmRegion → Bool) : Bool :=
  if stop ≤ start then false
  else
    (s.firstOverlapBeforeOrAt start stop).any pred ||
      (s.regions.range (satAdd start 1) stop).any (fun e => pred e.2)

def overlapsRange (start stop : Nat) : Bool := s.anyOverlapWhere start stop (fun _ => true)

/-- How every range loop begins with a region `p` it has collected: take it out, and put back the
part below `a`. -/
def keepLower (a : Nat) (s : VmRegionSet) (p : VmRegion) : VmRegionSet :=
  if a > p.start then (s.remove p.start).insertMerged (p.slice p.start (a - p.start))
  else s.remove p.start

/-- The body of `trim_range`'s loop: drop the region, keep what sticks out on either side. -/
def trimOne (start stop : Nat) (s : VmRegionSet) (region : VmRegion) : VmRegionSet :=
  let s := keepLower start s region
  let rEnd := region.endAddr
  if stop < rEnd then s.insertMerged (region.slice stop (rEnd - stop)) else s

def trimRange (start stop : Nat) : VmRegionSet :=
  (s.collectOverlapsWhere start stop (fun _ => true)).foldl (trimOne start stop) s

/-- `trim_heap_range`: as `trim_range`, for heap regions only. -/
def trimHeapRange (start stop : Nat) : VmRegionSet :=
  (s.collectOverlapsWhere start stop isHeap).foldl (trimOne start stop) s

/-- `can_mprotect_range`: no region in the range would gain a write permission it may not have. -/
def canMprotectRange (start stop newProt : Nat) : Bool :=
  let asksWrite := (permissionFromProt newProt).w
  s.regions.values.all fun region =>
    if !region.overlaps start stop then true
    else !asksWrite || region.mapPerm.w || region.mayWriteUpgrade

/-- The part of an overlapped region inside the range, under the new protection. -/
def reprotected (start stop newProt : Nat) (region : VmRegion) : VmRegion :=
  let ovStart := max start region.start
  let ovEnd := min stop region.endAddr
  (region.slice ovStart (ovEnd - ovStart)).setProt newProt

/-- The body of `apply_mprotect_range`'s second loop. -/
def mprotectOne (start stop newProt : Nat) (s : VmRegionSet) (region : VmRegion) : VmRegionSet :=
  let s := keepLower start s region
  let rEnd := region.endAddr
  let s := s.insertMerged (reprotected start stop newProt region)
  if stop < rEnd then s.insertMerged (region.slice stop (rEnd - stop)) else s

/-- `apply_mprotect_range`: `none` where the code returns `Err(())`. -/
def applyMprotectRange (start stop newProt : Nat) : Option VmRegionSet :=
  let overlaps := s.collectOverlapsWhere start stop (fun _ => true)
  let refused := overlaps.any fun region =>
    let ovStart := max start region.start
    let ovEnd := min stop region.endAddr
    let mid := region.slice ovStart (ovEnd - ovStart)
    (permissionFromProt newProt).w && !mid.mapPerm.w && !mid.mayWriteUpgrade
  if refused then none else some (overlaps.foldl (mprotectOne start stop newProt) s)

/-- The body of `move_range_metadata_raw`'s loop. -/
def moveOne (oldAddr oldEnd newStart : Nat) (s : VmRegionSet) (region : VmRegion) : VmRegionSet :=
  let rEnd := region.endAddr
  let ovStart := max oldAddr region.start
  let ovEnd := min oldEnd rEnd
  let s := keepLower ovStart s region
  let movedStart := satAdd newStart (ovStart - oldAddr)
  let s := s.insertMerged ((region.slice ovStart (ovEnd - ovStart)).moveTo movedStart)
  if ovEnd < rEnd then s.insertMerged (region.slice ovEnd (rEnd - ovEnd)) else s

def moveRangeMetadataRaw (oldAddr oldLen newStart : Nat) : VmRegionSet :=
  let oldEnd := satAdd oldAddr oldLen
  (s.collectOverlapsWhere oldAddr oldEnd (fun _ => true)).foldl (moveOne oldAddr oldEnd newStart) s

/-- `isolate_range_raw`: `none` where the code returns `false`, which it does before any change. -/
def isolateRangeRaw (start len : Nat) : Option VmRegionSet :=
  if start + len > usizeMax then none
  else
    let stop := start + len
    if start ≥ stop then none
    else
      match s.containingAddr start with
      | none => none
      | some region =>
        let rEnd := region.endAddr
        if stop > rEnd then none
        else
          let s := s.remove region.start
          let s :=
            if start > region.start then
              s.insertUnmerged (region.slice region.start (start - region.start))
            else s
          let s := s.insertUnmerged (region.slice start len)
          some (if stop < rEnd then s.insertUnmerged (region.slice stop (rEnd - stop)) else s)

/-- The shared shape of the operations that take the region at `start` out, change it and put it
back merged; the flag says whether there was one. -/
def updateByStart (start : Nat) (f : VmRegion → VmRegion) : VmRegionSet × Bool :=
  match s.regions.get? start with
  | none => (s, false)
  | some region => ((s.remove start).insertMerged (f region), true)

def setLenByStart (start len : Nat) : VmRegionSet × Bool :=
  s.updateByStart start (fun region => region.setLen len)

def setLenAndFileValidByStart (start len fileValidLen : Nat) : VmRegionSet × Bool :=
  s.updateByStart start (fun region => region.setLenAndFileValid len fileValidLen)

/-- `expand_growsdown_at`: a region that does not grow down is put back as it was. -/
def expandGrowsdownAt (oldStart newStart : Nat) : VmRegionSet × Bool :=
  match s.regions.get? oldStart with
  | none => (s, false)
  | some region =>
    if !region.growsdown then (⟨(s.remove oldStart).regions.insert oldStart region⟩, false)
    else ((s.remove oldStart).insertMerged (region.expandDownTo newStart), true)

/-! ### Well-formed sets -/

/-- A region belongs to the set when it is the one stored under its own start. -/
instance : Membership VmRegion VmRegionSet where
  mem s r := s.regions.get? r.start = some r

variable {r : VmRegion} {s : VmRegionSet} {x k : Nat}

theorem mem_def : r ∈ s ↔ s.regions.get? r.start = some r := Iff.rfl

/-- What holds of every region of a set can be checked along its entries. -/
instance decidableBallMem (s : VmRegionSet) (P : VmRegion → Prop) [DecidablePred P] :
    Decidable (∀ r, r ∈ s → P r) :=
  decidable_of_iff (∀ e ∈ s.regions.entries, e.1 = e.2.start → P e.2) <| by
    constructor
    · intro h r hr
      exact h (r.start, r) (get?_eq_some_iff.mp hr) rfl
    · intro h e he hk
      refine h e.2 (get?_eq_some_iff.mpr ?_)
      rw [← hk]
      exact he

/-- **Well-formedness.** Every region is stored under its own start, is not empty, ends inside the
address space, and ends before the next one begins. -/
structure WellFormed (s : VmRegionSet) : Prop where
  /-- Keys are start addresses. -/
  keyed : ∀ k r, s.regions.get? k = some r → r.start = k
  /-- No region is empty. -/
  nonempty : ∀ r ∈ s, 0 < r.len
  /-- No region wraps around the end of the address space. -/
  fits : ∀ r ∈ s, r.Fits
  /-- Any two regions are disjoint. -/
  disjoint : ∀ r ∈ s, ∀ q ∈ s, r.start < q.start → r.endAddr ≤ q.start

/-- No region of the set meets `[a, b)`. -/
def Free (s : VmRegionSet) (a b : Nat) : Prop := ∀ r ∈ s, r.endAddr ≤ a ∨ b ≤ r.start ∨ b ≤ a

instance (s : VmRegionSet) (a b : Nat) : Decidable (s.Free a b) := inferInstanceAs (Decidable (∀ r ∈ s, _))

namespace WellFormed

variable {q : VmRegion}

theorem mem_of_get? (hs : s.WellFormed) (h : s.regions.get? k = some r) : r ∈ s := by
  rwa [mem_def, hs.keyed k r h]

theorem start_lt_endAddr (hs : s.WellFormed) (hr : r ∈ s) : r.start < r.endAddr := by
  rw [(hs.fits r hr).endAddr_eq]
  have := hs.nonempty r hr
  omega

theorem eq_of_start_eq (hr : r ∈ s) (hq : q ∈ s) (h : r.start = q.start) : r = q := by
  rw [mem_def, h] at hr
  exact Option.some.inj (hr.symm.trans hq)

/-- The addresses of two different regions are apart. -/
theorem apart (hs : s.WellFormed) (hr : r ∈ s) (hq : q ∈ s) (hne : r ≠ q) :
    r.endAddr ≤ q.start ∨ q.endAddr ≤ r.start := by
  rcases lt_trichotomy r.start q.start with h | h | h
  · exact .inl (hs.disjoint r hr q hq h)
  · exact absurd (eq_of_start_eq hr hq h) hne
  · exact .inr (hs.disjoint q hq r hr h)

/-- Two regions that share an address are the same. -/
theorem eq_of_contains (hs : s.WellFormed) (hr : r ∈ s) (hq : q ∈ s)
    (hrx : r.Contains x) (hqx : q.Contains x) : r = q := by
  by_contra hne
  have hapart := hs.apart hr hq hne
  unfold Contains at hrx hqx
  omega

end WellFormed

/-- Well-formedness, read off the entry list. -/
theorem wellFormed_iff_entries :
    s.WellFormed ↔ (∀ e ∈ s.regions.entries, e.2.start = e.1 ∧ 0 < e.2.len ∧ e.2.Fits) ∧
        s.regions.entries.Pairwise (fun e e' => e.2.endAddr ≤ e'.1) := by
  constructor
  · intro hs
    have hget e (he : e ∈ s.regions.entries) : s.regions.get? e.1 = some e.2 := get?_eq_some_iff.mpr he
    refine ⟨fun e he => ?_, s.regions.sorted.imp_of_mem fun {e e'} he he' hlt => ?_⟩
    · have hmem := hs.mem_of_get? (hget e he)
      exact ⟨hs.keyed _ _ (hget e he), hs.nonempty _ hmem, hs.fits _ hmem⟩
    have hk := hs.keyed _ _ (hget e he)
    have hk' := hs.keyed _ _ (hget e' he')
    have := hs.disjoint _ (hs.mem_of_get? (hget e he)) _ (hs.mem_of_get? (hget e' he')) (by omega)
    omega
  · rintro ⟨hreg, hpair⟩
    have hentry r (hr : r ∈ s) : (r.start, r) ∈ s.regions.entries := get?_eq_some_iff.mp hr
    refine ⟨fun k r hk => (hreg _ (get?_eq_some_iff.mp hk)).1,
      fun r hr => (hreg _ (hentry r hr)).2.1, fun r hr => (hreg _ (hentry r hr)).2.2, ?_⟩
    intro r hr q hq hlt
    -- of two entries of a sorted list, the one with the smaller key comes first
    have hR : ∀ ⦃e⦄, e ∈ s.regions.entries → ∀ ⦃e'⦄, e' ∈ s.regions.entries → e.1 < e'.1 →
      e.2.endAddr ≤ e'.1 :=
      Pairwise.forall_of_forall_of_flip (fun e _ h => absurd h (lt_irrefl _))
        (hpair.imp fun {e e'} h (_ : e.1 < e'.1) => h)
        (s.regions.sorted.imp fun {e e'} h (h' : e'.1 < e.1) => absurd (lt_trans h h') (lt_irrefl _))
    exact hR (hentry r hr) (hentry q hq) hlt

instance (s : VmRegionSet) : Decidable s.WellFormed := decidable_of_iff _ wellFormed_iff_entries.symm

theorem new_wellFormed : new.WellFormed := by decide

/-! ### Removal and plain insertion -/

theorem mem_remove_iff : r ∈ s.remove k ↔ r ∈ s ∧ r.start ≠ k := by
  rw [mem_def, mem_def, remove, get?_erase]
  split
  · next h => simp [h]
  · next h => simp [h]

theorem remove_wellFormed (hs : s.WellFormed) : (s.remove k).WellFormed where
  keyed k' r h := by
    rw [remove, get?_erase] at h
    split at h
    · cases h
    · exact hs.keyed k' r h
  nonempty r h := hs.nonempty r (mem_remove_iff.mp h).1
  fits r h := hs.fits r (mem_remove_iff.mp h).1
  disjoint r h q hq := hs.disjoint r (mem_remove_iff.mp h).1 q (mem_remove_iff.mp hq).1

/-- Removing a region of a well-formed set frees its addresses. -/
theorem free_remove (hs : s.WellFormed) (hr : r ∈ s) : (s.remove r.start).Free r.start r.endAddr := by
  intro q hq
  obtain ⟨hqs, hne⟩ := mem_remove_iff.mp hq
  exact (hs.apart hqs hr fun h => hne (h ▸ rfl)).imp_right .inl

theorem Free.mono {a b a' b' : Nat} (h : s.Free a b) (ha : a ≤ a') (hb : b' ≤ b) : s.Free a' b' := by
  intro r hr
  have := h r hr
  omega

/-- The region can be put into the set without overlapping another one. -/
structure Placeable (s : VmRegionSet) (r : VmRegion) : Prop where
  wellFormed : s.WellFormed
  nonempty : 0 < r.len
  fits : r.Fits
  free : s.Free r.start r.endAddr

section InsertUnmerged

theorem mem_insertUnmerged_iff (hc : Placeable s r) {q : VmRegion} :
    q ∈ s.insertUnmerged r ↔ q = r ∨ q ∈ s := by
  have hpos := hc.nonempty
  rw [insertUnmerged, if_neg (by omega), mem_def, get?_insert]
  split
  · constructor
    · intro he
      exact .inl (Option.some.inj he).symm
    rintro (rfl | hq)
    · rfl
    -- a region of the set cannot begin where the free range does
    have h1 := hc.wellFormed.start_lt_endAddr hq
    have h2 := hc.fits.endAddr_eq
    have h3 := hc.free q hq
    omega
  · next h =>
    constructor
    · exact .inr
    · rintro (rfl | hq)
      · exact absurd rfl h
      · exact hq

theorem insertUnmerged_wellFormed (hc : Placeable s r) : (s.insertUnmerged r).WellFormed := by
  have hmem := fun q => mem_insertUnmerged_iff hc (q := q)
  obtain ⟨hs, hpos, hfit, hfree⟩ := hc
  have hlt : r.start < r.endAddr := by rw [hfit.endAddr_eq]; omega
  refine ⟨?_, ?_, ?_, ?_⟩
  · intro k q hk
    rw [insertUnmerged, if_neg (by omega), get?_insert] at hk
    split at hk
    · next h => rw [← Option.some.inj hk, h]
    · exact hs.keyed k q hk
  · intro q hq
    rcases (hmem q).mp hq with rfl | hq
    · exact hpos
    · exact hs.nonempty q hq
  · intro q hq
    rcases (hmem q).mp hq with rfl | hq
    · exact hfit
    · exact hs.fits q hq
  · intro q hq p hp hqp
    rcases (hmem q).mp hq with rfl | hqs <;> rcases (hmem p).mp hp with rfl | hps
    · omega
    · have := hs.start_lt_endAddr hps
      have := hfree p hps
      omega
    · have := hfree q hqs
      omega
    · exact hs.disjoint q hqs p hps hqp

end InsertUnmerged

/-! ### Lookups -/

/-- **Lookup is membership.** `containingAddr` finds the region that holds the address. -/
theorem containingAddr_eq_some_iff (hs : s.WellFormed) :
    s.containingAddr x = some r ↔ r ∈ s ∧ r.Contains x := by
  unfold containingAddr
  constructor
  · intro h
    split at h
    · cases h
    next k q hq =>
    obtain ⟨hget, hle, -⟩ := lastLE_eq_some_iff.mp hq
    split at h
    · next hx =>
      cases h
      exact ⟨hs.mem_of_get? hget, by rw [hs.keyed k _ hget]; exact hle, hx⟩
    · cases h
  · rintro ⟨hr, hle, hlt⟩
    -- any other entry at most `x` would start inside `r` or before it
    have hmax : ∀ k q, s.regions.get? k = some q → k ≤ x → k ≤ r.start := by
      intro k q hk _
      by_contra hgt
      have hkq := hs.keyed k q hk
      have := hs.disjoint r hr q (hs.mem_of_get? hk) (by omega)
      omega
    rw [lastLE_eq_some_iff.mpr ⟨hr, hle, hmax⟩]
    simp [hlt]

theorem containingAddr_eq_none_iff (hs : s.WellFormed) :
    s.containingAddr x = none ↔ ∀ r ∈ s, ¬ r.Contains x := by
  rw [Option.eq_none_iff_forall_ne_some]
  refine forall_congr' fun r => ?_
  rw [Ne, containingAddr_eq_some_iff hs, not_and]

/-! ### The overlap scan -/

theorem overlaps_iff {a b : Nat} : r.overlaps a b = true ↔ r.start < b ∧ a < r.endAddr := by
  simp [overlaps]

section Overlaps

variable {a b : Nat} {pred : VmRegion → Bool}

variable (hs : s.WellFormed)

include hs

theorem firstOverlapBeforeOrAt_eq_some_iff (hab : a < b) :
    s.firstOverlapBeforeOrAt a b = some r ↔ r ∈ s ∧ r.Contains a := by
  rw [← containingAddr_eq_some_iff hs]
  unfold firstOverlapBeforeOrAt containingAddr
  rw [if_neg (by omega)]
  cases h : s.regions.lastLE a with
  | none => rfl
  | some e =>
    obtain ⟨hget, hle, -⟩ := lastLE_eq_some_iff.mp h
    have hk := hs.keyed _ _ hget
    have : e.2.overlaps a b = true ↔ a < e.2.endAddr := by
      rw [overlaps_iff]
      omega
    simp only [this]

theorem mem_range_iff : r ∈ (s.regions.range (satAdd a 1) b).map snd ↔ r ∈ s ∧ a < r.start ∧ r.start < b := by
  rw [mem_map]
  constructor
  · rintro ⟨⟨k, q⟩, he, rfl⟩
    obtain ⟨hget, hlo, hhi⟩ := mem_range_iff.mp he
    have hk := hs.keyed k q hget
    have hfit := hs.fits q (hs.mem_of_get? hget)
    have hpos := hs.nonempty q (hs.mem_of_get? hget)
    refine ⟨hs.mem_of_get? hget, ?_, hk ▸ hhi⟩
    unfold satAdd at hlo
    unfold Fits at hfit
    change a < q.start
    omega
  · rintro ⟨hr, hlo, hhi⟩
    refine ⟨(r.start, r), OrdMap.mem_range_iff.mpr ⟨hr, ?_, hhi⟩, rfl⟩
    exact le_trans (satAdd_le_add a 1) hlo

/-- **The overlap scan is exact.** It finds the regions that meet the range. -/
theorem mem_collectOverlapsWhere_iff : r ∈ s.collectOverlapsWhere a b pred ↔
      r ∈ s ∧ a < b ∧ r.start < b ∧ a < r.endAddr ∧ pred r = true := by
  unfold collectOverlapsWhere
  split
  · simp only [not_mem_nil, false_iff]
    omega
  rw [mem_append, mem_filter, mem_filter, mem_range_iff hs,
    Option.mem_toList, firstOverlapBeforeOrAt_eq_some_iff hs (by omega)]
  constructor
  · rintro (⟨⟨hr, hle, hlt⟩, hp⟩ | ⟨⟨hr, hlo, hhi⟩, hp⟩)
    · exact ⟨hr, by omega, by omega, hlt, hp⟩
    · exact ⟨hr, by omega, hhi, lt_trans hlo (hs.start_lt_endAddr hr), hp⟩
  · rintro ⟨hr, -, hlt, hgt, hp⟩
    by_cases hra : r.start ≤ a
    · exact .inl ⟨⟨hr, hra, hgt⟩, hp⟩
    · exact .inr ⟨⟨hr, by omega, hlt⟩, hp⟩

/-- The scan visits the regions from the lowest up. -/
theorem collectOverlapsWhere_sorted :
    (s.collectOverlapsWhere a b pred).Pairwise (fun r q => r.endAddr ≤ q.start) := by
  unfold collectOverlapsWhere
  split
  · exact Pairwise.nil
  next _ =>
  refine pairwise_append.mpr ⟨?_, ?_, ?_⟩
  · cases s.firstOverlapBeforeOrAt a b with
    | none => exact Pairwise.nil
    | some r => exact (pairwise_singleton _ r).filter _
  · have hsorted : ((s.regions.range (satAdd a 1) b).map snd).Pairwise fun r q => r.endAddr ≤ q.start := by
      rw [pairwise_map]
      refine (s.regions.range_sorted ..).imp_of_mem ?_
      rintro ⟨k, r⟩ ⟨k', q⟩ hr hq hlt
      have hr' := (OrdMap.mem_range_iff.mp hr).1
      have hq' := (OrdMap.mem_range_iff.mp hq).1
      refine hs.disjoint r (hs.mem_of_get? hr') q (hs.mem_of_get? hq') ?_
      rwa [hs.keyed k r hr', hs.keyed k' q hq']
    exact hsorted.filter _
  · intro r hr q hq
    have hr' := (mem_filter.mp hr).1
    rw [Option.mem_toList, firstOverlapBeforeOrAt_eq_some_iff hs (by omega)] at hr'
    have hq' := (mem_range_iff hs).mp (mem_filter.mp hq).1
    have := hr'.2.1
    exact hs.disjoint r hr'.1 q hq'.1 (by omega)

/-- The region has an address in the range. -/
def Meets (r : VmRegion) (a b : Nat) : Prop := ∃ x, (a ≤ x ∧ x < b) ∧ r.Contains x

theorem WellFormed.meets_iff (hr : r ∈ s) : Meets r a b ↔ a < b ∧ r.start < b ∧ a < r.endAddr := by
  have hlt := hs.start_lt_endAddr hr
  constructor
  · rintro ⟨x, hx, hrx⟩
    have h1 := hrx.1
    have h2 := hrx.2
    omega
  · intro h
    refine ⟨max a r.start, by omega, ?_, ?_⟩ <;> omega

theorem anyOverlapWhere_iff : s.anyOverlapWhere a b pred = true ↔ ∃ r ∈ s, pred r = true ∧ Meets r a b := by
  have hany : s.anyOverlapWhere a b pred = (s.collectOverlapsWhere a b fun _ => true).any pred := by
    unfold anyOverlapWhere collectOverlapsWhere
    split
    · rfl
    · cases s.firstOverlapBeforeOrAt a b <;> simp [Function.comp_def]
  rw [hany, any_eq_true]
  refine exists_congr fun r => ?_
  rw [mem_collectOverlapsWhere_iff hs]
  constructor
  · rintro ⟨⟨hr, hab, hlt, hgt, -⟩, hp⟩
    exact ⟨hr, hp, (hs.meets_iff hr).mpr ⟨hab, hlt, hgt⟩⟩
  · rintro ⟨hr, hp, hm⟩
    obtain ⟨hab, hlt, hgt⟩ := (hs.meets_iff hr).mp hm
    exact ⟨⟨hr, hab, hlt, hgt, rfl⟩, hp⟩

end Overlaps

end VmRegionSet

end HitOS
