import HitOS.Mm.MemorySet

/-!
# Faults, `fork` and memory accesses

The functions of `fault.rs` that resolve a copy-on-write fault and a fault on a page not yet
resident, and `from_existed_user_cow`, the address space of a forked child. They write frames, so
the physical memory is passed along; and the accesses of user code are given as `load` and `store`,
which go through the page table as the hardware does.

The kernel takes these from outside, as arguments: the frame `frame_alloc` returns, if there is one;
the frame that the global cache of shared pages has for a page; whether the cgroup admits a charge;
and the content of files.
-/

namespace HitOS

open Function MapArea

abbrev PageBytes := Nat → UInt8

/-- The bytes of every physical frame. -/
abbrev Memory := Nat → PageBytes

/-- The bytes of every file, by device and inode number; zero past the end. -/
abbrev Files := Nat → Nat → Nat → UInt8

inductive LazyFaultResult where
  | resolved
  | invalid
  | oom
  deriving DecidableEq, Repr

/-- What a fault finds outside the address space. -/
structure FaultEnv where
  /-- The frame the cache of shared pages keeps for the page, if it has one. -/
  cachedShared : Option Nat
  /-- What `frame_alloc` returns. -/
  frame : Option Nat
  /-- Whether `cgroup_charge_anon_current` admits the charge. -/
  chargeAdmitted : Bool

/-- The flags of a page whose copy-on-write mark has been resolved. -/
def PTEFlags.cowResolved (flags : PTEFlags) : PTEFlags :=
  { flags with cow := false, w := true, d := true }

/-- The flags of a page that parent and child share after `fork`. -/
def PTEFlags.cowShared (flags : PTEFlags) : PTEFlags :=
  if (flags.w || flags.d) && !flags.shared then { flags with w := false, d := false, cow := true }
  else flags

namespace VmRegion

/-- The pages of the region are found in a cache of shared pages, by file or by shared object. -/
def usesSharedCache (r : VmRegion) : Bool :=
  r.shared && (r.fileBacked && r.memfdId == 0 && r.backingId != 0 || r.anonSharedId != 0)

end VmRegion

namespace MemorySet

/-! ### The copy-on-write fault -/

variable (s : MemorySet)

def resolveCowFault (mem : Memory) (faultVa : Nat) (frame : Option Nat) :
    MemorySet × Memory × Bool :=
  let vpn := vpnFloor faultVa
  match s.vmRegions.containingAddr faultVa with
  | none => (s, mem, false)
  | some region =>
    if !region.allowsCowFault faultVa then (s, mem, false)
    else
      match s.pageTable vpn, frame with
      | some pte, some frame =>
        if !pte.flags.cow || pte.flags.shared then (s, mem, false)
        else
          let areas := modifyFirst (fun area => !area.isIdentical && area.containsVpn vpn)
            (fun area => area.insertTrackedFrame vpn frame) s.areas
          ({ s with areas := areas, pageTable := s.pageTable.put vpn frame pte.flags.cowResolved },
            update mem frame (mem pte.ppn), true)
      | _, _ => (s, mem, false)

/-! ### The fault on a page that is not resident -/

/-- The bytes of a page that is brought in: a file page is read from the file as far as the region
says it is valid, everything else is zero. -/
def faultedPage (files : Files) (region : VmRegion) (vpn : Nat) : PageBytes :=
  let delta := vpn * pageSize - region.start
  match if region.fileBacked then s.mmapBackings.get? region.backingId else none with
  | some (.file dev ino) =>
    fun i => if i < min (min region.fileValidLen region.len - delta) pageSize
      then files dev ino (satAdd region.fileOffset delta + i) else 0
  | _ => fun _ => 0

/-- The pages `resolve_lazy_fault` has to charge before the page is brought in. -/
def newChargePages (area : MapArea) (region : VmRegion) : Nat :=
  if region.policy.isPrivateAnonymous && region.mapPerm.u && region.mapPerm.w then
    area.pageCount - area.chargedOrTrackedPages
  else 0

def resolveLazyFault (mem : Memory) (files : Files) (faultVa : Nat)
    (access : MapPermission) (env : FaultEnv) : MemorySet × Memory × LazyFaultResult :=
  let vpn := vpnFloor faultVa
  match s.vmRegions.containingAddr faultVa with
  | none => (s, mem, .invalid)
  | some region =>
    match region.lazyFaultPolicy faultVa access with
    | none => (s, mem, .invalid)
    | some (_, flags) =>
      let owner := fun area : MapArea => area.isLazy && area.containsVpn vpn
      match s.areas.find? owner with
      | none => (s, mem, .invalid)
      | some area =>
        if (s.pageTable vpn).isSome then (s, mem, .invalid)
        else
          -- a cached frame is used as it is, a new one is filled
          let cached := if region.usesSharedCache then env.cachedShared else none
          match cached.or env.frame with
          | none => (s, mem, .oom)
          | some frame =>
            let mem := if cached.isSome then mem else update mem frame (s.faultedPage files region vpn)
            let charge := newChargePages area region
            if charge > 0 && !env.chargeAdmitted then (s, mem, .oom)
            else
              let areas := modifyFirst owner (fun area =>
                { area with
                  dataFrames := area.dataFrames.insert vpn frame
                  chargedPages := if charge > 0 then area.chargedOrTrackedPages + charge
                    else area.chargedPages }) s.areas
              ({ s with areas := areas, pageTable := s.pageTable.put vpn frame flags }, mem, .resolved)

/-! ### `fork` -/

/-- What the loops of `from_existed_user_cow` carry. -/
structure ForkState where
  parent : PageTable
  child : PageTable
  frames : List Nat
  mem : Memory

/-- One tracked page. A page without a valid entry is skipped; a kernel page is copied into a new
frame, and skipped if there is none; a user page is shared. -/
def forkPage (st : ForkState × MapArea) (e : Nat × Nat) : Option (ForkState × MapArea) :=
  let (acc, newArea) := st
  match acc.parent e.1 with
  | none => some (acc, newArea)
  | some pte =>
    if !pte.flags.u then
      match acc.frames with
      | [] => some (acc, newArea)
      | frame :: frames =>
        (acc.child.map e.1 frame pte.flags).map (fun child =>
          ({ acc with
              child := child, frames := frames
              mem := update acc.mem frame (acc.mem pte.ppn) },
            newArea.insertTrackedFrame e.1 frame))
    else
      (acc.child.map e.1 pte.ppn pte.flags.cowShared).map (fun child =>
        ({ acc with child := child, parent := acc.parent.setFlags e.1 pte.flags.cowShared },
          newArea.insertTrackedFrame e.1 e.2))

/-- One page of an identical area. -/
def forkIdenticalPage (acc : ForkState) (vpn : Nat) : Option ForkState :=
  match acc.parent vpn with
  | none => some acc
  | some pte => (acc.child.map vpn pte.ppn pte.flags).map (fun child => { acc with child := child })

/-- One area: the area of the child with the pages it gets. -/
def forkArea (acc : ForkState) (area : MapArea) : Option (ForkState × MapArea) :=
  match area.mapType with
  | .identical =>
    ((vpnRange area.start area.stop).foldlM forkIdenticalPage acc).map
      (fun acc => (acc, fromAnother area))
  | .framed | .lazy => area.dataFrames.entries.foldlM forkPage (acc, fromAnother area)

/-- The loop over the areas; `push_mapped_raw` sorts after each. -/
def forkAreas : ForkState → List MapArea → List MapArea → Option (ForkState × List MapArea)
  | acc, done, [] => some (acc, done)
  | acc, done, area :: rest =>
    match forkArea acc area with
    | none => none
    | some (acc, newArea) => forkAreas acc (sortUserAreas (done ++ [newArea])) rest

/-- `from_existed_user_cow`: the parent, whose entries lose their write bit, the child, and the
memory with the copied kernel pages. -/
def fromExistedUserCow (mem : Memory) (frames : List Nat) :
    Option (MemorySet × MemorySet × Memory) :=
  match forkAreas { parent := s.pageTable, child := PageTable.new, frames := frames, mem := mem } []
      s.areas with
  | none => none
  | some (acc, areas) =>
    some ({ s with pageTable := acc.parent },
      { pageTable := acc.child
        areas := areas
        vmRegions := s.vmRegions.markForkInheritedAnonymousMmap
        mmapBackings := s.mmapBackings
        nextMmapBackingId := s.nextMmapBackingId
        kernelRanges := s.kernelRanges }, acc.mem)

/-! ### Accesses of user code -/

/-- A load of user code, where the page table admits it. -/
def load (mem : Memory) (va : Nat) : Option UInt8 :=
  match s.pageTable (vpnFloor va) with
  | none => none
  | some pte => if pte.flags.u && pte.flags.r then some (mem pte.ppn (va % pageSize)) else none

/-- A store of user code, where the page table admits it; the hardware marks the entry. -/
def store (mem : Memory) (va : Nat) (byte : UInt8) : Option (MemorySet × Memory) :=
  match s.pageTable (vpnFloor va) with
  | none => none
  | some pte =>
    if pte.flags.u && pte.flags.w then
      some ({ s with
          pageTable := s.pageTable.setFlags (vpnFloor va) { pte.flags with a := true, d := true } },
        update mem pte.ppn (update (mem pte.ppn) (va % pageSize) byte))
    else none

/-- What a store that is admitted does. -/
theorem store_eq_some {s t : MemorySet} {mem mem' : Memory} {va : Nat} {byte : UInt8}
    (h : s.store mem va byte = some (t, mem')) :
    ∃ pte, s.pageTable (vpnFloor va) = some pte ∧ pte.flags.u = true ∧ pte.flags.w = true ∧ t = { s with
        pageTable := s.pageTable.setFlags (vpnFloor va) { pte.flags with a := true, d := true } } ∧
      mem' = update mem pte.ppn (update (mem pte.ppn) (va % pageSize) byte) := by
  unfold store at h
  cases hpte : s.pageTable (vpnFloor va) with
  | none => rw [hpte] at h; cases h
  | some pte =>
  rw [hpte] at h
  dsimp only at h
  split at h
  · next hflags =>
    rw [Bool.and_eq_true] at hflags
    cases h
    exact ⟨pte, rfl, hflags.1, hflags.2, rfl, rfl⟩
  · cases h

end MemorySet

end HitOS
