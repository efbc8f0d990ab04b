import HitOS.Mm.RegionMove

/-!
# What a region allows, and queries on the region set

The parts of `vma.rs` that the memory set consults: which faults a region serves, which areas may be
put into it (`VmaInsertArea`), and the queries `covers_range`, `snapshot_range` and
`count_after_insert_merged` on the region set.
-/

namespace HitOS

/-! ### Policies -/

namespace VmPolicy

variable (p : VmPolicy)

def isFileLike : Bool := p.fileBacked || p.memfdId != 0 || p.sysvShmid != 0

def isPrivateAnonymous : Bool := !p.shared && !p.isFileLike

/-- `can_zero_fill_framed_refault`: a framed stack page can be filled with zeros again. -/
def canZeroFillFramedRefault : Bool :=
  p.mapType == .framed && p.kind == .stack && p.isPrivateAnonymous

/-- `can_file_framed_lazy_fault`: a framed file page can be read again. -/
def canFileFramedLazyFault : Bool := p.mapType == .framed && p.fileBacked && p.backingId != 0

def canHaveLazyConcrete : Bool :=
  p.mapType == .lazy || p.canFileFramedLazyFault || p.canZeroFillFramedRefault

end VmPolicy

namespace VmRegion

/-- `lazy_fault_policy`: the permission and flags of a page that a fault may bring in. -/
def lazyFaultPolicy (r : VmRegion) (faultVa : Nat) (access : MapPermission) :
    Option (MapPermission × PTEFlags) :=
  if !r.policy.canHaveLazyConcrete || faultVa ≥ r.sigbusStart then none
  else if r.mapPerm.contains access then
    some (r.mapPerm, { PTEFlags.ofPermission r.mapPerm with shared := r.shared })
  else none

def allowsCowFault (r : VmRegion) (faultVa : Nat) : Bool :=
  faultVa < r.sigbusStart && r.mapPerm.w && !r.shared

/-- A file or memfd stands behind the region, which therefore needs a backing entry. -/
def needsBacking (r : VmRegion) : Bool := r.fileBacked || r.memfdId != 0

end VmRegion

/-! ### Areas to insert -/

/-- The pages `mmap` asks for, and how they come into being. Bounds are addresses. -/
inductive VmaInsertArea where
  | lazy (start stop : Nat)
  | framed (start stop : Nat)
  /-- Frames of an object outside the address space, as of a memfd or a System V segment. -/
  | sharedFrames (start stop : Nat) (frames : List Nat)
  deriving DecidableEq, Repr

namespace VmaInsertArea

def start : VmaInsertArea → Nat
  | lazy start _ | framed start _ | sharedFrames start _ _ => start

def stop : VmaInsertArea → Nat
  | lazy _ stop | framed _ stop | sharedFrames _ stop _ => stop

/-- The frames the area brings along. -/
def frames : VmaInsertArea → List Nat
  | sharedFrames _ _ frames => frames
  | _ => []

def mapType : VmaInsertArea → MapType
  | lazy .. => .lazy
  | framed .. | sharedFrames .. => .framed

def frameCountMatchesRange : VmaInsertArea → Bool
  | sharedFrames start stop frames =>
    stop ≤ start || ((stop - start) % pageSize == 0 && frames.length == (stop - start) / pageSize)
  | _ => true

def compatibleWithRegion (area : VmaInsertArea) (region : VmRegion) : Bool :=
  if area.stop ≤ area.start then true
  else if area.start < region.start || area.stop > region.endAddr || !area.frameCountMatchesRange then
    false
  else if area.start ≥ region.sigbusStart then region.isFileLike && area.mapType == .lazy
  else if area.stop > region.sigbusStart then false
  else
    match region.mapType with
    | .lazy => area.mapType == .lazy
    | .framed => area.mapType == .framed
    | .identical => false

/-- `concrete_permission_from_region`: only the user bit in the SIGBUS tail. -/
def concretePermissionFromRegion (area : VmaInsertArea) (region : VmRegion) : Option MapPermission :=
  if area.compatibleWithRegion region then
    some (if area.start ≥ region.sigbusStart then .U else region.mapPerm)
  else none

end VmaInsertArea

/-! ### Queries on the region set -/

namespace VmRegionSet

/-- The loop of `covers_range`. Every round goes on to the end of a region, so as many rounds as
there are regions suffice. -/
def coversFrom (s : VmRegionSet) (stop : Nat) : Nat → Nat → Bool
  | 0, cursor => stop ≤ cursor
  | fuel + 1, cursor =>
    if cursor < stop then
      match s.containingAddr cursor with
      | none => false
      | some region =>
        if region.endAddr ≤ cursor then false
        else s.coversFrom stop fuel (min region.endAddr stop)
    else true

variable (s : VmRegionSet)

def coversRange (start stop : Nat) : Bool :=
  if stop ≤ start then true else s.coversFrom stop s.regions.size start

/-- The part of a region inside `[start, stop)`, as `snapshot_range` cuts it out. -/
def clipped (start stop : Nat) (region : VmRegion) : Option VmRegion :=
  let ovStart := max start region.start
  let ovEnd := min stop region.endAddr
  if ovStart < ovEnd then some (region.slice ovStart (ovEnd - ovStart)) else none

def snapshotRange (start stop : Nat) : List VmRegion :=
  (s.collectOverlapsWhere start stop (fun _ => true)).filterMap (clipped start stop)

/-- The forward loop of `count_after_insert_merged`, which only counts. -/
def countForward (s : VmRegionSet) : Nat → VmRegion → Nat → Nat
  | 0, _, count => count
  | fuel + 1, region, count =>
    match s.regions.get? region.endAddr with
    | none => count
    | some next =>
      match region.mergeWith next with
      | none => count
      | some merged => s.countForward fuel merged (count - 1)

def countAfterInsertMerged (region : VmRegion) : Nat :=
  if region.len = 0 then s.regions.size
  else
    let count := s.regions.size + 1
    match s.regions.lastLT region.start with
    | none => s.countForward s.regions.size region count
    | some (_, prev) =>
      match prev.mergeWith region with
      | none => s.countForward s.regions.size region count
      | some merged => s.countForward s.regions.size merged (count - 1)

/-- The record `mark_fork_inherited_anonymous_mmap` leaves of a region. -/
def forkInherited (region : VmRegion) : VmRegion :=
  if region.kind == .mmap && region.isPrivateAnonymous then
    { region with forkInheritedAnon := true }
  else region

def markForkInheritedAnonymousMmap : VmRegionSet := ⟨s.regions.mapVal forkInherited⟩

end VmRegionSet

end HitOS
