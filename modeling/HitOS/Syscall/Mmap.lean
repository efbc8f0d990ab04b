import HitOS.Ipc.Shm
import HitOS.Mm.MemorySet

/-!
# System calls on the mappings of a process

`munmap`, `mmap` and `mremap` of `syscall/memory`, and the mapping part of `shmat` and `shmdt`, on
the memory set of a process and the records of its attached shared memory. The records part of each
call is the function of `HitOS.Ipc.Shm`, asked what it would record if the memory could be mapped;
the call then tries to map it.

What files, the frame allocator, the limits and the packet sockets answer comes as an argument. So
do the pages at which `find_free_mmap_range` looks, which depend on the break, the ASLR offset and a
cursor; every address it returns has passed the test modelled here.

`VirtAddr::from` cuts addresses to 39 bits. The calls admit user addresses below `2^38` only, where
this changes nothing; `shmat` alone does not look at the bound, so `shmdt` may meet a record above
it. The mapping part of `shmat` is that of the source for ranges that end below `2^39`.

Beside the real state stands a ghost, which the calls write and never read: the mapping each address
belongs to.
-/

namespace HitOS

open Ipc VmaInsertArea

/-! ### Addresses -/

def virtAddr (x : Nat) : Nat := x % 2 ^ 39

/-- `USER_VA_TOP`, for Sv39. -/
def userVaTop : Nat := 2 ^ 38

def userRangeValid (start stop : Nat) : Bool := start < stop && stop ≤ userVaTop

/-- `align_up(x, PAGE_SIZE)`; in the release build the sum wraps. -/
def alignUp (x : Nat) : Nat := wrapAdd x (pageSize - 1) / pageSize * pageSize

def userStackGuardGap : Nat := pageSize * 256

namespace MemorySet

variable (s : MemorySet)

/-- `user_range_is_free`, in the release build. -/
def userRangeIsFree (start stop : Nat) : Bool :=
  start < stop && stop ≤ userVaTop && !s.vmRegions.overlapsRange start stop

/-- `growdown_guard_range_overlaps_except`, with no range excepted. -/
def growdownGuardRangeOverlaps (start stop : Nat) : Bool :=
  s.vmRegions.regions.values.any fun region =>
    region.growsdown && region.start - userStackGuardGap < stop && start < region.start

/-- `user_range_is_mmap_placeable_except`, with no range excepted. -/
def userRangeIsMmapPlaceable (start stop : Nat) : Bool :=
  s.userRangeIsFree start stop && !s.growdownGuardRangeOverlaps start stop

/-- `find_free_mmap_range`: the page of the hint, if there is one, and then `pages`, in this
order. -/
def findFreeMmapRange (hint len : Nat) (pages : List Nat) : Option Nat :=
  if len = 0 then none
  else
    (((if hint = 0 then [] else [hint / pageSize]) ++ pages).map (· * pageSize)).find? fun start =>
      start + len ≤ usizeMax && s.userRangeIsMmapPlaceable start (start + len)

def vmRegionContaining (start stop : Nat) : Option VmRegion :=
  match s.vmRegions.containingAddr start with
  | none => none
  | some region => if region.kind == .mmap && stop ≤ region.endAddr then some region else none

/-- Some page of the range is mapped without the user bit. -/
def mapsKernelPage (start stop : Nat) : Bool :=
  (vpnRange (vpnFloor start) (vpnCeil stop)).any fun vpn => (s.pageTable vpn).any fun pte => !pte.flags.u

end MemorySet

/-! ### The address space of a process -/

/-- The mapping an address belongs to: that of an attach, by its identifier, or any other. -/
inductive MapOwner where
  | attach (id : Nat)
  | other
  deriving DecidableEq, Repr

/-- The state of SysV shared memory, the memory set of a process, and the ghost. -/
structure ShmSpace where
  shm : ShmState
  mem : MemorySet
  owner : Nat → Option MapOwner

/-- The addresses of `[start, stop)` get another owner. -/
def ownRange (owner : Nat → Option MapOwner) (start stop : Nat) (o : Option MapOwner) :
    Nat → Option MapOwner :=
  fun x => if start ≤ x ∧ x < stop then o else owner x

/-- The addresses of `[old, old + len)` become those of `[new, new + newLen)`; what is new belongs
to the mapping that has grown. -/
def ownMoved (owner : Nat → Option MapOwner) (old len new newLen : Nat) : Nat → Option MapOwner :=
  fun x =>
    if new ≤ x ∧ x < new + newLen then owner (old + min (x - new) (len - 1))
    else if old ≤ x ∧ x < old + len then none
    else owner x

namespace ShmSpace

/-! ### `munmap` -/

variable (st : ShmSpace)

/-- `syscall_munmap`. `written` says whether the shared file pages of the range could be written
back. -/
def munmap (addr len : Nat) (written : Bool) : ShmSpace × Except SyscallError Nat :=
  if len = 0 then (st, .error .einval)
  else if addr % pageSize ≠ 0 then (st, .error .einval)
  else if addr + len > usizeMax then (st, .error .einval)
  else
    let stop := alignUp (addr + len)
    if !userRangeValid addr stop then (st, .error .einval)
    else if !written then (st, .error .eio)
    else
      ({ st with
          mem := st.mem.unmapUserVmaRange addr stop
          owner := ownRange st.owner addr stop none }, .ok 0)

/-! ### `mmap` -/

def mapShared : Nat := 0x01
def mapPrivate : Nat := 0x02
def mapSharedValidate : Nat := 0x03
def mapFixedFlag : Nat := 0x10
def mapAnonymous : Nat := 0x20
def mapGrowsdown : Nat := 0x0100
def mapLocked : Nat := 0x2000
def mapStack : Nat := 0x20000
def mapFixedNoreplace : Nat := 0x100000
def mapTypeMask : Nat := 0x0f

def mapKnownMask : Nat :=
  mapTypeMask ||| mapFixedFlag ||| mapAnonymous ||| mapGrowsdown ||| mapLocked ||| mapStack |||
    mapFixedNoreplace

def hasFlag (flags bit : Nat) : Bool := flags &&& bit != 0

/-- A file, as far as `mmap` looks at it. -/
inductive MmapFile where
  | regular (dev ino size : Nat)
  | shm (memfdId size : Nat) (sealedWrite : Bool) (frames : List Nat)
  | devZero
  /-- A packet socket, with the length of its ring if it has one. -/
  | packet (ringLen : Option Nat)
  | unknown
  deriving DecidableEq, Repr

structure OpenFile where
  file : MmapFile
  readable : Bool
  writable : Bool
  deriving DecidableEq, Repr

inductive MmapSource where
  | anonymous
  | regular (dev ino size : Nat)
  | shm (memfdId size : Nat) (sealedWrite : Bool) (frames : List Nat)
  | devZero
  deriving DecidableEq, Repr

namespace MmapSource

def fileValidLen (off mapLen : Nat) : MmapSource → Nat
  | anonymous | devZero => mapLen
  | regular _ _ size => min (size - off) mapLen
  | shm _ size _ _ => min (size - off) mapLen

def hasSigbusTail : MmapSource → Bool
  | regular .. | shm .. => true
  | anonymous | devZero => false

def sealedWrite : MmapSource → Bool
  | shm _ _ sealedWrite _ => sealedWrite
  | anonymous | regular .. | devZero => false

/-- The pages are filled with zeros; there is no object behind them. -/
def isZeroFill : MmapSource → Bool
  | anonymous | devZero => true
  | regular .. | shm .. => false

end MmapSource

def sharedFramesExisting (frames : List Nat) (offset len : Nat) : Option (List Nat) :=
  if len = 0 then some []
  else if offset + len > usizeMax then none
  else
    let startPage := offset / pageSize
    let endPage := satAdd (offset + len) (pageSize - 1) / pageSize
    if endPage < startPage ∨ endPage > frames.length then none
    else some ((frames.take endPage).drop startPage)

/-- `[lazy start..stop]`, if it is not empty. -/
def lazyTail (start stop : Nat) : List VmaInsertArea :=
  if start < stop then [.lazy start stop] else []

def buildVmaAreas (source : MmapSource) (isShared lockRange : Bool) (mapStart mapEnd sigbusStart off : Nat) :
    Except SyscallError (List VmaInsertArea) :=
  match isShared, source with
  | true, .regular .. => .ok (lazyTail mapStart sigbusStart ++ lazyTail sigbusStart mapEnd)
  | true, .shm _ _ _ frames =>
    match sharedFramesExisting frames off (sigbusStart - mapStart) with
    | none => .error .enomem
    | some frames =>
      if mapStart < sigbusStart then
        .ok (.sharedFrames mapStart sigbusStart frames :: lazyTail sigbusStart mapEnd)
      else if !frames.isEmpty then .error .enomem
      else .ok (lazyTail sigbusStart mapEnd)
  | true, .anonymous | true, .devZero => .ok (.lazy mapStart mapEnd :: lazyTail sigbusStart mapEnd)
  | false, .anonymous | false, .devZero => .ok [.lazy mapStart mapEnd]
  | false, .regular .. =>
    .ok ((if mapStart < sigbusStart then
        [if lockRange then .framed mapStart sigbusStart else .lazy mapStart sigbusStart] else []) ++
      lazyTail sigbusStart mapEnd)
  | false, .shm .. =>
    .ok ((if mapStart < sigbusStart then [.framed mapStart sigbusStart] else []) ++
      lazyTail sigbusStart mapEnd)

/-- The arguments of `mmap`. -/
structure MmapCall where
  addr : Nat
  len : Nat
  prot : Nat
  flags : Nat
  fd : Int
  off : Nat

/-- What `mmap` meets outside. -/
structure MmapEnv where
  /-- The open file of the descriptor. -/
  file : Option OpenFile
  /-- `exceeds_overcommit_limit`. -/
  overcommitted : Nat → Bool
  /-- The pages at which the search for a free range looks. -/
  pages : List Nat
  mlockallFuture : Bool
  /-- `allocate_shared_anon_id`. -/
  anonSharedId : Nat
  frames : List Nat
  maxMapCount : Nat
  /-- Whether the file contents could be copied in. -/
  populated : MemorySet → Bool
  /-- The error of `set_rx_ring_mmap`. -/
  ringRefused : Option SyscallError
  pid : Nat
  now : Int

namespace MmapCall

variable (call : MmapCall)

/-- `MAP_FIXED`: what is in the range is replaced. -/
def replaces : Bool := hasFlag call.flags mapFixedFlag

/-- The address is no hint. -/
def isFixed : Bool := hasFlag call.flags (mapFixedFlag ||| mapFixedNoreplace)

def isAnon : Bool := hasFlag call.flags mapAnonymous

def mapType : Nat := call.flags &&& mapTypeMask

def isShared : Bool := call.mapType == mapShared || call.mapType == mapSharedValidate

def asksWrite : Bool := hasFlag call.prot protWrite

def commitCharge (source : MmapSource) (mapLen : Nat) : Nat :=
  if source.isZeroFill && !call.isShared && call.asksWrite then mapLen else 0

/-- The address a mapping asks for, or one that is free. -/
def chooseStart (mem : MemorySet) (pages : List Nat) (mapLen : Nat) :
    Except SyscallError Nat :=
  if call.isFixed then
    if call.addr = 0 ∨ call.addr % pageSize ≠ 0 then .error .einval else .ok call.addr
  else
    match mem.findFreeMmapRange call.addr mapLen pages with
    | none => .error .enomem
    | some start => .ok start

/-- Where the mapping is to be, with the checks on the range: the same for files and packet
rings. -/
def place (mem : MemorySet) (pages : List Nat) (mapLen : Nat) : Except SyscallError Nat :=
  match call.chooseStart mem pages mapLen with
  | .error e => .error e
  | .ok start =>
    let stop := start + mapLen
    if stop > usizeMax then .error .enomem
    else if !userRangeValid start stop then .error (if call.isFixed then .einval else .enomem)
    else if !call.isFixed && !mem.userRangeIsFree start stop then .error .enomem
    else if hasFlag call.flags mapFixedNoreplace && !mem.userRangeIsFree start stop then .error .eexist
    else if call.replaces && mem.mapsKernelPage start stop then .error .enomem
    else .ok start

/-- Whether the range is to be locked. -/
def lockRange (env : MmapEnv) : Bool := env.mlockallFuture || hasFlag call.flags mapLocked

/-- The protection bits that a region records. -/
def recordedProt : Nat := call.prot &&& (protRead ||| protWrite ||| protExec)

def regionMapType (lockRange : Bool) : MmapSource → MapType
  | .anonymous | .devZero => .lazy
  | .regular .. => if call.isShared || !lockRange then .lazy else .framed
  | .shm .. => .framed

def mayWriteUpgrade (writable : Bool) : MmapSource → Bool
  | .anonymous => true
  | .devZero => !call.isShared || writable
  | .regular .. => if call.isShared then writable else true
  | .shm _ _ sealedWrite _ => if call.isShared then writable && !sealedWrite else true

/-- The region of a mapping of `source` at `start`. -/
def region (env : MmapEnv) (source : MmapSource) (writable : Bool)
    (start mapLen : Nat) : VmRegion :=
  let fileValidLen := source.fileValidLen call.off mapLen
  { kind := .mmap
    start := start
    len := mapLen
    prot := call.recordedProt
    mapType := call.regionMapType (call.lockRange env) source
    mapPerm := VmRegion.permissionFromProt call.prot
    fileValidLen := fileValidLen
    sigbusStart :=
      if source.hasSigbusTail then start + min (alignUp fileValidLen) mapLen else start + mapLen
    shared := call.isShared
    mayWriteUpgrade := call.mayWriteUpgrade writable source
    fileBacked := match source with | .regular .. => true | _ => false
    fileDev := match source with | .regular dev _ _ => dev | _ => 0
    fileIno := match source with | .regular _ ino _ => ino | _ => 0
    fileOffset := match source with | .anonymous => 0 | _ => call.off
    memfdId := match source with | .shm memfdId _ _ _ => memfdId | _ => 0
    anonSharedId := if call.isShared && source.isZeroFill then env.anonSharedId else 0
    growsdown := hasFlag call.flags mapGrowsdown }

/-- The region of the ring of a packet socket. -/
def ringRegion (env : MmapEnv) (start mapLen : Nat) : VmRegion :=
  { kind := .mmap
    start := start
    len := mapLen
    prot := call.recordedProt
    mapType := .framed
    mapPerm := VmRegion.permissionFromProt call.prot
    fileValidLen := mapLen
    sigbusStart := start + mapLen
    shared := true
    mayWriteUpgrade := true
    anonSharedId := env.anonSharedId }

def commitMmapVma (env : MmapEnv) (mem : MemorySet) (region : VmRegion)
    (areas : List VmaInsertArea) (hasFile populates : Bool) : Option (MemorySet × Bool) :=
  let postInsert := if populates then env.populated else fun _ => true
  if call.replaces then
    mem.tryReplaceUserVmaWith region areas (call.lockRange env) hasFile env.frames env.maxMapCount postInsert
  else
    mem.tryInsertUserVmaWith region areas (call.lockRange env) hasFile env.frames env.maxMapCount postInsert

end MmapCall

/-- `mmap_packet_socket_ring`. What is attached in the range keeps its records, also if the ring
replaces it. -/
def mmapPacketSocketRing (call : MmapCall) (env : MmapEnv) (ringLen : Option Nat) :
    Option (ShmSpace × Except SyscallError Nat) :=
  let mapLen := alignUp call.len
  if call.off ≠ 0 ∨ !call.asksWrite then some (st, .error .einval)
  else if !call.isShared then some (st, .error .einval)
  else if ringLen ≠ some mapLen then some (st, .error .einval)
  else
    match call.place st.mem env.pages mapLen with
    | .error e => some (st, .error e)
    | .ok start =>
      let stop := start + mapLen
      match call.commitMmapVma env st.mem (call.ringRegion env start mapLen) [.framed start stop] false
          false with
      | none => none
      | some (mem, false) => some ({ st with mem := mem }, .error .enomem)
      | some (mem, true) =>
        match env.ringRefused with
        | some e =>
          some ({ st with
            mem := mem.unmapUserVmaRange start stop
            owner := ownRange st.owner start stop none }, .error e)
        | none =>
          some ({ st with
            mem := mem
            owner := ownRange st.owner start stop (some .other) }, .ok start)

/-- `mmap` of anything but a packet ring, once the source is known. -/
def mmapSource (mmId : Nat) (call : MmapCall) (env : MmapEnv) (source : MmapSource)
    (writable : Bool) : Option (ShmSpace × Except SyscallError Nat) :=
  let mapLen := alignUp call.len
  if call.isShared && call.asksWrite && source.sealedWrite then some (st, .error .eperm)
  else if env.overcommitted (call.commitCharge source mapLen) then some (st, .error .enomem)
  else
    match call.place st.mem env.pages mapLen with
    | .error e => some (st, .error e)
    | .ok start =>
      let stop := start + mapLen
      let region := call.region env source writable start mapLen
      match buildVmaAreas source call.isShared (call.lockRange env) start stop region.sigbusStart
          call.off with
      | .error e => some (st, .error e)
      | .ok areas =>
        let populates := region.fileBacked && !call.isShared && call.lockRange env
        if call.replaces && (detachAttachesOverlapping (st.shm.records mmId) start mapLen).isNone then
          some (st, .error .enomem)
        else
          match call.commitMmapVma env st.mem region areas source.hasSigbusTail populates with
          | none => none
          | some (mem, false) => some ({ st with mem := mem }, .error .enomem)
          | some (mem, true) =>
            some ({
              shm := if call.replaces then mapFixed st.shm mmId env.pid start mapLen true env.now
                else st.shm
              mem := mem
              owner := ownRange st.owner start stop (some .other) }, .ok start)

def mmap (mmId : Nat) (call : MmapCall) (env : MmapEnv) :
    Option (ShmSpace × Except SyscallError Nat) :=
  if call.mapType ≠ mapShared ∧ call.mapType ≠ mapPrivate ∧ call.mapType ≠ mapSharedValidate then
    some (st, .error .einval)
  else if call.mapType = mapSharedValidate ∧ call.flags &&& mapKnownMask ≠ call.flags then
    some (st, .error .eopnotsupp)
  else if !call.isAnon ∧ call.fd < 0 then some (st, .error .ebadf)
  else if call.len = 0 then some (st, .error .einval)
  else if call.fd ≥ 0 ∧ call.off % pageSize ≠ 0 then some (st, .error .einval)
  else if call.isAnon then st.mmapSource mmId call env .anonymous false
  else
    match env.file with
    | none => some (st, .error .ebadf)
    | some opened =>
      if !opened.readable then some (st, .error .eacces)
      else if call.isShared && call.asksWrite && !opened.writable then some (st, .error .eacces)
      else
        match opened.file with
        | .packet ringLen => st.mmapPacketSocketRing call env ringLen
        | .regular dev ino size => st.mmapSource mmId call env (.regular dev ino size) opened.writable
        | .shm memfdId size sealedWrite frames =>
          st.mmapSource mmId call env (.shm memfdId size sealedWrite frames) opened.writable
        | .devZero => st.mmapSource mmId call env .devZero opened.writable
        | .unknown => some (st, .error .enodev)

/-! ### `mremap` -/

def segmentSharedFramesExisting (seg : ShmSegment) (offset len : Nat) : Option (List Nat) :=
  if offset + len > usizeMax then none
  else if offset + len > shmAlignUp seg.size then none
  else
    let startPage := offset / pageSize
    let endPage := satAdd (offset + len) (pageSize - 1) / pageSize
    if endPage < startPage ∨ endPage > seg.frames.length then none
    else some ((seg.frames.take endPage).drop startPage)

/-- The arguments of `mremap`. -/
structure MremapCall where
  oldAddr : Nat
  oldSize : Nat
  newSize : Nat
  mayMove : Bool
  fixed : Bool
  /-- There are other flags. -/
  unsupported : Bool
  newAddr : Nat

/-- What `mremap` meets outside. -/
structure MremapEnv where
  /-- `packet_ring_mmap_overlaps_range`. -/
  ringOverlaps : Bool
  pages : List Nat
  frames : List Nat
  /-- The size of the memfd or file behind the mapping, if it can be found, and the frames of the
  memfd. -/
  backing : Option (Nat × List Nat)
  /-- Whether the file contents could be copied in. -/
  populated : MemorySet → Bool
  pid : Nat
  now : Int

/-- How a mapping grows: the areas of the new part, the valid length if it has one, and whether file
contents are copied in. -/
structure GrowPlan where
  areas : List VmaInsertArea
  fileValidLen : Option Nat
  populates : Bool

/-- `final_file_valid_len`, for an object of `size` bytes mapped from `fileOffset` on. -/
def finalFileValidLen (src : VmRegion) (oldAddr oldLen newLen size fileOffset : Nat) : Nat :=
  min (max (min (src.fileValidEnd - oldAddr) oldLen) (min (size - fileOffset) newLen)) newLen

def finalSigbusStart (target newLen valid : Nat) : Nat := satAdd target (min (alignUp valid) newLen)

/-- The new part of a mapping with a SIGBUS tail: `front` makes the area below it. -/
def growAreas (growStart sigbusStart targetNewEnd : Nat)
    (front : Nat → Nat → Option VmaInsertArea) : Option (List VmaInsertArea) :=
  let tail := if sigbusStart < targetNewEnd then [lazy (max sigbusStart growStart) targetNewEnd] else []
  if growStart < sigbusStart then
    match front growStart (min sigbusStart targetNewEnd) with
    | none => none
    | some area => some (area :: tail)
  else some tail

/-- The new part of a mapping of shared frames: `frames` yields those of a part of the object. -/
def growShared (src : VmRegion) (oldAddr oldLen target newLen size fileOffset : Nat)
    (frames : Nat → Nat → Option (List Nat)) : Option GrowPlan :=
  let valid := finalFileValidLen src oldAddr oldLen newLen size fileOffset
  if fileOffset + oldLen > usizeMax then none
  else
    match growAreas (target + oldLen) (finalSigbusStart target newLen valid) (target + newLen)
        (fun a b => (frames (fileOffset + oldLen) (b - a)).map (sharedFrames a b)) with
    | none => none
    | some areas => some ⟨areas, some valid, false⟩

/-- The new part of a file mapping. -/
def growFile (src : VmRegion) (oldAddr oldLen target newLen size fileOffset : Nat) : Option GrowPlan :=
  let valid := finalFileValidLen src oldAddr oldLen newLen size fileOffset
  let sigbusStart := finalSigbusStart target newLen valid
  let mapped := min (newLen - oldLen) (sigbusStart - (target + oldLen))
  match growAreas (target + oldLen) sigbusStart (target + newLen)
      (fun a b => some (if src.shared then .lazy a b else .framed a b)) with
  | none => none
  | some areas =>
    if fileOffset + oldLen + mapped > usizeMax then none else some ⟨areas, some valid, !src.shared⟩

/-- How `syscall_mremap` lets a mapping grow; every failure is `ENOMEM`. `ns` is the namespace of
the attach, `fileOffset` the offset of the range in the object behind the mapping. -/
def growPlan (managers : ShmManagers) (ns : Nat) (src : VmRegion)
    (oldAddr oldLen target newLen fileOffset : Nat) (env : MremapEnv) : Option GrowPlan :=
  if src.sysvShmid ≠ 0 then
    match managers.segment? ⟨ns, src.sysvShmid⟩ with
    | none => none
    | some seg =>
      growShared src oldAddr oldLen target newLen seg.size fileOffset (segmentSharedFramesExisting seg)
  else if src.shared && src.memfdId != 0 then
    match env.backing with
    | none => none
    | some (size, frames) =>
      growShared src oldAddr oldLen target newLen size fileOffset (sharedFramesExisting frames)
  else if src.fileBacked then
    match env.backing with
    | none => none
    | some (size, _) => growFile src oldAddr oldLen target newLen size fileOffset
  else some ⟨[.lazy (target + oldLen) (target + newLen)], none, false⟩

/-- The records after a move of `[oldAddr, oldAddr + oldLen)`, if its region belongs to a
segment. -/
def movedAttaches (attaches : List ShmAttach) (shmid oldAddr oldLen newAddr newLen : Nat) :
    Except SyscallError (List ShmAttach) :=
  if shmid = 0 then .ok attaches
  else
    match findAttachContaining attaches shmid oldAddr oldLen with
    | none => .error .einval
    | some idx =>
      match splitMremapAttach attaches idx oldAddr oldLen newAddr newLen with
      | none => .error .enomem
      | some attaches => .ok attaches

/-- `syscall_mremap` with `MREMAP_FIXED`, for a range of `len` bytes in the region `src`. -/
def mremapFixed (st : ShmSpace) (mmId : Nat) (attaches : List ShmAttach) (src : VmRegion)
    (oldAddr len newAddr newLen : Nat) (env : MremapEnv) : Option (ShmSpace × Except SyscallError Nat) :=
  if newAddr % pageSize ≠ 0 then some (st, .error .einval)
  else if newAddr + newLen > usizeMax then some (st, .error .einval)
  else if !userRangeValid newAddr (newAddr + newLen) then some (st, .error .einval)
  else if newLen ≠ len then some (st, .error .einval)
  else if oldAddr < newAddr + newLen ∧ newAddr < oldAddr + len then some (st, .error .einval)
  else if st.mem.mapsKernelPage newAddr (newAddr + newLen) then some (st, .error .enomem)
  else
    match detachAttachesOverlapping attaches newAddr newLen with
    | none => some (st, .error .enomem)
    | some (left, _) =>
      match movedAttaches left src.sysvShmid oldAddr len newAddr newLen with
      | .error e => some (st, .error e)
      | .ok _ =>
        match st.mem.moveUserVmaRangeReplacing oldAddr len newAddr with
        | none => none
        | some (mem, false) => some ({ st with mem := mem }, .error .enomem)
        | some (mem, true) =>
          some ({
            shm := Ipc.mremapFixed st.shm mmId env.pid src.sysvShmid oldAddr len newAddr true env.now
            mem := mem
            owner := ownMoved (ownRange st.owner newAddr (newAddr + newLen) none) oldAddr len newAddr len },
            .ok newAddr)

/-- `syscall_mremap` where the range does not grow. -/
def mremapShrink (mmId : Nat) (attaches : List ShmAttach) (src : VmRegion)
    (oldAddr oldLen newLen : Nat) : ShmSpace × Except SyscallError Nat :=
  match movedAttaches attaches src.sysvShmid oldAddr oldLen oldAddr newLen with
  | .error e => (st, .error e)
  | .ok _ =>
    ({
      shm := mremapResize st.shm mmId src.sysvShmid oldAddr oldLen oldAddr newLen true
      mem := if newLen < oldLen then st.mem.unmapUserVmaRange (oldAddr + newLen) (oldAddr + oldLen)
        else st.mem
      owner := ownRange st.owner (oldAddr + newLen) (oldAddr + oldLen) none }, .ok oldAddr)

/-- Where a mapping can grow to `newLen` bytes: where it is, or in a free range. -/
def growTarget (mem : MemorySet) (oldAddr oldLen newLen : Nat) (mayMove : Bool) (pages : List Nat) :
    Option Nat :=
  if oldAddr + newLen ≤ usizeMax && userRangeValid oldAddr (oldAddr + newLen) &&
      mem.userRangeIsFree (oldAddr + oldLen) (oldAddr + newLen) then some oldAddr
  else if !mayMove then none
  else mem.findFreeMmapRange 0 newLen pages

/-- `syscall_mremap` where the range grows. -/
def mremapGrow (mmId ns : Nat) (attaches : List ShmAttach) (src : VmRegion)
    (oldAddr oldLen newLen : Nat) (mayMove : Bool) (env : MremapEnv) :
    Option (ShmSpace × Except SyscallError Nat) :=
  match growTarget st.mem oldAddr oldLen newLen mayMove env.pages with
  | none => some (st, .error .enomem)
  | some target =>
    let fileOffset := src.fileOffset + (oldAddr - src.start)
    if fileOffset > usizeMax then some (st, .error .enomem)
    else
      match movedAttaches attaches src.sysvShmid oldAddr oldLen target newLen with
      | .error e => some (st, .error e)
      | .ok _ =>
        match growPlan st.shm.managers ns src oldAddr oldLen target newLen fileOffset env with
        | none => some (st, .error .enomem)
        | some plan =>
          match st.mem.tryGrowUserVmaRangeWithLayout oldAddr oldLen target newLen plan.areas
              plan.fileValidLen env.frames (if plan.populates then env.populated else fun _ => true) with
          | none => none
          | some (mem, false) => some ({ st with mem := mem }, .error .enomem)
          | some (mem, true) =>
            some ({
              shm := mremapResize st.shm mmId src.sysvShmid oldAddr oldLen target newLen true
              mem := mem
              owner := ownMoved st.owner oldAddr oldLen target newLen }, .ok target)

/-- `syscall_mremap` once the region `src` of the range is found. -/
def mremapRegion (mmId : Nat) (src : VmRegion) (oldLen newLen : Nat) (call : MremapCall)
    (env : MremapEnv) : Option (ShmSpace × Except SyscallError Nat) :=
  let attaches := st.shm.records mmId
  let idx := findAttachContaining attaches src.sysvShmid call.oldAddr oldLen
  if !st.mem.vmRegions.coversRange call.oldAddr (call.oldAddr + oldLen) then some (st, .error .efault)
  else if src.sysvShmid ≠ 0 ∧ idx = none then some (st, .error .einval)
  else if env.ringOverlaps then some (st, .error .einval)
  else if call.fixed then
    st.mremapFixed mmId attaches src call.oldAddr oldLen call.newAddr newLen env
  else if newLen ≤ oldLen then some (st.mremapShrink mmId attaches src call.oldAddr oldLen newLen)
  else
    let ns := ((idx.bind fun i => attaches[i]?).map ShmAttach.ipcNsId).getD 0
    st.mremapGrow mmId ns attaches src call.oldAddr oldLen newLen call.mayMove env

def mremap (mmId : Nat) (call : MremapCall) (env : MremapEnv) :
    Option (ShmSpace × Except SyscallError Nat) :=
  let oldEnd := call.oldAddr + alignUp call.oldSize
  if call.unsupported then some (st, .error .einval)
  else if call.fixed && !call.mayMove then some (st, .error .einval)
  else if call.oldSize = 0 ∨ call.newSize = 0 ∨ call.oldAddr % pageSize ≠ 0 then
    some (st, .error .einval)
  else if oldEnd > usizeMax then some (st, .error .efault)
  else if !userRangeValid call.oldAddr oldEnd then some (st, .error .efault)
  else
    match st.mem.vmRegionContaining call.oldAddr oldEnd with
    | none => some (st, .error .efault)
    | some src => st.mremapRegion mmId src (alignUp call.oldSize) (alignUp call.newSize) call env

/-! ### `shmat` and `shmdt` -/

/-- What `shmat` meets outside. -/
structure AttachEnv where
  pages : List Nat
  maxMapCount : Nat
  now : Int

/-- The checks of `shmat` on the pages of an address it is given. -/
def attachRefused (mem : MemorySet) (start stop : Nat) (remap : Bool) : Option SyscallError :=
  match (vpnRange (vpnFloor start) (vpnCeil stop)).findSome? fun vpn =>
      match mem.pageTable vpn with
      | none => none
      | some pte =>
        if !pte.flags.u then some SyscallError.enomem
        else if !remap then some .einval
        else none with
  | some e => some e
  | none => if mem.concreteRangeOverlaps start stop && !remap then some .einval else none

def attachRegion (seg : ShmSegment) (shmid start : Nat) (rdonly : Bool) : VmRegion :=
  let mapLen := shmAlignUp seg.size
  { kind := .mmap
    start := start
    len := mapLen
    prot := if rdonly then protRead else protRead ||| protWrite
    mapType := .framed
    mapPerm := { u := true, r := true, w := !rdonly }
    fileValidLen := min seg.size mapLen
    sigbusStart := start + mapLen
    shared := true
    mayWriteUpgrade := !rdonly
    sysvShmid := shmid }

def shmat (st : ShmSpace) (mmId ns : Nat) (cred : Cred) (shmid shmaddr : Nat) (flags : ShmatFlags)
    (env : AttachEnv) : Option (ShmSpace × Except SyscallError Nat) :=
  match st.shm.managers.segment? ⟨ns, shmid⟩ with
  | none => some (st, .error .einval)
  | some seg =>
    let mapLen := shmAlignUp seg.size
    let hint := shmaddr / pageSize * pageSize
    -- what would be recorded, if the memory can be mapped
    match Ipc.shmat st.shm mmId ns cred shmid shmaddr flags
        { freeRange := st.mem.findFreeMmapRange 0 mapLen env.pages
          refused := attachRefused st.mem hint (hint + mapLen) flags.remap
          inserted := true
          now := env.now } with
    | (_, .error e) => some (st, .error e)
    | (shm, .ok start) =>
      let region := attachRegion seg shmid start flags.rdonly
      let areas := [sharedFrames start (start + mapLen) seg.frames]
      let inserted := if flags.remap then
          st.mem.tryReplaceUserVmaWith region areas false false [] env.maxMapCount fun _ => true
        else st.mem.tryInsertUserVmaWith region areas false false [] env.maxMapCount fun _ => true
      match inserted with
      | none => none
      | some (mem, false) => some ({ st with mem := mem }, .error .enomem)
      | some (mem, true) =>
        some ({
          shm := shm
          mem := mem
          owner := ownRange st.owner start (start + mapLen) (some (.attach (max st.shm.nextAttachId 1))) },
          .ok start)

def shmdt (st : ShmSpace) (mmId pid shmaddr : Nat) (now : Int) : ShmSpace × Except SyscallError Nat :=
  match Ipc.shmdt st.shm mmId pid shmaddr now with
  | (_, .error e) => (st, .error e)
  | (shm, .ok res) =>
    match (st.shm.mms.get? mmId).bind fun mm => removeSysvShmAttach mm.attaches shmaddr with
    | none => (st, .error .einval)
    | some (a, _) =>
      ({
        shm := shm
        mem := st.mem.unmapUserVmaRange (virtAddr a.addr) (virtAddr (a.addr + a.len))
        owner := ownRange st.owner (virtAddr a.addr) (virtAddr (a.addr + a.len)) none }, .ok res)

end ShmSpace

end HitOS
