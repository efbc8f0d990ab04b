import HitOS.Lib.Usize
import HitOS.Mm.Flags

/-!
# Virtual memory regions

The `VmRegion` record of `vma.rs`: one contiguous run of user addresses with one mapping policy, and
the operations that cut, join, resize and move such a run.

A region says something about each of its addresses: the policy, the file offset of the byte,
whether the byte is backed by file content, and whether it lies in the SIGBUS tail. `attrsAt` reads
these off for one address, and the results of this module say which of the operations keep them:

* `attrsAt_slice` — cutting out a sub-range keeps every attribute of every address;
* `promised_attrsAt_merged` — joining two adjacent regions keeps the *promised* attributes, which
  leave out the file offset of memory without a backing object and the SIGBUS status of shared
  anonymous memory.
-/

namespace HitOS

/-- Where a region comes from. -/
inductive VmRegionKind where
  | mmap
  | heap
  | elf
  | stack
  deriving DecidableEq, Repr

/-- One virtual memory region. -/
structure VmRegion where
  kind : VmRegionKind := .mmap
  start : Nat
  len : Nat
  /-- The `prot` argument as the user passed it. -/
  prot : Nat := 0
  mapType : MapType := .lazy
  mapPerm : MapPermission := { u := true }
  /-- How many bytes from `start` on are real file content. -/
  fileValidLen : Nat := len
  /-- Where the SIGBUS tail begins; at or above the end when there is none. -/
  sigbusStart : Nat := start + len
  shared : Bool := false
  /-- Whether `mprotect` may add write permission. -/
  mayWriteUpgrade : Bool := true
  fileBacked : Bool := false
  fileDev : Nat := 0
  fileIno : Nat := 0
  fileOffset : Nat := 0
  backingId : Nat := 0
  memfdId : Nat := 0
  anonSharedId : Nat := 0
  sysvShmid : Nat := 0
  growsdown : Bool := false
  forkInheritedAnon : Bool := false
  deriving DecidableEq, Repr

/-- The page size of the kernel. -/
def pageSize : Nat := 4096

def alignUpToPage (len : Nat) : Nat := satAdd len (pageSize - 1) / pageSize * pageSize

def protRead : Nat := 1

def protWrite : Nat := 2

def protExec : Nat := 4

namespace VmRegion

/-! ### The operations of `vma.rs` -/

/-- `permission_from_prot`: the user bit is always set. -/
def permissionFromProt (prot : Nat) : MapPermission :=
  { u := true
    r := prot &&& protRead != 0
    w := prot &&& protWrite != 0
    x := prot &&& protExec != 0 }

/-- A private anonymous region, as `mmap` describes it. -/
def anonymous (start len prot : Nat) : VmRegion :=
  { start := start, len := len, prot := prot, mapPerm := permissionFromProt prot }

variable (r : VmRegion)

def endAddr : Nat := satAdd r.start r.len

def overlaps (start stop : Nat) : Bool := stop > r.start && start < r.endAddr

/-- Some backing object identifies the content of the region. -/
def hasBackingIdentity : Bool :=
  r.fileBacked || r.backingId != 0 || r.memfdId != 0 || r.anonSharedId != 0 || r.sysvShmid != 0

def isHeap : Bool := r.kind == .heap

/-- Backed by a file, a memfd or a System V segment. -/
def isFileLike : Bool := r.fileBacked || r.memfdId != 0 || r.sysvShmid != 0

def isPrivateAnonymous : Bool := !r.shared && !r.isFileLike

def setProt (prot : Nat) : VmRegion :=
  { r with prot := prot, mapPerm := permissionFromProt prot }

/-- `set_len`: resize at the upper end, with the valid length and the SIGBUS tail following. -/
def setLen (len : Nat) : VmRegion :=
  let wasFullValid := r.fileValidLen == r.len
  { r with
    len := len
    fileValidLen := if !r.isFileLike || wasFullValid then len else min r.fileValidLen len
    sigbusStart :=
      if !r.isFileLike then satAdd r.start len
      else if wasFullValid then satAdd r.start len
      else clamp r.sigbusStart r.start (satAdd r.start len) }

def setLenAndFileValid (len fileValidLen : Nat) : VmRegion :=
  let valid := min fileValidLen len
  { r.setLen len with
    fileValidLen := if r.isFileLike then valid else len
    sigbusStart :=
      if r.isFileLike then satAdd r.start (min (alignUpToPage valid) len)
      else satAdd r.start len }

/-- `expand_down_to`: a growing stack moves its start down. -/
def expandDownTo (newStart : Nat) : VmRegion :=
  if newStart ≥ r.start then r
  else
    let newLen := satAdd r.len (r.start - newStart)
    let newEnd := satAdd newStart newLen
    { r with
      start := newStart
      len := newLen
      fileValidLen :=
        if !r.isFileLike then
          if r.fileValidLen == r.len then newLen else r.fileValidLen
        else min r.fileValidLen newLen
      sigbusStart :=
        if !r.isFileLike then newEnd else clamp r.sigbusStart newStart newEnd }

/-- `can_merge_with`: `next` begins where `self` ends and every attribute that the code compares is
the same. The sum of offset and length wraps, as plain addition does in the release build. -/
def canMergeWith (self next : VmRegion) : Bool :=
  let baseCompatible :=
    self.endAddr == next.start && self.kind == next.kind && self.prot == next.prot
      && self.mapType == next.mapType
      && self.mapPerm == next.mapPerm
      && self.shared == next.shared
      && self.mayWriteUpgrade == next.mayWriteUpgrade
      && self.fileBacked == next.fileBacked
      && self.fileDev == next.fileDev
      && self.fileIno == next.fileIno
      && self.backingId == next.backingId
      && self.memfdId == next.memfdId
      && self.anonSharedId == next.anonSharedId
      && self.sysvShmid == next.sysvShmid
      && self.growsdown == next.growsdown
      && self.forkInheritedAnon == next.forkInheritedAnon
  if !baseCompatible then false
  else if self.shared && !self.hasBackingIdentity then false
  else if self.anonSharedId != 0 then
    wrapAdd self.fileOffset self.len == next.fileOffset && self.fileValidLen == self.len
      && next.fileValidLen == next.len
      && self.sigbusStart ≥ self.endAddr
      && next.sigbusStart ≥ next.endAddr
  else if self.hasBackingIdentity then
    wrapAdd self.fileOffset self.len == next.fileOffset && self.fileValidLen == self.len
      && self.sigbusStart == next.sigbusStart
  else
    -- anonymous regions have no meaningful file offset or SIGBUS tail: policy alone decides
    self.fileValidLen == self.len && next.fileValidLen == next.len && self.sigbusStart ≥ self.endAddr
      && next.sigbusStart ≥ next.endAddr

/-- The record `merge_with` leaves in `self` once the two regions are known to be mergeable. Without
a backing object the valid length and the SIGBUS start are set afresh. -/
def merged (self next : VmRegion) : VmRegion :=
  let len := wrapAdd self.len next.len
  { self with
    len := len
    fileValidLen :=
      if !self.hasBackingIdentity then len
      else min (satAdd self.fileValidLen next.fileValidLen) (satAdd self.len next.len)
    sigbusStart := if !self.hasBackingIdentity then satAdd self.start len else self.sigbusStart }

/-- `merge_with`: `none` where the code returns `false` and leaves `self` alone. -/
def mergeWith (self next : VmRegion) : Option VmRegion :=
  if self.canMergeWith next then some (self.merged next) else none

/-- `slice`: the sub-run of `len` bytes from `start` on. -/
def slice (start len : Nat) : VmRegion :=
  let stop := satAdd start len
  let fileDelta := start - r.start
  let validEnd := satAdd r.start (min r.fileValidLen r.len)
  { r with
    start := start
    len := len
    fileOffset := satAdd r.fileOffset fileDelta
    fileValidLen := min (validEnd - start) len
    sigbusStart := clamp r.sigbusStart start stop }

def moveTo (newStart : Nat) : VmRegion :=
  let sigbusDelta := min (r.sigbusStart - r.start) r.len
  { r with start := newStart, sigbusStart := satAdd newStart sigbusDelta }

def fileValidEnd : Nat := satAdd r.start (min r.fileValidLen r.len)

/-! ### What a region says about one address -/

end VmRegion

/-- The attributes every address of a region has in common. -/
structure VmPolicy where
  kind : VmRegionKind
  prot : Nat
  mapType : MapType
  mapPerm : MapPermission
  shared : Bool
  mayWriteUpgrade : Bool
  fileBacked : Bool
  fileDev : Nat
  fileIno : Nat
  backingId : Nat
  memfdId : Nat
  anonSharedId : Nat
  sysvShmid : Nat
  growsdown : Bool
  forkInheritedAnon : Bool
  deriving DecidableEq, Repr

/-- As `VmRegion.hasBackingIdentity`, which reads nothing but the policy. -/
def VmPolicy.hasBackingIdentity (p : VmPolicy) : Bool :=
  p.fileBacked || p.backingId != 0 || p.memfdId != 0 || p.anonSharedId != 0 || p.sysvShmid != 0

/-- Everything a region says about one of its addresses. -/
structure ByteAttrs where
  policy : VmPolicy
  /-- Offset of the byte in the backing object. -/
  fileOffset : Nat
  /-- The byte is file content, not padding after the end of the file. -/
  fileValid : Bool
  /-- An access to the byte raises SIGBUS. -/
  sigbus : Bool
  deriving DecidableEq, Repr

/-- The attributes a merge of regions promises to keep. Memory without a backing object has no
meaningful file offset, so none is promised for it; nor is the SIGBUS status of shared anonymous
memory. -/
def ByteAttrs.promised (a : ByteAttrs) : ByteAttrs :=
  { a with
    fileOffset := if a.policy.hasBackingIdentity then a.fileOffset else 0
    sigbus := a.sigbus && a.policy.anonSharedId == 0 }

/-- The attributes with protection and page permission replaced. -/
def ByteAttrs.withProt (prot : Nat) (a : ByteAttrs) : ByteAttrs :=
  { a with policy := { a.policy with prot := prot, mapPerm := VmRegion.permissionFromProt prot } }

/-- Agreement on the promised attributes, spelled out. -/
theorem ByteAttrs.promised_eq_iff {a b : ByteAttrs} : a.promised = b.promised ↔
      a.policy = b.policy ∧ a.fileValid = b.fileValid ∧
        (a.policy.hasBackingIdentity = true → a.fileOffset = b.fileOffset) ∧
        (a.policy.anonSharedId = 0 → a.sigbus = b.sigbus) := by
  obtain ⟨pa, _, _, _⟩ := a
  obtain ⟨_, _, _, _⟩ := b
  simp only [promised, mk.injEq]
  constructor
  · rintro ⟨rfl, ho, hv, hs⟩
    refine ⟨rfl, hv, fun hid => ?_, fun hz => ?_⟩
    · rwa [if_pos hid, if_pos hid] at ho
    · simpa [hz] using hs
  rintro ⟨rfl, hv, ho, hs⟩
  refine ⟨rfl, ?_, hv, ?_⟩
  · split
    · next hid => exact ho hid
    · rfl
  · by_cases hz : pa.anonSharedId = 0
    · rw [hs hz]
    · rw [beq_false_of_ne hz, Bool.and_false, Bool.and_false]

namespace VmRegion

variable {r q : VmRegion} {a b x : Nat}

/-- The part of a region that does not depend on the address. -/
def policy (r : VmRegion) : VmPolicy :=
  { kind := r.kind, prot := r.prot, mapType := r.mapType, mapPerm := r.mapPerm
    shared := r.shared, mayWriteUpgrade := r.mayWriteUpgrade, fileBacked := r.fileBacked
    fileDev := r.fileDev, fileIno := r.fileIno, backingId := r.backingId, memfdId := r.memfdId
    anonSharedId := r.anonSharedId, sysvShmid := r.sysvShmid, growsdown := r.growsdown
    forkInheritedAnon := r.forkInheritedAnon }

/-- The attributes of the address `x` of `r`. -/
def attrsAt (r : VmRegion) (x : Nat) : ByteAttrs :=
  { policy := r.policy
    fileOffset := satAdd r.fileOffset (x - r.start)
    fileValid := x < r.fileValidEnd
    sigbus := r.sigbusStart ≤ x }

/-- The addresses of a region: those from `start` up to but not including `endAddr`. -/
def Contains (r : VmRegion) (x : Nat) : Prop := r.start ≤ x ∧ x < r.endAddr

instance (r : VmRegion) (x : Nat) : Decidable (r.Contains x) := inferInstanceAs (Decidable (_ ∧ _))

/-- The addresses of the region fit in a word. -/
def Fits (r : VmRegion) : Prop := r.start + r.len ≤ usizeMax

/-- The offsets a backed region covers in its backing object fit in a word. -/
def FileFits (r : VmRegion) : Prop := r.hasBackingIdentity → r.fileOffset + r.len ≤ usizeMax

instance (r : VmRegion) : Decidable r.Fits := inferInstanceAs (Decidable (_ ≤ _))

instance (r : VmRegion) : Decidable r.FileFits := inferInstanceAs (Decidable (_ → _))

theorem Fits.endAddr_eq (h : r.Fits) : r.endAddr = r.start + r.len := satAdd_of_le h

@[simp] theorem policy_hasBackingIdentity :
    r.policy.hasBackingIdentity = r.hasBackingIdentity := rfl

/-! ### Cutting -/

@[simp] theorem slice_start (a l : Nat) : (r.slice a l).start = a := rfl

@[simp] theorem slice_len (a l : Nat) : (r.slice a l).len = l := rfl

/-- **Cutting keeps every attribute.** A slice says the same as the region it is cut from about
each of its addresses. -/
theorem attrsAt_slice (ha : r.start ≤ a) (hb : b ≤ r.endAddr)
    (hax : a ≤ x) (hxb : x < b) : (r.slice a (b - a)).attrsAt x = r.attrsAt x := by
  have hmax : b ≤ usizeMax := hb.trans (satAdd_le_max ..)
  have hstop : satAdd a (b - a) = b := by rw [satAdd_of_le (by omega)]; omega
  have hoff : satAdd (satAdd r.fileOffset (a - r.start)) (x - a) = satAdd r.fileOffset (x - r.start) := by
    rw [satAdd_satAdd]
    congr 1
    omega
  have hvalid : x < (r.slice a (b - a)).fileValidEnd ↔ x < r.fileValidEnd := by
    unfold fileValidEnd slice satAdd
    dsimp only
    omega
  have hsig : (r.slice a (b - a)).sigbusStart ≤ x ↔ r.sigbusStart ≤ x := by
    change clamp r.sigbusStart a (satAdd a (b - a)) ≤ x ↔ _
    rw [hstop]
    unfold clamp
    split
    · omega
    · split <;> omega
  unfold attrsAt
  simp only [hvalid, hsig, ByteAttrs.mk.injEq, and_true]
  exact ⟨rfl, hoff⟩

/-! ### Joining -/

/-- **What mergeability means.** The two regions are adjacent, have one policy, the lower one is
valid throughout, and the rest depends on what backs them. -/
theorem canMergeWith_iff : r.canMergeWith q = true ↔
      r.endAddr = q.start ∧ r.policy = q.policy ∧ r.fileValidLen = r.len ∧
        (r.shared = true → r.hasBackingIdentity = true) ∧
        (r.hasBackingIdentity = true → wrapAdd r.fileOffset r.len = q.fileOffset) ∧
        (r.hasBackingIdentity = true ∧ r.anonSharedId = 0 → r.sigbusStart = q.sigbusStart) ∧
        (r.hasBackingIdentity = false ∨ r.anonSharedId ≠ 0 →
          q.fileValidLen = q.len ∧ r.endAddr ≤ r.sigbusStart ∧ q.endAddr ≤ q.sigbusStart) := by
  have hid (h : r.anonSharedId ≠ 0) : r.hasBackingIdentity = true := by simp [hasBackingIdentity, h]
  unfold canMergeWith policy
  by_cases hs : r.shared <;> by_cases hb : r.hasBackingIdentity <;>
    by_cases hz : r.anonSharedId = 0 <;> simp_all <;> tauto

theorem endAddr_eq_of_canMergeWith (h : r.canMergeWith q = true) :
    r.endAddr = q.start := (canMergeWith_iff.mp h).1

theorem policy_eq_of_canMergeWith (h : r.canMergeWith q = true) :
    r.policy = q.policy := (canMergeWith_iff.mp h).2.1

@[simp] theorem merged_start (r q : VmRegion) : (r.merged q).start = r.start := rfl

@[simp] theorem merged_fileOffset (r q : VmRegion) : (r.merged q).fileOffset = r.fileOffset := rfl

section

variable (hr : r.Fits)

include hr

section

variable (hq : q.Fits) (h : r.endAddr = q.start)

include hq h

theorem merged_len_eq : (r.merged q).len = r.len + q.len := by
  apply wrapAdd_of_le
  rw [hr.endAddr_eq] at h
  unfold Fits at hq
  omega

theorem merged_fits : (r.merged q).Fits := by
  unfold Fits
  rw [merged_start, merged_len_eq hr hq h]
  rw [hr.endAddr_eq] at h
  unfold Fits at hq
  omega

theorem merged_endAddr : (r.merged q).endAddr = q.endAddr := by
  rw [(merged_fits hr hq h).endAddr_eq, merged_start, merged_len_eq hr hq h, hq.endAddr_eq]
  rw [hr.endAddr_eq] at h
  omega

theorem merged_fileValidLen_le : (r.merged q).fileValidLen ≤ (r.merged q).len := by
  have hlen := merged_len_eq hr hq h
  change (if !r.hasBackingIdentity then (r.merged q).len else _) ≤ _
  split
  · exact le_rfl
  · have := satAdd_le_add r.len q.len
    omega

end

theorem merged_fileFits (hq : q.Fits) (hrf : r.FileFits)
    (hqf : q.FileFits) (h : r.canMergeWith q = true) : (r.merged q).FileFits := by
  intro hid
  have hoff := (canMergeWith_iff.mp h).2.2.2.2.1 hid
  rw [wrapAdd_of_le (hrf hid)] at hoff
  rw [merged_fileOffset, merged_len_eq hr hq (endAddr_eq_of_canMergeWith h)]
  have hqid : q.hasBackingIdentity = true := by
    rwa [← policy_hasBackingIdentity, ← policy_eq_of_canMergeWith h]
  have := hqf hqid
  omega

/-- What can be merged above a merged region can be merged above its upper part. -/
theorem canMergeWith_of_merged {p n : VmRegion} (hp : p.Fits) (hval : r.fileValidLen ≤ r.len)
    (hpr : p.canMergeWith r = true) (h : (p.merged r).canMergeWith n = true) : r.canMergeWith n = true := by
  obtain ⟨hadj, hpol, hfull, hsh, hoff, hbacked, hanon⟩ := canMergeWith_iff.mp hpr
  obtain ⟨hadj', hpol', hfull', -, hoff', hbacked', hanon'⟩ := canMergeWith_iff.mp h
  have hlen := merged_len_eq hp hr hadj
  have hid : r.hasBackingIdentity = p.hasBackingIdentity := by
    rw [← policy_hasBackingIdentity, ← hpol, policy_hasBackingIdentity]
  have hz : r.anonSharedId = p.anonSharedId := (congrArg VmPolicy.anonSharedId hpol).symm
  have hs : r.shared = p.shared := (congrArg VmPolicy.shared hpol).symm
  rw [canMergeWith_iff, hid, hz, hs]
  refine ⟨?_, ?_, ?_, hsh, ?_, ?_, ?_⟩
  · rwa [← merged_endAddr hp hr hadj]
  · rwa [← hpol]
  · -- the merged region is valid throughout only if its upper part is
    by_cases hb : p.hasBackingIdentity = true
    · have hmv : (p.merged r).fileValidLen =
          min (satAdd p.fileValidLen r.fileValidLen) (satAdd p.len r.len) := if_neg (by simp [hb])
      rw [hmv, hfull] at hfull'
      have := satAdd_le_add p.len r.fileValidLen
      omega
    · exact (hanon (.inl (by simpa using hb))).1
  · intro hb
    rw [← hoff' hb, ← hoff hb, hlen, merged_fileOffset, wrapAdd_wrapAdd]
  · rintro ⟨hb, hz0⟩
    have hms' : (p.merged r).sigbusStart = p.sigbusStart := if_neg (by simp [hb])
    rw [← hbacked ⟨hb, hz0⟩, ← hms']
    exact hbacked' ⟨hb, hz0⟩
  · intro hb
    exact ⟨(hanon' hb).1, (hanon hb).2.2, (hanon' hb).2.2⟩

/-- The merged region is valid up to where the upper region was. -/
theorem merged_fileValidEnd (hq : q.Fits)
    (h : r.canMergeWith q = true) : (r.merged q).fileValidEnd = q.fileValidEnd := by
  obtain ⟨hadj, -, hfull, -, -, -, hanon⟩ := canMergeWith_iff.mp h
  have hlen := merged_len_eq hr hq hadj
  rw [hr.endAddr_eq] at hadj
  unfold fileValidEnd
  unfold Fits at hr hq
  change satAdd r.start (min (if !r.hasBackingIdentity then wrapAdd r.len q.len else _) _) = _
  cases hid : r.hasBackingIdentity with
  | false =>
    have hqfull := (hanon (.inl hid)).1
    rw [if_pos (show (!false) = true from rfl), wrapAdd_of_le (by omega)]
    unfold satAdd
    omega
  | true =>
    rw [if_neg (by simp)]
    unfold satAdd
    omega

/-- Outside shared anonymous memory the merged region has the SIGBUS tail of the two parts. -/
theorem merged_sigbusStart_le_iff (hq : q.Fits)
    (h : r.canMergeWith q = true) (hz : r.anonSharedId = 0) (hx : x < q.endAddr) :
    (r.merged q).sigbusStart ≤ x ↔ if x < q.start then r.sigbusStart ≤ x else q.sigbusStart ≤ x := by
  obtain ⟨hadj, -, -, -, -, hbacked, hanon⟩ := canMergeWith_iff.mp h
  change (if !r.hasBackingIdentity then satAdd r.start (wrapAdd r.len q.len) else _) ≤ x ↔ _
  cases hid : r.hasBackingIdentity with
  | false =>
    -- no tail in either part, and none in the result
    obtain ⟨-, hrs, hqs⟩ := hanon (.inl hid)
    have hend := merged_endAddr hr hq hadj
    unfold endAddr at hend
    rw [merged_start, merged_len_eq hr hq hadj] at hend
    rw [show wrapAdd r.len q.len = r.len + q.len from merged_len_eq hr hq hadj, hend]
    change q.endAddr ≤ x ↔ _
    split <;> omega
  | true =>
    rw [if_neg (by simp), ← hbacked ⟨hid, hz⟩]
    split <;> rfl

/-- **Joining keeps the promised attributes.** Each address of the two parts keeps, in the merged
region, the attributes it is promised. -/
theorem promised_attrsAt_merged (hq : q.Fits) (hrf : r.FileFits)
    (h : r.canMergeWith q = true) (hrx : r.start ≤ x) (hxq : x < q.endAddr) :
    ((r.merged q).attrsAt x).promised = (if x < q.start then r.attrsAt x else q.attrsAt x).promised := by
  obtain ⟨hadj, hpol, hfull, -, hoff, -, -⟩ := canMergeWith_iff.mp h
  rw [hr.endAddr_eq] at hadj
  have hvalid := merged_fileValidEnd hr hq h
  rw [ByteAttrs.promised_eq_iff]
  split
  · next hx =>
    refine ⟨rfl, decide_eq_decide.mpr ?_, fun _ => rfl, fun hz => decide_eq_decide.mpr ?_⟩
    · -- the lower region is valid throughout
      rw [hvalid]
      unfold fileValidEnd satAdd
      omega
    · rw [merged_sigbusStart_le_iff hr hq h hz hxq, if_pos hx]
  · next hx =>
    refine ⟨hpol, decide_eq_decide.mpr ?_, fun hid => ?_, fun hz => decide_eq_decide.mpr ?_⟩
    · rw [hvalid]
    · -- the offsets run on: `q` begins at the offset where `r` ends
      change satAdd r.fileOffset (x - r.start) = satAdd q.fileOffset (x - q.start)
      rw [← hoff hid, wrapAdd_of_le (hrf hid), ← satAdd_of_le (hrf hid), satAdd_satAdd]
      congr 1
      omega
    · rw [merged_sigbusStart_le_iff hr hq h hz hxq, if_neg hx]

end

theorem mergeWith_eq_some_iff {m : VmRegion} :
    r.mergeWith q = some m ↔ r.canMergeWith q = true ∧ m = r.merged q := by
  unfold mergeWith
  split
  · next h => simp [h, eq_comm]
  · next h => simp [h]

theorem slice_fits (hab : a ≤ b) (hb : b ≤ r.endAddr) : (r.slice a (b - a)).Fits := by
  have := satAdd_le_max r.start r.len
  unfold endAddr at hb
  unfold Fits
  rw [slice_start, slice_len]
  omega

theorem slice_endAddr (hab : a ≤ b) (hb : b ≤ r.endAddr) : (r.slice a (b - a)).endAddr = b := by
  rw [(slice_fits hab hb).endAddr_eq, slice_start, slice_len]
  omega

theorem slice_fileFits (hr : r.Fits) (hf : r.FileFits)
    (ha : r.start ≤ a) (hab : a ≤ b) (hb : b ≤ r.endAddr) : (r.slice a (b - a)).FileFits := by
  intro hid
  have hfit := hf hid
  rw [hr.endAddr_eq] at hb
  change satAdd r.fileOffset (a - r.start) + (b - a) ≤ usizeMax
  have := satAdd_le_add r.fileOffset (a - r.start)
  omega

/-- **Merging and cutting, address by address.** A merge gives every address of its two parts the
attributes it is promised; a cut gives every address of the sub-range all the attributes it had; and
a region cut in two and merged again promises each address what it did before. -/
theorem merge_and_slice_keep_attrs : (∀ r q m : VmRegion, r.Fits → q.Fits → r.FileFits → r.endAddr = q.start →
      r.mergeWith q = some m → ∀ x, r.Contains x ∨ q.Contains x → (m.attrsAt x).promised =
          (if r.Contains x then r.attrsAt x else q.attrsAt x).promised) ∧
    (∀ (r : VmRegion) (a b x : Nat), r.start ≤ a → b ≤ r.endAddr → a ≤ x → x < b →
      (r.slice a (b - a)).attrsAt x = r.attrsAt x) ∧
    (∀ (r m : VmRegion) (c x : Nat), r.Fits → r.FileFits → r.start ≤ c → c ≤ r.endAddr →
      (r.slice r.start (c - r.start)).mergeWith (r.slice c (r.endAddr - c)) = some m →
        r.Contains x → (m.attrsAt x).promised = (r.attrsAt x).promised) := by
  refine ⟨?_, ?_, ?_⟩
  · intro r q m hr hq hrf hadj hm x hx
    obtain ⟨hcan, rfl⟩ := mergeWith_eq_some_iff.mp hm
    have hqle : q.start ≤ q.endAddr := by rw [hq.endAddr_eq]; omega
    have hrx : r.start ≤ x := by
      rcases hx with hx | hx
      · exact hx.1
      · exact le_trans (by rw [← hadj, hr.endAddr_eq]; omega) hx.1
    have hxq : x < q.endAddr := by
      rcases hx with hx | hx
      · exact lt_of_lt_of_le (hadj ▸ hx.2) hqle
      · exact hx.2
    rw [promised_attrsAt_merged hr hq hrf hcan hrx hxq]
    split
    · next hlow => rw [if_pos ⟨hrx, hadj ▸ hlow⟩]
    · next hlow => rw [if_neg fun h => hlow (hadj ▸ h.2)]
  · intro r a b x ha hb hax hxb
    exact attrsAt_slice ha hb hax hxb
  · intro r m c x hr hf hc hce hm hx
    obtain ⟨hcan, rfl⟩ := mergeWith_eq_some_iff.mp hm
    have hend := slice_endAddr hce (le_refl r.endAddr)
    rw [promised_attrsAt_merged (slice_fits hc hce) (slice_fits hce (le_rfl))
      (slice_fileFits hr hf (le_rfl) hc hce) hcan hx.1 (hend.symm ▸ hx.2)]
    split
    · next hlow => rw [attrsAt_slice (le_rfl) hce hx.1 hlow]
    · next hlow => rw [attrsAt_slice hc (le_rfl) (Nat.le_of_not_lt hlow) hx.2]

/-- The second page of a shared anonymous mapping. -/
def secondPage : VmRegion :=
  { start := 0x2000, len := 0x1000, shared := true, anonSharedId := 7, fileOffset := 0x1000 }

/-- The merge of two adjacent pages of one shared anonymous mapping keeps the offset of the second
page, and cutting it off again gives back what the merged region says. -/
theorem merge_and_slice_keep_attrs_shared :
    (({ start := 0x1000, len := 0x2000, shared := true, anonSharedId := 7,
        sigbusStart := 0x2000 } : VmRegion).attrsAt 0x2000).promised =
      (secondPage.attrsAt 0x2000).promised :=
  merge_and_slice_keep_attrs.1 { start := 0x1000, len := 0x1000, shared := true, anonSharedId := 7 }
    secondPage _
    (by decide) (by decide) (by decide) (by decide) (by decide) 0x2000 (by decide)

/-- Merging two anonymous pages moves the file offset of the second one, and merging two pages of a
shared anonymous mapping puts the second one into the SIGBUS tail. -/
theorem merge_changes_offset_and_sigbus : (({ start := 0x1000, len := 0x1000 } : VmRegion).mergeWith
        { start := 0x2000, len := 0x1000 }).map (fun m => (m.attrsAt 0x2000).fileOffset) =
      some 0x1000 ∧
    (({ start := 0x2000, len := 0x1000 } : VmRegion).attrsAt 0x2000).fileOffset = 0 ∧
    (({ start := 0x1000, len := 0x1000, shared := true, anonSharedId := 7 } : VmRegion).mergeWith
        secondPage).map (fun m => (m.attrsAt 0x2000).sigbus) = some true ∧
    (secondPage.attrsAt 0x2000).sigbus = false := by
  decide

end VmRegion

end HitOS
