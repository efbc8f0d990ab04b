import HitOS.Bpf.Progress

/-!
# Memory safety of accepted programs

A pointer at run time leads into an object: the stack frame, the packet, or the value of a map entry
(`MemObject`, `pointee`). Pointer arithmetic wraps around in 64 bits and the instruction adds a
signed displacement, but an access goes through only where the bytes it names, computed without
wrapping, lie inside the object (`Reaches`).

* `MemEffect` says what a round does to memory: a load reads exactly the bytes it reaches, a store
  overwrites exactly these, the helper call reads its key on the stack, and nothing else touches
  memory.
* `memory_safe_of_run` is the result for every run of an accepted program, with the maps changed by
  others at any time. A run lists the map entries the helper has found; every access to a map value
  is to one of these. No register number is out of range, and a run takes no more rounds than the
  program has instructions.
-/

namespace HitOS.Bpf

open List Function OrdMap BpfMapFile Except ProgMaps Option

/-! ### Objects and pointers -/

/-- What a program may access. -/
inductive MemObject where
  | stack
  | packet
  /-- The value of the entry `key` of the map `fd`. -/
  | mapValue (fd : Nat) (key : List Byte)
  deriving DecidableEq

/-- The bytes of an object, if it exists. -/
def MemObject.bytes (packet : List Byte) (stack : List Byte) (maps : ProgMaps) :
    MemObject → Option (List Byte)
  | .stack => some stack
  | .packet => some packet
  | .mapValue fd key =>
    match maps.mapLookupBytes fd key with
    | .ok found => found
    | .error _ => none

/-- Where a pointer leads: an object and a place relative to its first byte. The frame pointer is
the end of the stack. -/
def pointee : RuntimeValue → Option (MemObject × Int)
  | .framePtr => some (.stack, bpfStackSize)
  | .stackPtr off => some (.stack, bpfStackSize + off.toInt)
  | .packetPtr offset => some (.packet, offset.toInt)
  | .mapValuePtr fd key offset => some (.mapValue fd.toNat key, offset.toInt)
  | .scalar _ | .null | .mapFd _ => none

/-- The `len` bytes at the displacement `off` from a pointer are those of `bytes` from `start` on,
all of them inside the object `o`. -/
structure Reaches (packet stack : List Byte) (maps : ProgMaps) (v : RuntimeValue) (off : BitVec 16)
    (len : Nat) (o : MemObject) (bytes : List Byte) (start : Nat) : Prop where
  leads : ∃ base, pointee v = some (o, base) ∧ (start : Int) = base + off.toInt
  present : o.bytes packet stack maps = some bytes
  inside : start + len ≤ bytes.length

/-- `bytes` with `data` in place of its bytes from `start` on. -/
def overwrite (bytes : List Byte) (start : Nat) (data : List Byte) : List Byte :=
  bytes.take start ++ data ++ bytes.drop (start + data.length)

variable {insns : List BpfInsn} {packet key bytes bs : List Byte} {maps : ProgMaps} {start len : Nat}
  {looked : List (Nat × List Byte)} {base offset : BitVec 64} {α : Type} {off : BitVec 16} {insn : BpfInsn}

/-! ### Loads -/

theorem checkedAdd64_eq_some {a b c : Int} (h : checkedAdd64 a b = some c) : c = a + b := by
  unfold checkedAdd64 at h
  split at h
  · exact (some.inj h).symm
  · cases h

/-- The place on the stack, without wrapping. -/
theorem pointerOffsetToStack_eq_ok (h : pointerOffsetToStack base off len = .ok start) :
    (start : Int) = bpfStackSize + base.toInt + off.toInt ∧ start + len ≤ bpfStackSize := by
  unfold pointerOffsetToStack at h
  iterate 3
    split at h
    · cases h
  next hplace _ _ hstop hrange =>
  push Not at hrange
  obtain ⟨_, hmid, hplace⟩ := bind_eq_some_iff.mp hplace
  have h1 := checkedAdd64_eq_some hmid
  have h2 := checkedAdd64_eq_some hplace
  have h3 := checkedAdd64_eq_some hstop
  cases h
  constructor
  · rw [Int.toNat_of_nonneg hrange.1, h2, h1]
  · omega

theorem objectOffset_eq_ok (h : objectOffset offset off = .ok start) :
    (start : Int) = offset.toInt + off.toInt := by
  unfold objectOffset at h
  split at h
  · cases h
  next _ hplace =>
  split at h
  · cases h
  next hrange =>
  cases h
  rw [Int.toNat_of_nonneg (not_lt.mp hrange), checkedAdd64_eq_some hplace]

/-- The frame pointer is a stack pointer without an offset. -/
theorem pointee_framePtr : pointee .framePtr = some (.stack, bpfStackSize + (0 : BitVec 64).toInt) := by
  simp [pointee]

section Accesses

variable {stack : List Byte} {v : RuntimeValue}

theorem reaches_stack (hv : pointee v = some (.stack, bpfStackSize + base.toInt))
    (hstack : stack.length = bpfStackSize) (h : pointerOffsetToStack base off len = .ok start) :
    Reaches packet stack maps v off len .stack stack start := by
  obtain ⟨h1, h2⟩ := pointerOffsetToStack_eq_ok h
  exact ⟨⟨_, hv, h1⟩, rfl, by rw [hstack]; exact h2⟩

theorem loadStack_eq_ok (hv : pointee v = some (.stack, bpfStackSize + base.toInt))
    (hstack : stack.length = bpfStackSize) (h : loadStack stack base off len = .ok bs) :
    ∃ start, Reaches packet stack maps v off len .stack stack start ∧ bs = (stack.drop start).take len := by
  obtain ⟨start, hstart, h⟩ := bind_eq_ok h
  cases h
  exact ⟨start, reaches_stack hv hstack hstart, rfl⟩

/-- **A load** reads exactly the bytes its pointer reaches. -/
theorem loadBytes_eq_ok (hstack : stack.length = bpfStackSize)
    (h : loadBytes maps stack packet v off len = .ok bs) :
    ∃ o bytes start, Reaches packet stack maps v off len o bytes start ∧ bs = (bytes.drop start).take len := by
  unfold loadBytes at h
  split at h
  · exact ⟨_, _, loadStack_eq_ok pointee_framePtr hstack h⟩
  · exact ⟨_, _, loadStack_eq_ok rfl hstack h⟩
  · next fd key _ =>
    obtain ⟨start, hstart, h⟩ := bind_eq_ok h
    obtain ⟨_, hfound, h⟩ := bind_eq_ok h
    split at h
    · cases h
    next value =>
    split at h
    · cases h
    next hle =>
    cases h
    refine ⟨.mapValue fd.toNat key, value, start, ⟨⟨_, rfl, objectOffset_eq_ok hstart⟩, ?_,
      Nat.le_of_not_lt hle⟩, rfl⟩
    rw [MemObject.bytes, hfound]
  · obtain ⟨start, hstart, h⟩ := bind_eq_ok h
    split at h
    · cases h
    · next hle =>
      cases h
      exact ⟨.packet, packet, start, ⟨⟨_, rfl, objectOffset_eq_ok hstart⟩, rfl, Nat.le_of_not_lt hle⟩, rfl⟩
  · cases h
  · cases h
  · cases h

/-- The key of a lookup is read on the stack. -/
theorem loadStackKey_eq_ok (hstack : stack.length = bpfStackSize) (h : loadStackKey stack v len = .ok key) :
    ∃ start, Reaches packet stack maps v 0 len .stack stack start ∧ key = (stack.drop start).take len := by
  unfold loadStackKey at h
  split at h
  · exact loadStack_eq_ok pointee_framePtr hstack h
  · exact loadStack_eq_ok rfl hstack h
  all_goals cases h

/-! ### Stores -/

variable {stack' data : List Byte}

/-- Keys of one length are told apart by the number they encode. -/
theorem ofLeBytes_inj {a b : List Byte} (hlen : a.length = b.length)
    (h : ofLeBytes a = ofLeBytes b) : a = b := by
  induction a generalizing b with
  | nil => exact (length_eq_zero_iff.mp hlen.symm).symm
  | cons x a ih =>
    cases b with
    | nil => cases hlen
    | cons y =>
      simp only [ofLeBytes] at h
      have hxy : x = y := Fin.ext (by omega)
      rw [hxy, ih (Nat.succ.inj hlen) (by omega)]

theorem writeBytes_eq_ok {value value' : List Byte} (h : writeBytes value start data = .ok value') :
    start + data.length ≤ value.length ∧ value' = overwrite value start data := by
  unfold writeBytes at h
  split at h
  · cases h
  · next hle => exact ⟨Nat.le_of_not_lt hle, (ok.inj h).symm⟩

theorem arrayIndex_eq_ok {index : Nat} (h : arrayIndex key = .ok index) :
    key.length = 4 ∧ index = ofLeBytes key := by
  unfold arrayIndex at h
  split at h
  · cases h
  · next hlen => exact ⟨not_not.mp hlen, (ok.inj h).symm⟩

/-- **A store into a map** overwrites bytes of the value of one entry. -/
theorem storeBytes_eq_ok {m m' : BpfMapFile} (h : m.storeBytes key start data = .ok m') :
    ∃ value, m.lookup key = .ok (some value) ∧ start + data.length ≤ value.length ∧
      m'.lookup key = .ok (some (overwrite value start data)) ∧
      ∀ key', key' ≠ key → m'.lookup key' = m.lookup key' := by
  unfold storeBytes at h
  cases hstore : m.storage with
  | hash entries =>
    simp only [hstore] at h
    split at h
    · cases h
    next hsize =>
    cases hget : entries.get? key with
    | none => simp [hget] at h
    | some value =>
    simp only [hget] at h
    obtain ⟨value', hwrite, h⟩ := bind_eq_ok h
    obtain ⟨hle, rfl⟩ := writeBytes_eq_ok hwrite
    cases h
    refine ⟨value, ?_, hle, ?_, fun key' hne => ?_⟩
    · simp only [BpfMapFile.lookup, hstore]
      rw [if_neg hsize, hget]
    · simp only [BpfMapFile.lookup]
      rw [if_neg hsize, get?_insert, if_pos rfl]
    · simp only [BpfMapFile.lookup, hstore]
      rw [get?_insert, if_neg hne]
  | array values =>
    simp only [hstore] at h
    obtain ⟨index, hindex, h⟩ := bind_eq_ok h
    cases hget : values[index]? with
    | none => simp [hget] at h
    | some value =>
    simp only [hget] at h
    obtain ⟨_, hwrite, h⟩ := bind_eq_ok h
    obtain ⟨hle, rfl⟩ := writeBytes_eq_ok hwrite
    cases h
    obtain ⟨hlen, hval⟩ := arrayIndex_eq_ok hindex
    have hlt : index < values.length := (List.getElem?_eq_some_iff.mp hget).1
    refine ⟨value, ?_, hle, ?_, fun key' hne => ?_⟩
    · simp only [BpfMapFile.lookup, hstore, hindex]
      exact congrArg ok hget
    · simp only [BpfMapFile.lookup, hindex]
      exact congrArg ok (getElem?_set_self hlt)
    -- another key of four bytes is another index
    simp only [BpfMapFile.lookup, hstore]
    cases hother : arrayIndex key' with
    | error => rfl
    | ok index' =>
      obtain ⟨hlen', hval'⟩ := arrayIndex_eq_ok hother
      have hindex' : index ≠ index' := by
        intro heq
        rw [hval, hval'] at heq
        exact hne (ofLeBytes_inj (hlen'.trans hlen.symm) heq.symm)
      exact congrArg ok (getElem?_set_ne hindex')
  | ringBuf => simp [hstore] at h

/-- What a store into the object `o` leaves as it was. A map may be known under a second descriptor,
so nothing is said of the entries under others. -/
def OthersKept (o : MemObject) (stack stack' : List Byte) (maps maps' : ProgMaps) : Prop :=
  match o with
  | .stack => maps' = maps
  | .packet => stack' = stack ∧ maps' = maps
  | .mapValue fd key => stack' = stack ∧
      ∀ key', key' ≠ key → maps'.mapLookupBytes fd key' = maps.mapLookupBytes fd key'

theorem storeStack_eq_ok (hv : pointee v = some (.stack, bpfStackSize + base.toInt))
    (hstack : stack.length = bpfStackSize) (h : storeStack stack base off data = .ok stack') :
    ∃ o bytes start, Reaches packet stack maps v off data.length o bytes start ∧ o ≠ .packet ∧
      o.bytes packet stack' maps = some (overwrite bytes start data) ∧
      OthersKept o stack stack' maps maps ∧ stack'.length = bpfStackSize := by
  obtain ⟨start, hstart, h⟩ := bind_eq_ok h
  cases h
  refine ⟨_, _, start, reaches_stack hv hstack hstart, nofun, rfl, rfl, ?_⟩
  have hle := (pointerOffsetToStack_eq_ok hstart).2
  simp only [length_append, length_take, length_drop]
  omega

/-- **A store** overwrites exactly the bytes its pointer reaches, and never the packet. -/
theorem storeValue_eq_ok {maps' : ProgMaps} (hstack : stack.length = bpfStackSize)
    (h : storeValue maps stack v off data = .ok (stack', maps')) :
    ∃ o bytes start, Reaches packet stack maps v off data.length o bytes start ∧ o ≠ .packet ∧
      o.bytes packet stack' maps' = some (overwrite bytes start data) ∧
      OthersKept o stack stack' maps maps' ∧ stack'.length = bpfStackSize := by
  unfold storeValue at h
  split at h
  · obtain ⟨_, hstore, h⟩ := bind_eq_ok h
    cases h
    exact storeStack_eq_ok pointee_framePtr hstack hstore
  · obtain ⟨_, hstore, h⟩ := bind_eq_ok h
    cases h
    exact storeStack_eq_ok rfl hstack hstore
  · next fd key _ =>
    obtain ⟨start, hstart, h⟩ := bind_eq_ok h
    obtain ⟨_, hstore, h⟩ := bind_eq_ok h
    cases h
    unfold mapStoreBytes at hstore
    cases hget : maps.get? fd.toNat with
    | none => simp [hget] at hstore
    | some =>
    simp only [hget] at hstore
    obtain ⟨_, hm', hstore⟩ := bind_eq_ok hstore
    cases hstore
    obtain ⟨value, hvalue, hle, hnew, hsame⟩ := storeBytes_eq_ok hm'
    have hold : maps.mapLookupBytes fd.toNat key = .ok (some value) := by
      simp only [mapLookupBytes, hget, hvalue]
    refine ⟨.mapValue fd.toNat key, value, start, ⟨⟨_, rfl, objectOffset_eq_ok hstart⟩, ?_, hle⟩,
      by simp, ?_, ⟨rfl, fun key' hne => ?_⟩, hstack⟩
    · rw [MemObject.bytes, hold]
    · rw [MemObject.bytes, mapLookupBytes, get?_insert_self]
      simp only [hnew]
    · simp only [mapLookupBytes, get?_insert_self, hget]
      exact hsame key' hne
  all_goals cases h

end Accesses

/-! ### What a round does to memory -/

/-- The stack and the packet are the program's own; of the maps, the entries it has looked up
are. -/
def MemObject.Owned (looked : List (Nat × List Byte)) : MemObject → Prop
  | .stack | .packet => True
  | .mapValue fd key => (fd, key) ∈ looked

/-- A load of the register `dst` through the register `src`. -/
def LoadEffect (packet : List Byte) (looked : List (Nat × List Byte)) (insn : BpfInsn) (dst src : Reg)
    (s s' : BpfState) : Prop :=
  ∃ o bytes start, Reaches packet s.stack s.maps (s.regs src) insn.off insn.width.toLen o bytes start ∧
    o.Owned looked ∧
    s'.regs dst = .scalar (BitVec.ofNat 64 (ofLeBytes ((bytes.drop start).take insn.width.toLen))) ∧
    s'.stack = s.stack ∧ s'.maps = s.maps

/-- A store through the register `dst`. -/
def StoreEffect (packet : List Byte) (looked : List (Nat × List Byte)) (insn : BpfInsn) (dst : Reg)
    (data : List Byte) (s s' : BpfState) : Prop :=
  ∃ o bytes start, Reaches packet s.stack s.maps (s.regs dst) insn.off insn.width.toLen o bytes start ∧
    o.Owned looked ∧ o ≠ .packet ∧
    o.bytes packet s'.stack s'.maps = some (overwrite bytes start data) ∧
    OthersKept o s.stack s'.stack s.maps s'.maps

/-- A lookup, with its key on the stack. -/
def LookupEffect (packet : List Byte) (s s' : BpfState) : Prop :=
  ∃ fd len start, s.regs 1 = .mapFd fd ∧ s.maps.mapKeySize fd.toNat = .ok len ∧
    Reaches packet s.stack s.maps (s.regs 2) 0 len .stack s.stack start ∧
    s'.stack = s.stack ∧ s'.maps = s.maps

/-- What a round does to memory, form by form. -/
def MemEffect (packet : List Byte) (looked : List (Nat × List Byte)) (insn : BpfInsn) (dst src : Reg)
    (s s' : BpfState) : Prop :=
  match insn.form with
  | .ldxMem => LoadEffect packet looked insn dst src s s'
  | .stMem => StoreEffect packet looked insn dst
      (leBytes insn.width.toLen (insn.imm.signExtend 64).toNat) s s'
  | .stxMem => StoreEffect packet looked insn dst (leBytes insn.width.toLen (s.regs src).asU64.toNat) s s'
  | .jmp =>
    match insn.jmpOp with
    | .call => LookupEffect packet s s'
    | _ => s'.stack = s.stack ∧ s'.maps = s.maps
  | _ => s'.stack = s.stack ∧ s'.maps = s.maps

/-- Every pointer to a map value is to an entry that has been looked up. -/
def PointersOwned (looked : List (Nat × List Byte)) (s : BpfState) : Prop :=
  ∀ r fd key offset, s.regs r = .mapValuePtr fd key offset → (fd.toNat, key) ∈ looked

section Effects

variable {dst src : Reg} {s s' : BpfState}

theorem leBytes_length (n v : Nat) : (leBytes n v).length = n := by simp [leBytes]

theorem Reaches.owned {stack : List Byte} {maps : ProgMaps}
    {o : MemObject} {r : Reg} (howned : PointersOwned looked s)
    (h : Reaches packet stack maps (s.regs r) off len o bytes start) : o.Owned looked := by
  obtain ⟨_, hlead, -⟩ := h.leads
  cases o with
  | stack | packet => trivial
  | mapValue =>
  cases hv : s.regs r with
  | mapValuePtr fd' key' offset =>
    rw [hv] at hlead
    simp only [pointee, some.injEq, Prod.mk.injEq, MemObject.mapValue.injEq] at hlead
    obtain ⟨⟨rfl, rfl⟩, -⟩ := hlead
    exact howned r fd' key' offset hv
  | scalar | null | mapFd | framePtr | stackPtr | packetPtr => simp [hv, pointee] at hlead

variable (hstack : s.stack.length = bpfStackSize)

include hstack

theorem stepLoad_effect (howned : PointersOwned looked s)
    (hdst : insn.dstReg = dst) (hsrc : insn.srcReg = src) (h : stepLoad packet insn s = .ok s') :
    LoadEffect packet looked insn dst src s s' ∧ s'.stack.length = bpfStackSize := by
  obtain ⟨v, hv, h⟩ := bind_eq_ok (regIndex_bind_eq_ok hsrc h)
  cases regIndex_bind_eq_ok hdst h
  obtain ⟨_, hbs, hv⟩ := bind_eq_ok (orHalt_eq_ok hv)
  cases hv
  obtain ⟨o, bytes, start, hreach, rfl⟩ := loadBytes_eq_ok hstack hbs
  refine ⟨⟨o, bytes, start, hreach, hreach.owned howned, ?_, rfl, rfl⟩, hstack⟩
  simp [BpfState.setReg, BpfState.skip]

theorem stepStore_effect {data : List Byte} (howned : PointersOwned looked s) (hdst : insn.dstReg = dst)
    (hdata : data.length = insn.width.toLen) (h : stepStore insn data s = .ok s') :
    StoreEffect packet looked insn dst data s s' ∧ s'.stack.length = bpfStackSize := by
  obtain ⟨⟨_, _⟩, hstore, h⟩ := bind_eq_ok (regIndex_bind_eq_ok hdst h)
  cases h
  obtain ⟨o, bytes, start, hreach, hne, hnew, hkept, hlen⟩ :=
    @storeValue_eq_ok packet _ _ _ _ _ _ _ hstack (orHalt_eq_ok hstore)
  rw [hdata] at hreach
  exact ⟨⟨o, bytes, start, hreach, hreach.owned howned, hne, hnew, hkept⟩, hlen⟩

theorem stepCall_effect (h : stepCall insn s = .ok s') :
    LookupEffect packet s s' ∧ s'.stack.length = bpfStackSize := by
  unfold stepCall at h
  split at h
  · cases h
  split at h
  · next fd hfd =>
    obtain ⟨len, hlen, h⟩ := bind_eq_ok h
    obtain ⟨_, hkey, h⟩ := bind_eq_ok h
    obtain ⟨_, -, h⟩ := bind_eq_ok h
    cases h
    obtain ⟨start, hreach, -⟩ := loadStackKey_eq_ok hstack hkey
    exact ⟨⟨fd, len, start, hfd, hlen, hreach, rfl, rfl⟩, hstack⟩
  · cases h

/-- **The effect of a round on memory.** -/
theorem stepNext_effect (howned : PointersOwned looked s) (hdst : insn.dstReg = dst) (hsrc : insn.srcReg = src)
    (h : stepNext insns packet insn s = .ok s') :
    MemEffect packet looked insn dst src s s' ∧ s'.stack.length = bpfStackSize := by
  -- the arms that only set registers
  have hkept (t : BpfState) (ht : t.stack = s.stack ∧ t.maps = s.maps) :
      (t.stack = s.stack ∧ t.maps = s.maps) ∧ t.stack.length = bpfStackSize := ⟨ht, by rw [ht.1, hstack]⟩
  unfold stepNext at h
  unfold MemEffect
  cases hform : insn.form with
  | ldImm64 =>
    simp only [hform, stepLdImm64] at h ⊢
    split at h
    · cases h
    · obtain ⟨r, -, h⟩ := bind_eq_ok h
      cases h
      exact hkept _ ⟨rfl, rfl⟩
  | ldxMem =>
    simp only [hform] at h ⊢
    exact stepLoad_effect hstack howned hdst hsrc h
  | stMem =>
    simp only [hform] at h ⊢
    exact stepStore_effect hstack howned hdst (leBytes_length ..) h
  | stxMem =>
    simp only [hform] at h ⊢
    exact stepStore_effect hstack howned hdst (leBytes_length ..) (regIndex_bind_eq_ok hsrc h)
  | alu =>
    simp only [hform, stepAlu] at h ⊢
    split at h
    · obtain ⟨v, -, h⟩ := bind_eq_ok h
      obtain ⟨r, -, h⟩ := bind_eq_ok h
      cases h
      exact hkept _ ⟨rfl, rfl⟩
    · obtain ⟨x, -, h⟩ := bind_eq_ok h
      obtain ⟨r, -, h⟩ := bind_eq_ok h
      obtain ⟨v, -, h⟩ := bind_eq_ok h
      cases h
      exact hkept _ ⟨rfl, rfl⟩
  | jmp =>
    simp only [hform] at h ⊢
    cases hop : insn.jmpOp with
    | call =>
      simp only [hop] at h ⊢
      exact stepCall_effect hstack (orHalt_eq_ok h)
    | jeq | jne =>
      simp only [hop] at h ⊢
      obtain ⟨r, -, h⟩ := bind_eq_ok h
      obtain ⟨x, -, h⟩ := bind_eq_ok h
      cases h
      refine hkept _ ?_
      split <;> exact ⟨rfl, rfl⟩
    | exit | other => simp [hop] at h
  | unsupported => simp [hform] at h

end Effects

/-! ### Where pointers come from -/

section Pointers

variable {dst src : Reg} {s s' : BpfState}

/-- Arithmetic makes no pointer to a map value. -/
theorem execAlu_ne_mapValuePtr {v w : RuntimeValue} {op : AluOp} {x : BitVec 64} {is64 : Bool}
    (h : execAlu v op x is64 = .ok w) {fd : BitVec 32} : w ≠ .mapValuePtr fd key offset := by
  rintro rfl
  have hptr : ∀ mk : BitVec 64 → RuntimeValue, (∀ c, mk c ≠ .mapValuePtr fd key offset) → ∀ cur,
      execPtrAlu mk cur op x ≠ .ok (.mapValuePtr fd key offset) := by
    intro _ hmk _ h
    cases op <;> simp only [execPtrAlu, ok.injEq] at h <;> first | exact hmk _ h | cases h
  unfold execAlu at h
  split at h
  · exact hptr _ (by simp) _ h
  · exact hptr _ (by simp) _ h
  · exact hptr _ (by simp) _ h
  · cases h
  all_goals
    obtain ⟨r, -, h⟩ := bind_eq_ok h
    cases h

/-- The entries looked up after a round: the helper adds the one it has found. -/
def lookedUp (insn : BpfInsn) (s' : BpfState) (looked : List (Nat × List Byte)) : List (Nat × List Byte) :=
  if insn.form = .jmp ∧ insn.jmpOp = .call then
    match s'.regs 0 with
    | .mapValuePtr fd key _ => (fd.toNat, key) :: looked
    | _ => looked
  else looked

theorem mem_lookedUp {e : Nat × List Byte} (h : e ∈ looked) : e ∈ lookedUp insn s' looked := by
  unfold lookedUp
  split
  · split
    · exact .tail _ h
    · exact h
  · exact h

/-- **A pointer to a map value** stems from a lookup. -/
theorem Round.pointersOwned (h : Round insn dst src s s')
    (howned : PointersOwned looked s) : PointersOwned (lookedUp insn s' looked) s' := by
  -- a register that is set to something else than a new pointer
  have hset : ∀ v, s'.regs = update s.regs dst v →
      (∀ fd key offset, v = .mapValuePtr fd key offset → (fd.toNat, key) ∈ looked) →
      PointersOwned (lookedUp insn s' looked) s' := by
    intro v hregs hv r fd key offset hr
    rw [hregs] at hr
    by_cases hrd : r = dst
    · subst hrd
      rw [update_self] at hr
      exact mem_lookedUp (hv fd key offset hr)
    · rw [update_of_ne hrd] at hr
      exact mem_lookedUp (howned r fd key offset hr)
  have hsame : s'.regs = s.regs → PointersOwned (lookedUp insn s' looked) s' := by
    intro hregs r fd key offset hr
    rw [hregs] at hr
    exact mem_lookedUp (howned r fd key offset hr)
  unfold Round at h
  cases hform : insn.form with
  | ldImm64 =>
    simp only [hform] at h
    obtain ⟨-, v, hv, hregs⟩ := h
    refine hset v hregs fun fd key offset hptr => ?_
    rw [hptr] at hv
    split at hv <;> exact hv.elim
  | ldxMem =>
    simp only [hform] at h
    obtain ⟨-, v, hregs⟩ := h
    exact hset _ hregs nofun
  | stMem | stxMem =>
    simp only [hform] at h
    exact hsame h.2
  | alu =>
    simp only [hform] at h
    obtain ⟨-, v, hregs, hv⟩ := h
    refine hset v hregs fun fd key offset hptr => ?_
    split at hv
    · split at hv
      · exact howned src fd key offset (hv.symm.trans hptr)
      · obtain ⟨x, rfl⟩ := hv
        cases hptr
    · obtain ⟨x, hexec⟩ := hv
      exact absurd hptr (execAlu_ne_mapValuePtr hexec)
  | jmp =>
    simp only [hform] at h
    cases hop : insn.jmpOp with
    | call =>
      simp only [hop] at h
      obtain ⟨-, v, -, hregs⟩ := h
      intro r fd key offset hr
      by_cases hrz : r = 0
      · subst hrz
        unfold lookedUp
        rw [if_pos ⟨hform, hop⟩, hr]
        exact .head _
      · rw [hregs, update_of_ne hrz] at hr
        exact mem_lookedUp (howned r fd key offset hr)
    | jeq | jne =>
      simp only [hop] at h
      exact hsame h.2
    | exit | other => simp [hop] at h
  | unsupported => simp [hform] at h

/-! ### Register numbers -/

/-- The register file is not indexed out of bounds. -/
def NoPanic {α : Type} (x : Except Halt α) : Prop := x ≠ .error .panic

theorem step_noPanic (hv : verifyProgram insns = .ok ()) (hlt : s.pc < insns.length) :
    NoPanic (step insns packet s) := by
  intro h
  unfold step at h
  dsimp only at h
  split at h
  · cases h
  next hgo =>
  push Not at hgo
  rcases bind_eq_error h with h | ⟨_, -, h⟩
  · rcases recorded_or_unsupported hv hlt with ⟨k, hrec⟩ | hform
    · obtain ⟨⟨_, _⟩, hverify⟩ := verifyInsn_of_recorded hv hrec hlt
      obtain ⟨_, _, hdst, hsrc, hacc⟩ := verifyInsn_eq_ok hverify
      obtain ⟨_, he, -⟩ := stepNext_error rfl hdst hsrc hacc (fun hexit => hgo.2 hexit.1 hexit.2) h
      cases he
    · rw [stepNext, hform] at h
      cases h
  · cases h

end Pointers

/-! ### Whole runs -/

/-- A run, with the rounds it has taken and the map entries it has looked up. -/
structure Traced where
  state : BpfState
  looked : List (Nat × List Byte)
  rounds : Nat

/-- The beginning of a run. -/
def Traced.init (packet : List Byte) (maps : ProgMaps) : Traced := ⟨.init packet maps, [], 0⟩

inductive TracedStep (insns : List BpfInsn) (packet : List Byte) : Traced → Traced → Prop
  | round {t : Traced} {s' : BpfState} (h : step insns packet t.state = .ok (.next s')) :
      TracedStep insns packet t ⟨s', lookedUp (insnAt insns t.state.pc) s' t.looked, t.rounds + 1⟩
  | interfere (t : Traced) (maps : ProgMaps) :
      TracedStep insns packet t { t with state := { t.state with maps := maps } }

/-- What every state of a run of an accepted program satisfies. -/
structure SafeInv (insns : List BpfInsn) (t : Traced) : Prop where
  stack : t.state.stack.length = bpfStackSize
  owned : PointersOwned t.looked t.state
  rounds : t.rounds ≤ t.state.pc
  inside : t.state.pc < insns.length

section Runs

variable {t : Traced}

section

variable (hv : verifyProgram insns = .ok ())

include hv

/-- The registers of an instruction that is decoded. -/
theorem regs_of_supported {pc : Nat} (hlt : pc < insns.length)
    (hform : (insnAt insns pc).form ≠ .unsupported) :
    ∃ dst src : Reg, (insnAt insns pc).dstReg = dst ∧ (insnAt insns pc).srcReg = src := by
  obtain ⟨k, hrec⟩ := (recorded_or_unsupported hv hlt).resolve_right hform
  obtain ⟨⟨_, _⟩, hverify⟩ := verifyInsn_of_recorded hv hrec hlt
  obtain ⟨dst, src, hdst, hsrc, -⟩ := verifyInsn_eq_ok hverify
  exact ⟨dst, src, hdst, hsrc⟩

theorem safeInv_init : SafeInv insns (.init packet maps) := by
  refine ⟨length_replicate, fun r fd key offset hr => ?_, le_rfl, (exit_at_end hv).1⟩
  -- no register holds a pointer to a map value at entry
  simp only [Traced.init, BpfState.init, update_apply] at hr
  split at hr
  · cases hr
  split at hr
  · cases hr
  split at hr <;> cases hr

theorem SafeInv.step {t' : Traced} (hlen : insns.length < 2 ^ 64)
    (hi : SafeInv insns t) (h : TracedStep insns packet t t') : SafeInv insns t' := by
  cases h with
  | interfere => exact ⟨hi.stack, hi.owned, hi.rounds, hi.inside⟩
  | @round s' hs =>
  obtain ⟨hlt, -, hnext⟩ := step_eq_next hs
  obtain ⟨hpc, hpc', -⟩ := step_forward hv hlen hs
  obtain ⟨_, _, hdst, hsrc⟩ := regs_of_supported hv hlt fun hform => by simp [stepNext, hform] at hnext
  refine ⟨(stepNext_effect hi.stack hi.owned hdst hsrc hnext).2,
    (stepNext_round hdst hsrc hnext).pointersOwned hi.owned, ?_, hpc'⟩
  have := hi.rounds
  change t.rounds + 1 ≤ s'.pc
  omega

end

/-- **Memory safety and termination.** A run of an accepted program ends after at most as many
rounds as the program has instructions. In every state it reaches, whatever others do to the maps,
the registers of the instruction at hand exist, the register file is not indexed out of bounds, and
the round touches memory as `MemEffect` says: the bytes read and written lie inside the stack, the
packet or the value of an entry looked up before. -/
theorem memory_safe_of_run (hv : verifyProgram insns = .ok ()) (hlen : insns.length < 2 ^ 64)
    (hr : Reachable (· = Traced.init packet maps) (TracedStep insns packet) t) :
    (∃ r, execute insns packet maps insns.length = some r) ∧ t.rounds < insns.length ∧
      step insns packet t.state ≠ .error .panic ∧
      ((insnAt insns t.state.pc).form ≠ .unsupported →
        ∃ dst src : Reg, (insnAt insns t.state.pc).dstReg = dst ∧ (insnAt insns t.state.pc).srcReg = src ∧
          ∀ s', step insns packet t.state = .ok (.next s') →
            MemEffect packet t.looked (insnAt insns t.state.pc) dst src t.state s') ∧
      ((insnAt insns t.state.pc).form = .unsupported → step insns packet t.state = .error (.err .enosys)) := by
  have hinv : SafeInv insns t := by
    refine Reachable.invariant ?_ (fun _ _ hi h => hi.step hv hlen h) hr
    rintro t rfl
    exact safeInv_init hv
  refine ⟨execute_terminates hv hlen packet maps, lt_of_le_of_lt hinv.rounds hinv.inside,
    step_noPanic hv hinv.inside, fun hform => ?_, fun hform => ?_⟩
  · obtain ⟨dst, src, hdst, hsrc⟩ := regs_of_supported hv hinv.inside hform
    refine ⟨dst, src, hdst, hsrc, fun s' hs => ?_⟩
    exact (stepNext_effect hinv.stack hinv.owned hdst hsrc (step_eq_next hs).2.2).1
  · unfold step
    rw [if_neg (by simp [hform, hinv.inside]), stepNext, hform]
    rfl

/-- `*(u64 *)(r10 - 8) = 5; r0 = *(u64 *)(r10 - 8); exit`. -/
def storeThenLoad : List BpfInsn := [⟨0x7a, 0x0a, -8, 5⟩, ⟨0x79, 0xa0, -8, 0⟩, ⟨0x95, 0x00, 0, 0⟩]

/-- The load reads back on the stack what the store wrote there. -/
theorem memory_safe_of_run_store_then_load : ∃ t : Traced, t.state.pc = 1 ∧ t.rounds < 3 ∧
      (∃ s', step storeThenLoad [] t.state = .ok (.next s') ∧ s'.regs 0 = .scalar 5 ∧
        ∃ dst src, MemEffect [] t.looked (insnAt storeThenLoad 1) dst src t.state s') := by
  have hinit : Reachable (· = Traced.init [] empty) (TracedStep storeThenLoad [])
      (.init [] empty) := .start rfl
  have hstore := hinit.step (.round rfl)
  obtain ⟨-, hrounds, -, heffect, -⟩ := memory_safe_of_run rfl (by decide) hstore
  obtain ⟨dst, src, -, -, heffect⟩ := heffect (by decide +kernel)
  exact ⟨_, rfl, hrounds, _, rfl, by decide +kernel, dst, src, heffect _ rfl⟩

end Runs

end HitOS.Bpf
