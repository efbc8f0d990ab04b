import HitOS.Lib.Cyclic
import HitOS.Syscall.Error

/-!
# The ring of a pipe

The byte ring of `PipeRingBuffer` in `fs/pipe.rs`: reading, writing, peeking and changing the
capacity. A function returns `none` where the source would panic, on a slice out of range or a
missing array.

The array is made when the first byte arrives and always has the greatest capacity; its first
`capacity` places are used, in a circle. A status tells a full ring from an empty one, since head
and tail are equal in both.

`Holds r q` says that the ring is well formed and that its bytes, from the head on, are `q`. Each
operation is an operation on `q`:

* `readIntoSlice_spec`, `peekInto_spec` — the first bytes of `q`, taken or copied;
* `writeFromSliceBytes_spec` — as many bytes as there is room for are put behind `q`;
* `setPipeSize_spec` — `q` stays, whatever the answer is.
-/

namespace HitOS.Pipe

open List Option Cyclic Nat

def pipeBuf : Nat := 4096

def defaultPipeCapacity : Nat := 16 * pipeBuf

def maxPipeCapacity : Nat := defaultPipeCapacity

structure PipeMaxSizeLimit where
  value : Nat
  lower : pipeBuf ≤ value
  upper : value ≤ maxPipeCapacity

/-- What the size of a pipe depends on besides the pipe: `has_cap_sys_resource` for the current
process, and the limit for processes without it. -/
structure PipeLimits where
  capSysResource : Bool
  limit : PipeMaxSizeLimit

def defaultPipeCapacityForCurrent (limits : PipeLimits) : Nat :=
  if limits.capSysResource then defaultPipeCapacity else min defaultPipeCapacity limits.limit.value

inductive RingBufferStatus where
  | full
  | empty
  | normal
  deriving DecidableEq

structure PipeRingBuffer where
  arr : Option (List UInt8)
  capacity : Nat
  head : Nat
  tail : Nat
  status : RingBufferStatus
  deriving DecidableEq

namespace PipeRingBuffer

def new (limits : PipeLimits) : PipeRingBuffer :=
  ⟨none, defaultPipeCapacityForCurrent limits, 0, 0, .empty⟩

variable (r : PipeRingBuffer)

def availableRead : Nat :=
  if r.status = .empty then 0
  else if r.status = .full then r.capacity
  else if r.tail > r.head then r.tail - r.head
  else r.tail + r.capacity - r.head

def availableWrite : Nat :=
  if r.status = .full then 0 else r.capacity - r.availableRead

def pollWritableThreshold : Nat := min r.capacity pipeBuf

/-- The two copies out of the array; `first` bytes come from the head on, the rest from the
start. -/
def copyOut (arr : List UInt8) (head first n : Nat) : Option (List UInt8) :=
  if head + first ≤ arr.length ∧ n - first ≤ arr.length then
    some ((arr.drop head).take first ++ arr.take (n - first))
  else none

/-- `peek_into`, for a destination of `len` bytes. -/
def peekInto (len : Nat) : Option (List UInt8) :=
  let n := min len r.availableRead
  if n = 0 then some []
  else r.arr.bind fun arr => copyOut arr r.head (min n (r.capacity - r.head)) n

/-- `read_into_slice`, for a destination of `len` bytes. -/
def readIntoSlice (len : Nat) : Option (List UInt8 × PipeRingBuffer) :=
  let n := min len r.availableRead
  if n = 0 then some ([], r)
  else
    (r.arr.bind fun arr => copyOut arr r.head (min n (r.capacity - r.head)) n).map fun out =>
      let head := (r.head + n) % r.capacity
      (out, { r with head := head, status := if head = r.tail then .empty else .normal })

/-- `ensure_backing`: the array, made if there is none. -/
def ensureBacking : List UInt8 := r.arr.getD (List.replicate maxPipeCapacity 0)

/-- The two copies into the array. -/
def copyIn (arr : List UInt8) (tail first : Nat) (src : List UInt8) : Option (List UInt8) :=
  if tail + first ≤ arr.length ∧ src.length - first ≤ arr.length then
    some (Cyclic.splice (Cyclic.splice arr tail (src.take first)) 0 (src.drop first))
  else none

def writeFromSliceBytes (src : List UInt8) : Option (Nat × PipeRingBuffer) :=
  let n := min src.length r.availableWrite
  if n = 0 then some (0, r)
  else
    (copyIn r.ensureBacking r.tail (min n (r.capacity - r.tail)) (src.take n)).map fun arr =>
      let tail := (r.tail + n) % r.capacity
      (n, { r with arr := some arr, tail := tail, status := if tail = r.head then .full else .normal })

/-- The capacity that a request asks for, rounded up. -/
def roundCapacity (size : Nat) : Nat :=
  let base := if size = 0 then pipeBuf else max size pipeBuf
  (base + (pipeBuf - 1)) / pipeBuf * pipeBuf

/-- The second half of `set_pipe_size`: the bytes move to the start of the array. -/
def relinearize (newCapacity : Nat) : Option PipeRingBuffer :=
  let used := r.availableRead
  if used = 0 then some { r with capacity := newCapacity, head := 0, tail := 0, status := .empty }
  else
    (r.arr.bind fun arr => copyOut arr r.head (min used (r.capacity - r.head)) used).bind fun data =>
      if used ≤ r.ensureBacking.length then
        some
          { arr := some (Cyclic.splice r.ensureBacking 0 data)
            capacity := newCapacity
            head := 0
            tail := if used = newCapacity then 0 else used
            status := if used = newCapacity then .full else .normal }
      else none

/-- `set_pipe_size`: the new capacity or an error, and the ring. -/
def setPipeSize (limits : PipeLimits) (size : Nat) :
    Option (Except SyscallError Nat × PipeRingBuffer) :=
  if size > 2 ^ 31 then some (.error .einval, r)
  else
    let newCapacity := roundCapacity size
    if limits.capSysResource = false ∧ newCapacity > limits.limit.value then some (.error .eperm, r)
    else if newCapacity > maxPipeCapacity then some (.error .einval, r)
    else if newCapacity = r.capacity then some (.ok r.capacity, r)
    else if r.availableRead > newCapacity then some (.error .ebusy, r)
    else (r.relinearize newCapacity).map fun r' => (.ok newCapacity, r')

end PipeRingBuffer

/-! ### What a ring holds -/

/-- The bytes of a ring, in order. -/
def PipeRingBuffer.contents (r : PipeRingBuffer) : List UInt8 :=
  Cyclic.window (r.arr.getD []) r.capacity r.head r.availableRead

/-- **The ring is well formed.** -/
structure RingOk (r : PipeRingBuffer) : Prop where
  least : pipeBuf ≤ r.capacity
  greatest : r.capacity ≤ maxPipeCapacity
  head : r.head < r.capacity
  tail : r.tail < r.capacity
  /-- The status is needed only where head and tail meet. -/
  status : r.status = .normal ↔ r.head ≠ r.tail
  backing : ∀ arr, r.arr = some arr → arr.length = maxPipeCapacity
  /-- Without an array there are no bytes. -/
  backed : r.arr = none → r.status = .empty

/-- The ring is well formed and its bytes are `q`. -/
structure Holds (r : PipeRingBuffer) (q : List UInt8) : Prop where
  ok : RingOk r
  contents : r.contents = q

namespace RingOk

open PipeRingBuffer

variable {r : PipeRingBuffer}

section

variable (h : RingOk r)

include h

theorem capacity_pos : 0 < r.capacity := Nat.lt_of_lt_of_le (by decide) h.least

theorem head_eq_tail (hs : r.status ≠ .normal) : r.head = r.tail :=
  not_not.mp (mt h.status.mpr hs)

theorem availableRead_le : r.availableRead ≤ r.capacity := by
  have htail := h.tail
  unfold availableRead
  cases hs : r.status with
  | full | empty => simp
  | normal =>
    simp only [reduceCtorEq, if_false]
    split <;> omega

/-- **Room and bytes together are the capacity.** -/
theorem available : r.availableRead + r.availableWrite = r.capacity := by
  have hle := h.availableRead_le
  unfold availableWrite
  split
  · next hs => simp [availableRead, hs]
  · omega

/-- The tail is where the bytes end. -/
theorem tail_eq : r.tail = (r.head + r.availableRead) % r.capacity := by
  have hhead := h.head
  have htail := h.tail
  unfold availableRead
  cases hs : r.status with
  | full | empty => simp [h.head_eq_tail (by simp [hs]), mod_eq_of_lt htail]
  | normal =>
    simp only [reduceCtorEq, if_false]
    split
    · rw [Nat.add_sub_cancel' (by omega), mod_eq_of_lt htail]
    · rw [show r.head + (r.tail + r.capacity - r.head) = r.tail + r.capacity by omega,
        add_mod_right, mod_eq_of_lt htail]

end

/-- The status follows from head, tail and whether there are bytes. -/
theorem availableRead_of_ends {head tail n : Nat} (hhead : head < r.capacity) (hn : n ≤ r.capacity)
    (htail : tail = (head + n) % r.capacity) (status : RingBufferStatus)
    (hstatus : status = if head = tail then (if n = 0 then .empty else .full) else .normal) :
    ({ r with head := head, tail := tail, status := status } : PipeRingBuffer).availableRead = n := by
  have hcases : head + n < r.capacity ∧ tail = head + n ∨
    r.capacity ≤ head + n ∧ tail = head + n - r.capacity := by
    rcases Nat.lt_or_ge (head + n) r.capacity with hlt | hge
    · exact .inl ⟨hlt, htail.trans (mod_eq_of_lt hlt)⟩
    · exact .inr ⟨hge, by rw [htail, mod_eq_sub_mod hge, mod_eq_of_lt (by omega)]⟩
  unfold availableRead
  split at hstatus
  · split at hstatus
    · next hzero => simp [hstatus, hzero]
    · simp only [hstatus, reduceCtorEq, if_false, if_true]
      omega
  · simp only [hstatus, reduceCtorEq, if_false]
    split <;> omega

end RingOk

namespace Holds

open PipeRingBuffer

variable {r : PipeRingBuffer} {q : List UInt8}

section

variable (h : Holds r q)

include h

theorem length : r.availableRead = q.length := by
  rw [← h.contents, PipeRingBuffer.contents, length_window]

theorem room : r.availableWrite = r.capacity - q.length := by
  have := h.ok.available
  rw [h.length] at this
  omega

theorem fits : q.length ≤ r.capacity := h.length ▸ h.ok.availableRead_le

theorem backing (hq : q ≠ []) : ∃ arr, r.arr = some arr ∧ arr.length = maxPipeCapacity ∧
    window arr r.capacity r.head q.length = q := by
  cases harr : r.arr with
  | none =>
    have hlen := h.length
    simp only [availableRead, h.ok.backed harr] at hlen
    exact absurd (length_eq_zero_iff.mp hlen.symm) hq
  | some arr =>
    refine ⟨arr, rfl, h.ok.backing arr harr, ?_⟩
    have := h.contents
    rwa [PipeRingBuffer.contents, harr, h.length] at this

/-- The copies out of the array are the first bytes. -/
theorem copyOut {n : Nat} (hn : n ≠ 0) (hle : n ≤ q.length) :
    (r.arr.bind fun arr => copyOut arr r.head (min n (r.capacity - r.head)) n) = some (q.take n) := by
  have hq : q ≠ [] := by
    rintro rfl
    exact hn (le_zero.mp hle)
  obtain ⟨arr, harr, hlen, hwin⟩ := h.backing hq
  have hhead := h.ok.head
  have hgreatest := h.ok.greatest
  have hfits := h.fits
  rw [harr, bind_some, PipeRingBuffer.copyOut, if_pos (by omega), window_eq_copies hhead (by omega) (by omega)]
  congr 1
  calc window arr r.capacity r.head n = (window arr r.capacity r.head n ++
          window arr r.capacity (r.head + n) (q.length - n)).take n := by
        rw [take_left' length_window]
    _ = (window arr r.capacity r.head q.length).take n := by rw [← window_add, Nat.add_sub_cancel' hle]
    _ = q.take n := by rw [hwin]

/-- **Peeking.** -/
theorem peekInto_spec (len : Nat) : r.peekInto len = some (q.take len) := by
  have htake : q.take len = q.take (min len q.length) := by rw [← take_take, take_length]
  unfold peekInto
  rw [h.length]
  dsimp only
  split
  · next hzero => rw [htake, hzero, take_zero]
  · next hzero => rw [h.copyOut hzero (Nat.min_le_right ..), ← htake]

/-- **Reading.** -/
theorem readIntoSlice_spec (len : Nat) :
    ∃ r', r.readIntoSlice len = some (q.take len, r') ∧ Holds r' (q.drop len) ∧ r'.capacity = r.capacity := by
  have htake : q.take len = q.take (min len q.length) := by rw [← take_take, take_length]
  have hdrop : q.drop len = q.drop (min len q.length) := by
    rcases Nat.le_total len q.length with hle | hge
    · rw [Nat.min_eq_left hle]
    · rw [Nat.min_eq_right hge, drop_length, drop_eq_nil_of_le hge]
  unfold readIntoSlice
  rw [h.length]
  by_cases hzero : min len q.length = 0
  · refine ⟨r, by rw [if_pos hzero, htake, hzero, take_zero], ?_, rfl⟩
    rwa [hdrop, hzero]
  have hle : min len q.length ≤ q.length := Nat.min_le_right ..
  generalize min len q.length = n at *
  rw [if_neg hzero, h.copyOut hzero hle, htake, hdrop]
  refine ⟨_, rfl, ?_, rfl⟩
  obtain ⟨arr, harr, -, hwin⟩ := h.backing (by rintro rfl; exact hzero (le_zero.mp hle))
  have hcap := h.ok.capacity_pos
  have hhead : (r.head + n) % r.capacity < r.capacity := mod_lt _ hcap
  have hfits := h.fits
  have htail : r.tail = ((r.head + n) % r.capacity + (q.length - n)) % r.capacity := by
    rw [mod_add_mod, Nat.add_assoc, Nat.add_sub_cancel' hle, h.ok.tail_eq, h.length]
  have havail : ({ r with
      head := (r.head + n) % r.capacity
      status := if (r.head + n) % r.capacity = r.tail then .empty else .normal } :
        PipeRingBuffer).availableRead = q.length - n := by
    refine RingOk.availableRead_of_ends hhead (by omega) htail _ ?_
    by_cases hmeet : (r.head + n) % r.capacity = r.tail
    · -- all bytes are read: with some left, fewer than the capacity, head and tail would differ
      have hall : q.length - n = 0 := by
        by_contra hsome
        exact add_mod_ne_self hhead (by omega) (by omega) (htail.symm.trans hmeet.symm)
      simp [hall]
    · simp [hmeet]
  refine ⟨⟨h.ok.least, h.ok.greatest, hhead, h.ok.tail, ?_, h.ok.backing, fun hnone => ?_⟩, ?_⟩
  · split <;> next hmeet => simp [hmeet]
  · rw [harr] at hnone
    cases hnone
  unfold PipeRingBuffer.contents
  rw [havail, harr, window_mod]
  have hsplit : q = window arr r.capacity r.head n ++ window arr r.capacity (r.head + n) (q.length - n) := by
    rw [← window_add, Nat.add_sub_cancel' hle, hwin]
  exact (drop_left' length_window).symm.trans (congrArg (drop n) hsplit.symm)

/-- The array, or the one that is made, holds the bytes. -/
theorem ensureBacking : r.ensureBacking.length = maxPipeCapacity ∧
    window r.ensureBacking r.capacity r.head q.length = q := by
  by_cases hq : q = []
  · subst hq
    refine ⟨?_, rfl⟩
    unfold ensureBacking
    cases harr : r.arr with
    | none => simp
    | some arr => exact h.ok.backing arr harr
  · obtain ⟨_, harr, hlen, hwin⟩ := h.backing hq
    unfold PipeRingBuffer.ensureBacking
    rw [harr]
    exact ⟨hlen, hwin⟩

theorem writeFromSliceBytes_spec (src : List UInt8) :
    ∃ r', r.writeFromSliceBytes src = some (min src.length r.availableWrite, r') ∧
      Holds r' (q ++ src.take r.availableWrite) ∧ r'.capacity = r.capacity := by
  have htake : src.take r.availableWrite = src.take (min src.length r.availableWrite) := by
    rw [Nat.min_comm, ← take_take, take_length]
  unfold writeFromSliceBytes
  by_cases hzero : min src.length r.availableWrite = 0
  · refine ⟨r, by rw [if_pos hzero, hzero], ?_, rfl⟩
    rwa [htake, hzero, take_zero, append_nil]
  obtain ⟨hlen, hwin⟩ := h.ensureBacking
  have hroom := h.room
  have hsrc : (src.take (min src.length r.availableWrite)).length = min src.length r.availableWrite := by
    rw [length_take]
    omega
  rw [htake]
  generalize hn : min src.length r.availableWrite = n at *
  have hcap := h.ok.capacity_pos
  have hgreatest := h.ok.greatest
  have htaillt := h.ok.tail
  have hfits : q.length + n ≤ r.capacity := by omega
  have hstore : copyIn r.ensureBacking r.tail (min n (r.capacity - r.tail)) (src.take n) =
      some (store r.ensureBacking r.capacity ((r.head + q.length) % r.capacity) (src.take n)) := by
    rw [copyIn, if_pos (by omega), store, hsrc, ← h.length, ← h.ok.tail_eq]
  rw [if_neg hzero, hstore]
  refine ⟨_, rfl, ?_, rfl⟩
  have htail : (r.tail + n) % r.capacity = (r.head + (q.length + n)) % r.capacity := by
    rw [h.ok.tail_eq, h.length, mod_add_mod, Nat.add_assoc]
  have htail' : (r.tail + n) % r.capacity < r.capacity := mod_lt _ hcap
  have havail : ({ r with
      arr := some (store r.ensureBacking r.capacity ((r.head + q.length) % r.capacity) (src.take n))
      tail := (r.tail + n) % r.capacity
      status := if (r.tail + n) % r.capacity = r.head then .full else .normal } :
        PipeRingBuffer).availableRead = q.length + n := by
    refine RingOk.availableRead_of_ends h.ok.head hfits htail _ ?_
    split
    · next hmeet => rw [if_pos hmeet.symm, if_neg (by omega)]
    · next hmeet => rw [if_neg (Ne.symm hmeet)]
  refine ⟨⟨h.ok.least, h.ok.greatest, h.ok.head, htail', ?_, ?_, nofun⟩, ?_⟩
  · split
    · next hmeet => simp [hmeet]
    · next hmeet => simpa using Ne.symm hmeet
  · intro _ harr
    cases harr
    rw [length_store (mod_lt _ hcap) (by omega) (by omega), hlen]
  unfold PipeRingBuffer.contents
  rw [havail]
  have hstored : q.length + (src.take n).length ≤ r.capacity := by omega
  have hwindow := window_store r.head hcap hstored (show r.capacity ≤ r.ensureBacking.length by omega)
  rwa [hsrc, hwin] at hwindow

/-- The bytes at the start of the array, for another capacity. -/
theorem relinearize_spec {newCapacity : Nat} (hleast : pipeBuf ≤ newCapacity)
    (hgreatest : newCapacity ≤ maxPipeCapacity) (hfits : q.length ≤ newCapacity) :
    ∃ r', r.relinearize newCapacity = some r' ∧ Holds r' q ∧ r'.capacity = newCapacity := by
  have hpos : 0 < newCapacity := Nat.lt_of_lt_of_le (by decide) hleast
  obtain ⟨hlen, -⟩ := h.ensureBacking
  unfold relinearize
  rw [h.length]
  dsimp only
  split
  · next hzero =>
    refine ⟨_, rfl, ⟨⟨hleast, hgreatest, hpos, hpos, by simp, h.ok.backing, fun _ => rfl⟩, ?_⟩, rfl⟩
    rw [length_eq_zero_iff.mp hzero]
    rfl
  next hzero =>
  rw [h.copyOut hzero (Nat.le_refl _), take_length, bind_some, if_pos (by omega)]
  have hspan : (splice r.ensureBacking 0 q).length = maxPipeCapacity := by
    rw [length_splice (by omega), hlen]
  have hwin : window (splice r.ensureBacking 0 q) newCapacity 0 q.length = q := by
    rw [window_eq_slice (by omega) (by omega), drop_zero, splice, take_zero, nil_append, take_left' rfl]
  have htail : (if q.length = newCapacity then 0 else q.length) = (0 + q.length) % newCapacity := by
    rw [Nat.zero_add]
    split
    · next heq => rw [heq, mod_self]
    · rw [mod_eq_of_lt (by omega)]
  refine ⟨_, rfl, ⟨⟨hleast, hgreatest, hpos, ?_, ?_, ?_, (by intros; contradiction)⟩, ?_⟩, rfl⟩
  · dsimp only
    split <;> omega
  · split
    · simp
    · simpa using Ne.symm hzero
  · intro arr harr
    cases harr
    exact hspan
  · have havail : availableRead
        { arr := some (splice r.ensureBacking 0 q)
          capacity := newCapacity
          head := 0
          tail := if q.length = newCapacity then 0 else q.length
          status := if q.length = newCapacity then .full else .normal } = q.length := by
      refine RingOk.availableRead_of_ends (r := ⟨some (splice r.ensureBacking 0 q), newCapacity,
        0, 0, .empty⟩) hpos hfits htail _ ?_
      by_cases heq : q.length = newCapacity
      · rw [if_pos heq, if_pos heq, if_pos rfl, if_neg hzero]
      · rw [if_neg heq, if_neg heq, if_neg (Ne.symm hzero)]
    unfold PipeRingBuffer.contents
    rwa [havail]

end

theorem roundCapacity_least (size : Nat) : pipeBuf ≤ roundCapacity size := by
  unfold roundCapacity pipeBuf
  dsimp only
  split <;> omega

/-- **Changing the capacity** keeps the bytes, whatever the answer is. -/
theorem setPipeSize_spec (h : Holds r q) (limits : PipeLimits) (size : Nat) :
    ∃ res r', r.setPipeSize limits size = some (res, r') ∧ Holds r' q ∧ match res with
      | .ok capacity => r'.capacity = capacity
      | .error _ => r' = r := by
  unfold setPipeSize
  dsimp only
  iterate 5
    split
    · exact ⟨_, r, rfl, h, rfl⟩
  next hmax _ hbusy =>
  obtain ⟨r', hr', hholds, hcap⟩ := h.relinearize_spec (roundCapacity_least size) (by omega)
    (by rw [← h.length]; omega)
  rw [hr']
  exact ⟨_, r', rfl, hholds, hcap⟩

end Holds

/-- A new ring is empty. -/
theorem holds_new (limits : PipeLimits) : Holds (.new limits) [] := by
  have hlower := limits.limit.lower
  have hcap : pipeBuf ≤ defaultPipeCapacityForCurrent limits ∧
      defaultPipeCapacityForCurrent limits ≤ maxPipeCapacity := by
    unfold defaultPipeCapacityForCurrent maxPipeCapacity defaultPipeCapacity
    split <;> omega
  have hpos : 0 < defaultPipeCapacityForCurrent limits := Nat.lt_of_lt_of_le (by decide) hcap.1
  exact ⟨⟨hcap.1, hcap.2, hpos, hpos, by simp [PipeRingBuffer.new], by simp [PipeRingBuffer.new],
    fun _ => rfl⟩, rfl⟩

end HitOS.Pipe
