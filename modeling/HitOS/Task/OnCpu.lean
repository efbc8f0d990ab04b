import Mathlib

/-!
# The on-CPU word of a task

`task/task_block.rs`: `on_cpu` is one atomic word. It holds the number of the hart that runs the
task, or all ones if none does, and its top bit says that a wakeup was deferred. `OnCpu` is what the
word means; the lemmas at the end say that the operations on the word do what those on `OnCpu` do,
for hart numbers below the top bit.
-/

namespace HitOS.Sched

open BitVec

abbrev Hart := Nat

/-! ### What the word means -/

/-- Where a task is, as its word says; `pending` is the deferred wakeup. -/
inductive OnCpu where
  | off
  | on (hart : Nat) (pending : Bool)
  deriving DecidableEq

namespace OnCpu

/-- `running_hart`. -/
def hart? : OnCpu → Option Hart
  | off => none
  | on hart _ => some hart

/-- `defer_wakeup_if_on_cpu`: whether the wakeup was deferred. -/
def defer : OnCpu → OnCpu × Bool
  | off => (off, false)
  | on hart _ => (on hart true, true)

def tryMark (hart : Hart) : OnCpu → OnCpu × Bool
  | off => (on hart false, true)
  | o => (o, false)

/-- The wakeup that `finish_running` takes over from the word. -/
def hasPending : OnCpu → Bool
  | off => false
  | on _ pending => pending

/-- `discard_deferred_wakeup`. -/
def discard : OnCpu → OnCpu
  | off => off
  | on hart _ => on hart false

@[simp]
theorem hart?_defer (o : OnCpu) : o.defer.1.hart? = o.hart? := by cases o <;> rfl

@[simp]
theorem hart?_discard (o : OnCpu) : o.discard.hart? = o.hart? := by cases o <;> rfl

end OnCpu

/-! ### The word -/

def offCpu : BitVec 64 := BitVec.allOnes 64

def wakePendingBit : BitVec 64 := BitVec.twoPow 64 63

/-- `defer_wakeup_if_on_cpu`, a `fetch_or`. -/
def deferWakeupIfOnCpu (word : BitVec 64) : BitVec 64 × Bool := (word ||| wakePendingBit, word != offCpu)

/-- `try_mark_on_cpu`, a `compare_exchange`. -/
def tryMarkOnCpu (word : BitVec 64) (hart : Hart) : BitVec 64 × Bool :=
  if word = offCpu then (BitVec.ofNat 64 hart, true) else (word, false)

/-- `finish_running`, a `swap`: whether a wakeup was deferred. -/
def finishRunning (word : BitVec 64) : BitVec 64 × Bool :=
  (offCpu, !(word == offCpu || word &&& wakePendingBit == 0))

def discardDeferredWakeup (word : BitVec 64) : BitVec 64 :=
  if word ≠ offCpu ∧ word &&& wakePendingBit ≠ 0 then word &&& ~~~wakePendingBit else word

/-- The word of a meaning. -/
def OnCpu.word : OnCpu → BitVec 64
  | .off => offCpu
  | .on hart pending => if pending then BitVec.ofNat 64 hart ||| wakePendingBit else BitVec.ofNat 64 hart

section Word

variable {hart : Nat}

section

variable (h : hart < 2 ^ 63)

include h

/-- Bit 63 of a hart number is not set. -/
theorem getLsbD_hart : (BitVec.ofNat 64 hart).getLsbD 63 = false := by
  rw [getLsbD_ofNat, Nat.testBit_lt_two_pow h]
  rfl

theorem hart_and_pendingBit : BitVec.ofNat 64 hart &&& wakePendingBit = 0 := by
  ext i hi
  by_cases h63 : i = 63
  · have := getLsbD_hart h
    simp_all [wakePendingBit]
  · simp [wakePendingBit, h63]

theorem hart_and_not_pendingBit : BitVec.ofNat 64 hart &&& ~~~wakePendingBit = BitVec.ofNat 64 hart := by
  ext i hi
  by_cases h63 : i = 63
  · have := getLsbD_hart h
    simp_all [wakePendingBit]
  · simp [wakePendingBit, h63]

theorem hart_or_and_pendingBit :
    (BitVec.ofNat 64 hart ||| wakePendingBit) &&& wakePendingBit = wakePendingBit := by
  rw [and_or_distrib_right, hart_and_pendingBit h]
  exact zero_or

theorem hart_or_and_not_pendingBit :
    (BitVec.ofNat 64 hart ||| wakePendingBit) &&& ~~~wakePendingBit = BitVec.ofNat 64 hart := by
  rw [and_or_distrib_right, hart_and_not_pendingBit h]
  exact or_zero

theorem hart_ne_offCpu : BitVec.ofNat 64 hart ≠ offCpu := by
  intro heq
  have hbit := congrArg (fun w => w.getLsbD 63) heq
  rw [getLsbD_hart h] at hbit
  cases hbit

end

/-- The word of a hart with a deferred wakeup is not all ones, as no hart has the number `2 ^ 63 -
1`. -/
theorem hart_or_ne_offCpu (h : hart < 2 ^ 63 - 1) : BitVec.ofNat 64 hart ||| wakePendingBit ≠ offCpu := by
  intro heq
  have hlow : BitVec.ofNat 64 hart = offCpu &&& ~~~wakePendingBit := by
    rw [← heq, hart_or_and_not_pendingBit (by omega)]
  have hnat := congrArg BitVec.toNat hlow
  rw [toNat_ofNat] at hnat
  have hval : (offCpu &&& ~~~wakePendingBit).toNat = 2 ^ 63 - 1 := by decide
  omega

end Word

/-! ### The operations on the word -/

theorem word_ne_offCpu {hart : Nat} {pending : Bool} (h : hart < 2 ^ 63 - 1) :
    (OnCpu.on hart pending).word ≠ offCpu := by
  cases pending with
  | true => exact hart_or_ne_offCpu h
  | false => exact hart_ne_offCpu (by omega)

theorem word_and_pendingBit {hart : Nat} {pending : Bool} (h : hart < 2 ^ 63) :
    (OnCpu.on hart pending).word &&& wakePendingBit = if pending then wakePendingBit else 0 := by
  cases pending with
  | true => exact hart_or_and_pendingBit h
  | false => exact hart_and_pendingBit h

section Operations

variable {o : OnCpu} (h : ∀ hart : Nat, o.hart? = some hart → hart < 2 ^ 63 - 1)

include h

theorem deferWakeupIfOnCpu_word : deferWakeupIfOnCpu o.word = (o.defer.1.word, o.defer.2) := by
  cases o with
  | off => decide
  | on hart pending =>
  have hset : (OnCpu.on hart pending).word ||| wakePendingBit = (OnCpu.on hart true).word := by
    cases pending with
    | true => simp [OnCpu.word, BitVec.or_assoc]
    | false => rfl
  simp only [deferWakeupIfOnCpu, hset, OnCpu.defer, bne_iff_ne.mpr (word_ne_offCpu (h hart rfl))]

theorem finishRunning_word : finishRunning o.word = (OnCpu.off.word, o.hasPending) := by
  cases o with
  | off => decide
  | on hart pending =>
  have hlt := h hart rfl
  unfold finishRunning
  rw [beq_eq_false_iff_ne.mpr (word_ne_offCpu hlt), word_and_pendingBit (by omega)]
  cases pending <;> rfl

theorem discardDeferredWakeup_word : discardDeferredWakeup o.word = o.discard.word := by
  cases o with
  | off => decide
  | on hart pending =>
  have hlt := h hart rfl
  unfold discardDeferredWakeup
  rw [word_and_pendingBit (by omega)]
  cases pending with
  | true =>
    rw [if_pos ⟨word_ne_offCpu hlt, by decide⟩]
    exact hart_or_and_not_pendingBit (by omega)
  | false => exact if_neg fun hc => hc.2 rfl

/-- **The operations on the word do what those on its meaning do.** -/
theorem word_refines (hart : Hart) : deferWakeupIfOnCpu o.word = (o.defer.1.word, o.defer.2) ∧
    tryMarkOnCpu o.word hart = ((o.tryMark hart).1.word, (o.tryMark hart).2) ∧
    finishRunning o.word = (OnCpu.off.word, o.hasPending) ∧ discardDeferredWakeup o.word = o.discard.word := by
  refine ⟨deferWakeupIfOnCpu_word h, ?_, finishRunning_word h, discardDeferredWakeup_word h⟩
  cases o with
  | off => rfl
  | on => exact if_neg (word_ne_offCpu (h _ rfl))

end Operations

theorem word_refines_pending : finishRunning (OnCpu.on 0 true).word = (offCpu, true) :=
  (@word_refines (.on 0 true) (fun _ h => by cases h; decide) 0).2.2.1

end HitOS.Sched
