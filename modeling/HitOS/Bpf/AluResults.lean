import HitOS.Bpf.MemorySafety

/-!
# The numbers eBPF arithmetic computes

`aluResult` says in plain arithmetic what an operation on two numbers of `w` bits gives. The
interpreter computes it exactly for the operations it implements (`alu_result_of_accepted`), unless
a 32-bit move copies a register whole (`mov32_keeps_high_half`), or 32-bit arithmetic on a pointer,
which ignores the width, passes it.
-/

namespace HitOS.Bpf

open Nat Function OrdMap

/-- The result of an operation on two numbers below `2 ^ w`. A quotient by zero is zero, and the
remainder by zero is the dividend. -/
def aluResult (w : Nat) (op : AluOp) (d s : Nat) : Nat :=
  match op with
  | .add => (d + s) % 2 ^ w
  | .sub => (d + (2 ^ w - s)) % 2 ^ w
  | .div => d / s
  | .lsh => d * 2 ^ (s % w) % 2 ^ w
  | .rsh => d / 2 ^ (s % w)
  | .mod => d % s
  | .mov => s
  | .other => 0

/-- The width of an operation. -/
def aluWidth (is64 : Bool) : Nat := if is64 then 64 else 32

/-- The low bits of a number that an operation reads. -/
def lowBits (is64 : Bool) (x : BitVec 64) : Nat := x.toNat % 2 ^ aluWidth is64

/-- The arithmetic that is computed at its width: what `exec_alu` implements, in 32 bits on a
pointer if the result of 64 bits fits, and moves, in 32 bits of a register if this fits. -/
def AluOp.Computes (op : AluOp) (v : RuntimeValue) (is64 srcIsReg : Bool) (x : BitVec 64) : Prop :=
  if op = .mov then is64 = true ∨ srcIsReg = false ∨ x.toNat < 2 ^ 32
  else
    match v with
    | .framePtr | .stackPtr _ | .packetPtr _ => op.implemented v is64 = true ∧
        (is64 = true ∨ aluResult 64 op v.asU64.toNat x.toNat < 2 ^ 32)
    | .mapValuePtr .. => False
    | .scalar _ | .null | .mapFd _ => op.implemented v is64 = true

theorem toNat_and_63 {x : BitVec 64} : (x &&& 63).toNat = x.toNat % 64 := by
  exact and_two_pow_sub_one_eq_mod _ 6

theorem toNat_and_31 {x : BitVec 32} : (x &&& 31).toNat = x.toNat % 32 := by
  exact and_two_pow_sub_one_eq_mod _ 5

theorem lowBits_true {x : BitVec 64} : lowBits true x = x.toNat := mod_eq_of_lt x.isLt

variable {op : AluOp} {x : BitVec 64}

/-- Numbers of 64 bits. -/
theorem execAlu64_result (cur x : BitVec 64) (h : op = .add ∨ op = .sub ∨ op = .lsh ∨ op = .rsh) :
    ∃ y, execAlu64 cur op x = .ok y ∧ y.toNat = aluResult 64 op cur.toNat x.toNat := by
  rcases h with rfl | rfl | rfl | rfl <;> refine ⟨_, rfl, ?_⟩
  · exact BitVec.toNat_add ..
  · rw [BitVec.toNat_sub, add_comm]
    rfl
  · rw [toNat_and_63, BitVec.toNat_shiftLeft, shiftLeft_eq]
    rfl
  · rw [toNat_and_63, BitVec.toNat_ushiftRight, shiftRight_eq_div_pow]
    rfl

/-- Numbers of 32 bits. -/
theorem execAlu32_result (cur x : BitVec 64) (h : op = .div ∨ op = .mod ∨ op = .sub ∨ op = .rsh) :
    ∃ y, execAlu32 cur op x = .ok y ∧ y.toNat = aluResult 32 op (cur.toNat % 2 ^ 32) (x.toNat % 2 ^ 32) := by
  have hwide : ∀ y : BitVec 32, (y.setWidth 64).toNat = y.toNat := fun y =>
    BitVec.toNat_setWidth_of_le (by decide)
  have hlow : ∀ y : BitVec 64, (y.setWidth 32).toNat = y.toNat % 2 ^ 32 := BitVec.toNat_setWidth 32
  have hzero : x.setWidth 32 = 0 → x.toNat % 2 ^ 32 = 0 := fun hz => by
    rw [← hlow, hz]
    rfl
  rcases h with rfl | rfl | rfl | rfl <;> refine ⟨_, rfl, ?_⟩
  · split
    · next hz =>
      rw [aluResult, hzero hz, Nat.div_zero]
      rfl
    · rfl
  · split
    · next hz => rw [hwide, hlow, aluResult, hzero hz, mod_zero]
    · rfl
  · rw [hwide, BitVec.toNat_sub, add_comm]
    rfl
  · rw [hwide, toNat_and_31, BitVec.toNat_ushiftRight, shiftRight_eq_div_pow]
    rfl

/-- Arithmetic on a pointer is right if it is in 64 bits, or its result fits in 32. -/
theorem execPtrAlu_result {mk : BitVec 64 → RuntimeValue} {cur : BitVec 64} {is64 : Bool}
    (hmk : ∀ y, (mk y).asU64 = y) (hop : op = .add ∨ op = .sub) :
    (∃ y, execPtrAlu mk cur op x = .ok y ∧
      y.asU64.toNat = aluResult (aluWidth is64) op (lowBits is64 cur) (lowBits is64 x)) ↔
    is64 = true ∨ aluResult 64 op cur.toNat x.toNat < 2 ^ 32 := by
  obtain ⟨y, hy, hres⟩ := execAlu64_result cur x (by tauto)
  have hptr : execPtrAlu mk cur op x = .ok (mk y) := by
    rcases hop with rfl | rfl <;> cases hy <;> rfl
  rw [hptr, ← hres]
  simp only [Except.ok.injEq, exists_eq_left', hmk]
  cases is64 with
  | true =>
    rw [lowBits_true, lowBits_true]
    exact iff_of_true hres (.inl rfl)
  | false =>
    -- the result in 32 bits is the low half of the other
    have hlow : aluResult 32 op (lowBits false cur) (lowBits false x) = y.toNat % 2 ^ 32 := by
      rw [hres]
      rcases hop with rfl | rfl <;>
        simp only [aluResult, lowBits, aluWidth, Bool.false_eq_true, if_false] <;> omega
    change y.toNat = aluResult 32 op _ _ ↔ _
    rw [hlow]
    simp only [Bool.false_eq_true, false_or]
    omega

/-- What `exec_alu` leaves in the destination. -/
theorem execAlu_result {v : RuntimeValue} {is64 srcIsReg : Bool} (hop : op ≠ .mov) :
    (∃ y, execAlu v op x is64 = .ok y ∧
      y.asU64.toNat = aluResult (aluWidth is64) op (lowBits is64 v.asU64) (lowBits is64 x)) ↔
    op.Computes v is64 srcIsReg x := by
  unfold AluOp.Computes
  rw [if_neg hop]
  cases himp : op.implemented v is64 with
  | false =>
    refine iff_of_false ?_ (by cases v <;> simp)
    rintro ⟨y, hy, -⟩
    rw [(execAlu_error hop).1.mpr himp] at hy
    cases hy
  | true =>
    have hnum (cur : BitVec 64) (himp : op.implemented .null is64 = true) :
        ∃ y, (do let r ← execScalarAlu cur op x is64; .ok (.scalar r)) =
          (.ok y : Except SyscallError RuntimeValue) ∧
          y.asU64.toNat = aluResult (aluWidth is64) op (lowBits is64 cur) (lowBits is64 x) := by
      cases is64 with
      | true =>
        obtain ⟨y, hy, hres⟩ := execAlu64_result cur x (by simpa [AluOp.implemented, or_assoc] using himp)
        rw [lowBits_true, lowBits_true, execScalarAlu, hy]
        exact ⟨_, rfl, hres⟩
      | false =>
        obtain ⟨y, hy, hres⟩ := execAlu32_result cur x (by simpa [AluOp.implemented, or_assoc] using himp)
        rw [execScalarAlu, hy]
        exact ⟨_, rfl, hres⟩
    cases v with
    | framePtr | stackPtr | packetPtr =>
      dsimp only
      rw [and_iff_right rfl]
      exact execPtrAlu_result (fun _ => rfl) (by simpa [AluOp.implemented] using himp)
    | mapValuePtr => exact iff_of_false (by rintro ⟨_, ⟨⟩, -⟩) id
    | scalar v => exact iff_of_true (hnum v himp) rfl
    | null => exact iff_of_true (hnum 0 himp) rfl
    | mapFd fd => exact iff_of_true (hnum (fd.setWidth 64) himp) rfl

/-- What a move leaves in the destination. -/
theorem movValue_result {insn : BpfInsn} {is64 : Bool} {s : BpfState} {src : Reg} (hsrc : insn.srcReg = src)
    (hx : operand insn s = .ok x) : (∃ v, movValue insn is64 s = .ok v ∧ v.asU64.toNat = lowBits is64 x) ↔
      is64 = true ∨ insn.srcIsReg = false ∨ x.toNat < 2 ^ 32 := by
  unfold operand at hx
  unfold movValue
  split
  · next hreg =>
    rw [if_pos hreg, hsrc, regIndex_val] at hx
    cases hx
    rw [hsrc, regIndex_val, hreg]
    change (∃ v, Except.ok (s.regs src) = .ok v ∧ _) ↔ _
    simp only [Except.ok.injEq, exists_eq_left', reduceCtorEq, false_or]
    cases is64 with
    | true => exact iff_of_true lowBits_true.symm (.inl rfl)
    | false =>
      simp only [lowBits, aluWidth, Bool.false_eq_true, if_false, false_or]
      omega
  · next hreg =>
    rw [if_neg hreg] at hx
    cases hx
    refine iff_of_true ⟨_, rfl, ?_⟩ (.inr (.inl (eq_false_of_ne_true hreg)))
    cases is64
    · have hlow : (insn.imm.signExtend 64).setWidth 32 = insn.imm := by
        ext i hi
        have hi' : i < 64 := by omega
        simp [BitVec.getElem_signExtend, hi, hi']
      change (insn.imm.setWidth 64).toNat = (insn.imm.signExtend 64).toNat % 2 ^ 32
      rw [← BitVec.toNat_setWidth, hlow]
      exact BitVec.toNat_setWidth_of_le (by decide)
    · rw [lowBits_true]
      rfl

/-- **The results of eBPF arithmetic.** In every state, an arithmetic instruction of an accepted
program leaves its result in the destination, and the other registers as they were, if and only if
it is computed at its width. -/
theorem alu_result_of_accepted {insns : List BpfInsn} (hv : verifyProgram insns = .ok ()) (packet : List Byte)
    {s : BpfState} (hlt : s.pc < insns.length) {is64 : Bool} (hform : (insnAt insns s.pc).form = .alu is64) :
    ∃ (dst : Reg) (x : BitVec 64), (insnAt insns s.pc).dstReg = dst ∧ operand (insnAt insns s.pc) s = .ok x ∧
      ((∃ s', step insns packet s = .ok (.next s') ∧
          (s'.regs dst).asU64.toNat = aluResult (aluWidth is64) (insnAt insns s.pc).aluOp
            (lowBits is64 (s.regs dst).asU64) (lowBits is64 x) ∧
          ∀ r, r ≠ dst → s'.regs r = s.regs r) ↔
        (insnAt insns s.pc).aluOp.Computes (s.regs dst) is64 (insnAt insns s.pc).srcIsReg x) := by
  obtain ⟨dst, src, hdst, hsrc⟩ := regs_of_supported hv hlt (by rw [hform]; rintro ⟨⟩)
  obtain ⟨x, hx⟩ := operand_eq_ok hsrc
  refine ⟨dst, x, hdst, hx, ?_⟩
  have hround : step insns packet s = (stepAlu (insnAt insns s.pc) is64 s).map .next := by
    rw [step, if_neg (by simp [hform, hlt])]
    simp only [stepNext, hform]
    rfl
  -- the round assigns a value, or fails to compute one
  have hassign (value : Except Halt RuntimeValue) (n : Nat)
      (hvalue : stepAlu (insnAt insns s.pc) is64 s = value.map fun v => (s.setReg dst v).skip 1) :
      (∃ s', step insns packet s = .ok (.next s') ∧ (s'.regs dst).asU64.toNat = n ∧
        ∀ r, r ≠ dst → s'.regs r = s.regs r) ↔ ∃ v, value = .ok v ∧ v.asU64.toNat = n := by
    rw [hround, hvalue]
    cases value with
    | error => exact iff_of_false (by rintro ⟨_, ⟨⟩, -⟩) (by rintro ⟨_, ⟨⟩, -⟩)
    | ok v =>
      have hreg : ((s.setReg dst v).skip 1).regs dst = v := update_self ..
      constructor
      · rintro ⟨_, ⟨⟩, hnum, -⟩
        exact ⟨v, rfl, hreg ▸ hnum⟩
      · rintro ⟨_, ⟨⟩, hnum⟩
        exact ⟨_, rfl, hreg.symm ▸ hnum, fun r hr => update_of_ne hr ..⟩
  by_cases hop : (insnAt insns s.pc).aluOp = .mov
  · rw [hassign (movValue (insnAt insns s.pc) is64 s) _ ?_, AluOp.Computes.eq_def, if_pos hop, hop]
    · exact movValue_result hsrc hx
    · rw [stepAlu, if_pos hop, hdst, regIndex_val]
      rfl
  · rw [hassign (orHalt (execAlu (s.regs dst) (insnAt insns s.pc).aluOp x is64)) _ ?_, ← execAlu_result hop]
    · cases execAlu (s.regs dst) (insnAt insns s.pc).aluOp x is64 <;> simp [orHalt, Except.mapError]
    · rw [stepAlu, if_neg hop, hx, hdst, regIndex_val]
      rfl

/-- `r0 = 0x100000001 ll; r1 = 3; r0 -= r1` in 32 bits `; exit`. -/
def subtractLowHalf : List BpfInsn :=
  [⟨0x18, 0x00, 0, 1⟩, ⟨0, 0, 0, 1⟩, ⟨0xb7, 0x01, 0, 3⟩, ⟨0x1c, 0x10, 0, 0⟩, ⟨0x95, 0x00, 0, 0⟩]

def beforeSubtract : BpfState :=
  ⟨3, fun r => if r = 0 then .scalar 0x100000001 else .scalar 3, [], empty⟩

/-- The subtraction wraps around in 32 bits. -/
theorem alu_result_of_accepted_subtract : execute subtractLowHalf [] empty 5 = some (.ok 0xfffffffe) ∧
      ∃ s', step subtractLowHalf [] beforeSubtract = .ok (.next s') ∧
        (s'.regs 0).asU64.toNat = aluResult 32 .sub 1 3 := by
  have hv : verifyProgram subtractLowHalf = .ok () := rfl
  have hform : (insnAt subtractLowHalf beforeSubtract.pc).form = .alu false := rfl
  have hthree : operand (insnAt subtractLowHalf beforeSubtract.pc) beforeSubtract = .ok 3 := rfl
  obtain ⟨_, x, hdst, hx, hres⟩ := alu_result_of_accepted hv [] (by decide) hform
  obtain rfl : 3 = x := Except.ok.inj (hthree.symm.trans hx)
  obtain rfl := Fin.ext (b := (0 : Reg)) hdst.symm
  obtain ⟨s', hstep, hnum, -⟩ := hres.mpr rfl
  exact ⟨rfl, s', hstep, hnum⟩

/-- `r0 = 0x100000001 ll; r0 = r0` in 32 bits `; exit`. -/
def moveLowHalf : List BpfInsn := [⟨0x18, 0x00, 0, 1⟩, ⟨0, 0, 0, 1⟩, ⟨0xbc, 0x00, 0, 0⟩, ⟨0x95, 0x00, 0, 0⟩]

/-- A 32-bit move keeps the high half of the register, where the operation on the low halves gives
1. -/
theorem mov32_keeps_high_half : verifyProgram moveLowHalf = .ok () ∧
      execute moveLowHalf [] empty 4 = some (.ok 0x100000001) ∧
      aluResult 32 .mov (lowBits false 0x100000001) (lowBits false 0x100000001) = 1 :=
  ⟨rfl, rfl, rfl⟩

end HitOS.Bpf
