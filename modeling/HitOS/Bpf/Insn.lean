import Mathlib

/-!
# eBPF instructions

The instruction layout and the opcode tables of `bpf/uapi.rs`. The verifier and the interpreter
select on an instruction in the same way; `BpfInsn.form`, `BpfInsn.aluOp` and `BpfInsn.jmpOp` are
those selections.
-/

namespace HitOS.Bpf

/-- `BpfInsn`: the 8-byte instruction. -/
structure BpfInsn where
  code : BitVec 8
  regs : BitVec 8
  off : BitVec 16
  imm : BitVec 32
  deriving DecidableEq, Repr, Inhabited

abbrev maxBpfReg : Nat := 11

instance regNeZero : NeZero maxBpfReg := ⟨by decide⟩

def bpfStackSize : Nat := 512

def bpfPseudoMapFd : Nat := 1

def bpfFuncMapLookupElem : BitVec 32 := 1

/-- A register number below `MAX_BPF_REG`. -/
abbrev Reg := Fin maxBpfReg

/-- The operand widths `BPF_B`, `BPF_H`, `BPF_W` and `BPF_DW`. -/
inductive Width where
  | b
  | h
  | w
  | dw
  deriving DecidableEq, Repr

/-- `size_to_len`. -/
def Width.toLen : Width → Nat
  | b => 1
  | h => 2
  | w => 4
  | dw => 8

/-- The arms of the `match` on the instruction class, with their guards on mode and width. -/
inductive Form where
  /-- `BPF_LD | BPF_IMM | BPF_DW` -/
  | ldImm64
  | ldxMem
  | stMem
  | stxMem
  | alu (is64 : Bool)
  | jmp
  | unsupported
  deriving DecidableEq, Repr

/-- The ALU operations the code names. -/
inductive AluOp where
  | add
  | sub
  | div
  | lsh
  | rsh
  | mod
  | mov
  | other
  deriving DecidableEq, Repr

/-- The jump operations the code names. -/
inductive JmpOp where
  | jeq
  | jne
  | call
  | exit
  | other
  deriving DecidableEq, Repr

/-- `insns[pc]`, read only below the length. -/
def insnAt (insns : List BpfInsn) (pc : Nat) : BpfInsn := insns.getD pc default

namespace BpfInsn

variable (insn : BpfInsn)

/-- `dst_reg`: the low four bits of `regs`. -/
def dstReg : Nat := (insn.regs &&& 0x0f).toNat

/-- `src_reg`: the high four bits of `regs`. -/
def srcReg : Nat := (insn.regs >>> 4).toNat

/-- `code & BPF_SIZE_MASK`. -/
def width : Width :=
  if insn.code &&& 0x18 = 0x00 then .w
  else if insn.code &&& 0x18 = 0x08 then .h
  else if insn.code &&& 0x18 = 0x10 then .b
  else .dw

/-- `code & BPF_CLASS_MASK`, with the guards of the arms. -/
def form : Form :=
  if insn.code &&& 0x07 = 0x00 then
    if insn.code &&& 0xe0 = 0x00 ∧ insn.width = .dw then .ldImm64 else .unsupported
  else if insn.code &&& 0x07 = 0x01 then
    if insn.code &&& 0xe0 = 0x60 then .ldxMem else .unsupported
  else if insn.code &&& 0x07 = 0x02 then
    if insn.code &&& 0xe0 = 0x60 then .stMem else .unsupported
  else if insn.code &&& 0x07 = 0x03 then
    if insn.code &&& 0xe0 = 0x60 then .stxMem else .unsupported
  else if insn.code &&& 0x07 = 0x04 then .alu false
  else if insn.code &&& 0x07 = 0x05 then .jmp
  else if insn.code &&& 0x07 = 0x07 then .alu true
  else .unsupported

/-- `code & BPF_OP_MASK` of an ALU instruction. -/
def aluOp : AluOp :=
  if insn.code &&& 0xf0 = 0x00 then .add
  else if insn.code &&& 0xf0 = 0x10 then .sub
  else if insn.code &&& 0xf0 = 0x30 then .div
  else if insn.code &&& 0xf0 = 0x60 then .lsh
  else if insn.code &&& 0xf0 = 0x70 then .rsh
  else if insn.code &&& 0xf0 = 0x90 then .mod
  else if insn.code &&& 0xf0 = 0xb0 then .mov
  else .other

/-- `code & BPF_OP_MASK` of a jump. -/
def jmpOp : JmpOp :=
  if insn.code &&& 0xf0 = 0x10 then .jeq
  else if insn.code &&& 0xf0 = 0x50 then .jne
  else if insn.code &&& 0xf0 = 0x80 then .call
  else if insn.code &&& 0xf0 = 0x90 then .exit
  else .other

/-- `(code & BPF_SRC_MASK) == BPF_X`: the second operand is a register. -/
def srcIsReg : Bool := insn.code &&& 0x08 = 0x08

/-- The pseudo source of a 64-bit immediate load is `BPF_PSEUDO_MAP_FD`. -/
def loadsMapFd : Bool := insn.srcReg = bpfPseudoMapFd

/-- The second slot of a 64-bit immediate load has code 0, which is no instruction. -/
theorem form_of_code_eq_zero {insn : BpfInsn} (h : insn.code = 0) : insn.form = .unsupported := by
  simp [form, width, h]

end BpfInsn

end HitOS.Bpf
