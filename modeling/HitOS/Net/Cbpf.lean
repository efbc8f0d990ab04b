import HitOS.Lib.FuelLoop
import HitOS.Lib.Usize
import HitOS.Syscall.Error

/-!
# Classic BPF socket filters

`syscall/net/cbpf.rs`: the check of a filter at the time it is attached to a socket (`validate`) and
the interpreter that runs it on each packet (`execute`).

Both select on the 16-bit code of an instruction through masks. The selections are functions into
enumerations here; where `validate` compares the whole code instead, so does the model.
-/

namespace HitOS.Cbpf

structure ClassicBpfInsn where
  code : BitVec 16
  jt : BitVec 8
  jf : BitVec 8
  k : BitVec 32
  deriving DecidableEq, Repr

def bpfMaxinsns : Nat := 4096

abbrev bpfMemwords : Nat := 16

def skfAdOff : BitVec 32 := 0xfffff000

/-! ### Decoding -/

/-- `code & BPF_CLASS_MASK`. -/
inductive Class where
  | ld
  | ldx
  | st
  | stx
  | alu
  | jmp
  | ret
  | misc
  deriving DecidableEq, Repr

/-- `code & BPF_SIZE_MASK`. -/
inductive Size where
  | w
  | h
  | b
  | other
  deriving DecidableEq, Repr

/-- `code & BPF_MODE_MASK`. -/
inductive Mode where
  | imm
  | abs
  | ind
  | mem
  | len
  | msh
  | other
  deriving DecidableEq, Repr

/-- `code & BPF_OP_MASK` of an ALU instruction. -/
inductive AluOp where
  | add
  | sub
  | mul
  | div
  | or
  | and
  | lsh
  | rsh
  | neg
  | mod
  | xor
  | other
  deriving DecidableEq, Repr

/-- `code & BPF_OP_MASK` of a jump. -/
inductive JmpOp where
  | ja
  | jeq
  | jgt
  | jge
  | jset
  | other
  deriving DecidableEq, Repr

/-- `code & 0x18` of a return. -/
inductive RetSrc where
  | k
  | a
  | other
  deriving DecidableEq, Repr

/-- `code & BPF_MISCOP_MASK`. -/
inductive MiscOp where
  | tax
  | txa
  | other
  deriving DecidableEq, Repr

variable (code : BitVec 16)

def classOf : Class :=
  if code &&& 0x07 = 0x00 then .ld
  else if code &&& 0x07 = 0x01 then .ldx
  else if code &&& 0x07 = 0x02 then .st
  else if code &&& 0x07 = 0x03 then .stx
  else if code &&& 0x07 = 0x04 then .alu
  else if code &&& 0x07 = 0x05 then .jmp
  else if code &&& 0x07 = 0x06 then .ret
  else .misc

def sizeOf : Size :=
  if code &&& 0x18 = 0x00 then .w
  else if code &&& 0x18 = 0x08 then .h
  else if code &&& 0x18 = 0x10 then .b
  else .other

def modeOf : Mode :=
  if code &&& 0xe0 = 0x00 then .imm
  else if code &&& 0xe0 = 0x20 then .abs
  else if code &&& 0xe0 = 0x40 then .ind
  else if code &&& 0xe0 = 0x60 then .mem
  else if code &&& 0xe0 = 0x80 then .len
  else if code &&& 0xe0 = 0xa0 then .msh
  else .other

def aluOpOf : AluOp :=
  if code &&& 0xf0 = 0x00 then .add
  else if code &&& 0xf0 = 0x10 then .sub
  else if code &&& 0xf0 = 0x20 then .mul
  else if code &&& 0xf0 = 0x30 then .div
  else if code &&& 0xf0 = 0x40 then .or
  else if code &&& 0xf0 = 0x50 then .and
  else if code &&& 0xf0 = 0x60 then .lsh
  else if code &&& 0xf0 = 0x70 then .rsh
  else if code &&& 0xf0 = 0x80 then .neg
  else if code &&& 0xf0 = 0x90 then .mod
  else if code &&& 0xf0 = 0xa0 then .xor
  else .other

def jmpOpOf : JmpOp :=
  if code &&& 0xf0 = 0x00 then .ja
  else if code &&& 0xf0 = 0x10 then .jeq
  else if code &&& 0xf0 = 0x20 then .jgt
  else if code &&& 0xf0 = 0x30 then .jge
  else if code &&& 0xf0 = 0x40 then .jset
  else .other

def retSrcOf : RetSrc :=
  if code &&& 0x18 = 0x00 then .k
  else if code &&& 0x18 = 0x10 then .a
  else .other

def miscOpOf : MiscOp :=
  if code &&& 0xf8 = 0x00 then .tax
  else if code &&& 0xf8 = 0x80 then .txa
  else .other

/-- `(code & BPF_SRC_MASK) == BPF_X`. The mask is one bit, so otherwise it is `BPF_K`. -/
def srcIsX : Bool := code &&& 0x08 = 0x08

/-! ### The check -/

def codeAllowed : Bool :=
  match classOf code with
  | .ld =>
    match modeOf code, sizeOf code with
    | .imm, .w | .mem, .w | .len, .w => true
    | .abs, .w | .abs, .h | .abs, .b => true
    | .ind, .w | .ind, .h | .ind, .b => true
    | _, _ => false
  | .ldx =>
    match modeOf code, sizeOf code with
    | .imm, .w | .mem, .w | .len, .w | .msh, .b => true
    | _, _ => false
  | .st | .stx => code = 0x02 ∨ code = 0x03
  | .alu =>
    match aluOpOf code with
    | .neg => code = 0x84
    | .add | .sub | .mul | .div | .or | .and | .lsh | .rsh | .mod | .xor => true
    | .other => false
  | .jmp =>
    match jmpOpOf code with
    | .ja => code = 0x05
    | .jeq | .jgt | .jge | .jset => true
    | .other => false
  | .ret =>
    match retSrcOf code with
    | .k | .a => true
    | .other => false
  | .misc =>
    match miscOpOf code with
    | .tax | .txa => true
    | .other => false

/-- The arms of the `match` in `validate`, for the instruction at `pc` of a filter of `len`
instructions. -/
def operandAllowed (len pc : Nat) (insn : ClassicBpfInsn) : Bool :=
  -- BPF_ALU | BPF_DIV | BPF_K, BPF_ALU | BPF_MOD | BPF_K
  if insn.code = 0x34 ∨ insn.code = 0x94 then insn.k ≠ 0
  -- BPF_ALU | BPF_LSH | BPF_K, BPF_ALU | BPF_RSH | BPF_K
  else if insn.code = 0x64 ∨ insn.code = 0x74 then insn.k.toNat < 32
  -- BPF_LD | BPF_MEM, BPF_LDX | BPF_MEM, BPF_ST, BPF_STX
  else if insn.code = 0x60 ∨ insn.code = 0x61 ∨ insn.code = 0x02 ∨ insn.code = 0x03 then
    insn.k.toNat < bpfMemwords
  else if classOf insn.code = .ld ∧ modeOf insn.code = .abs ∧ skfAdOff ≤ insn.k then false
  -- BPF_JMP | BPF_JA
  else if insn.code = 0x05 then insn.k.toNat < len - pc - 1
  else if classOf insn.code = .jmp ∧ jmpOpOf insn.code ≠ .ja then
    pc + insn.jt.toNat + 1 < len ∧ pc + insn.jf.toNat + 1 < len
  else true

/-- The loop of `validate`, from the instruction at `pc` on. -/
def validateFrom (len : Nat) : Nat → List ClassicBpfInsn → Except SyscallError Unit
  | _, [] => .ok ()
  | pc, insn :: rest =>
    if !codeAllowed insn.code then .error .einval
    else if !operandAllowed len pc insn then .error .einval
    else validateFrom len (pc + 1) rest

def validate (insns : List ClassicBpfInsn) : Except SyscallError Unit := do
  if insns.isEmpty ∨ insns.length > bpfMaxinsns then .error .einval
  else do
    validateFrom insns.length 0 insns
    match insns.getLast? with
    | some insn => if insn.code = 0x06 ∨ insn.code = 0x16 then .ok () else .error .einval
    | none => .error .einval

/-! ### The interpreter -/

abbrev Packet := List (BitVec 8)

/-- The locals of `execute`. -/
structure FilterState where
  a : BitVec 32
  x : BitVec 32
  mem : Fin bpfMemwords → BitVec 32
  pc : Nat

/-- The locals at entry. -/
def FilterState.init : FilterState := ⟨0, 0, fun _ => 0, 0⟩

/-- How a run ends: `execute` returns, or an array is indexed out of bounds. -/
inductive Ending where
  | returned (snaplen : Option Nat)
  | panicked
  deriving DecidableEq, Repr

def fromBeBytes (bytes : List (BitVec 8)) : BitVec 32 := bytes.foldl (fun v b => v <<< 8 ||| b.setWidth 32) 0

/-- The bytes a load of a packet reads. -/
def Size.toLen : Size → Option Nat
  | .w => some 4
  | .h => some 2
  | .b => some 1
  | .other => none

/-- `load_packet`. The offset comes from 32-bit numbers, so its end is a `usize`. -/
def loadPacket (packet : Packet) (offset : Nat) (size : Size) : Option (BitVec 32) := do
  let len ← size.toLen
  if offset + len ≤ packet.length then some (fromBeBytes ((packet.drop offset).take len)) else none

def loadValue (packet : Packet) (insn : ClassicBpfInsn) (s : FilterState) : Option (BitVec 32) :=
  match modeOf insn.code with
  | .imm => some insn.k
  | .mem => if h : insn.k.toNat < bpfMemwords then some (s.mem ⟨insn.k.toNat, h⟩) else none
  | .len => some (BitVec.ofNat 32 packet.length)
  | .abs => loadPacket packet insn.k.toNat (sizeOf insn.code)
  | .ind => loadPacket packet (s.x.toNat + insn.k.toNat) (sizeOf insn.code)
  | .msh => do
    let byte ← packet[insn.k.toNat]?
    some ((byte &&& 0x0f).setWidth 32 <<< (2 : Nat))
  | .other => none

/-- The second operand of arithmetic and jumps. -/
def operand (insn : ClassicBpfInsn) (s : FilterState) : BitVec 32 :=
  if srcIsX insn.code then s.x else insn.k

/-- The ALU arm. -/
def aluValue (op : AluOp) (a rhs : BitVec 32) : Option (BitVec 32) :=
  match op with
  | .add => some (a + rhs)
  | .sub => some (a - rhs)
  | .mul => some (a * rhs)
  | .div => if rhs = 0 then none else some (a / rhs)
  | .or => some (a ||| rhs)
  | .and => some (a &&& rhs)
  | .lsh => some (a <<< (rhs &&& 31).toNat)
  | .rsh => some (a >>> (rhs &&& 31).toNat)
  | .neg => some (-a)
  | .mod => if rhs = 0 then none else some (a % rhs)
  | .xor => some (a ^^^ rhs)
  | .other => none

/-- The condition of a jump. -/
def taken (op : JmpOp) (a rhs : BitVec 32) : Option Bool :=
  match op with
  | .jeq => some (a == rhs)
  | .jgt => some (rhs < a)
  | .jge => some (rhs ≤ a)
  | .jset => some (a &&& rhs != 0)
  | .ja | .other => none

def storeMem (k : BitVec 32) (v : BitVec 32) (s : FilterState) : Option FilterState :=
  if h : k.toNat < bpfMemwords then some { s with mem := Function.update s.mem ⟨k.toNat, h⟩ v }
  else none

/-- `pc.checked_add(n)?`. -/
def jumpBy (n : Nat) (s : FilterState) : Option FilterState :=
  if s.pc + n ≤ usizeMax then some { s with pc := s.pc + n } else none

/-- A `?` in `execute`. -/
def orFail : Option FilterState → Ending ⊕ FilterState
  | some s => .inr s
  | none => .inl (.returned none)

/-- An indexing in `execute`. -/
def orPanic : Option FilterState → Ending ⊕ FilterState
  | some s => .inr s
  | none => .inl .panicked

def FilterState.advance (s : FilterState) : FilterState := { s with pc := s.pc + 1 }

/-- The body of the loop of `execute` at an instruction. -/
def exec (packet : Packet) (insn : ClassicBpfInsn) (s : FilterState) : Ending ⊕ FilterState :=
  match classOf insn.code with
  | .ld => orFail ((loadValue packet insn s).map fun v => { s with a := v }.advance)
  | .ldx => orFail ((loadValue packet insn s).map fun v => { s with x := v }.advance)
  | .st => orPanic ((storeMem insn.k s.a s).map FilterState.advance)
  | .stx => orPanic ((storeMem insn.k s.x s).map FilterState.advance)
  | .alu => orFail ((aluValue (aluOpOf insn.code) s.a (operand insn s)).map
      fun v => { s with a := v }.advance)
  | .jmp =>
    match jmpOpOf insn.code with
    | .ja => orFail (jumpBy (1 + insn.k.toNat) s)
    | op => orFail ((taken op s.a (operand insn s)).bind fun t =>
        jumpBy (1 + (if t then insn.jt else insn.jf).toNat) s)
  | .ret => .inl (.returned (some (if retSrcOf insn.code = .a then s.a else insn.k).toNat))
  | .misc =>
    match miscOpOf insn.code with
    | .tax => .inr { s with x := s.a }.advance
    | .txa => .inr { s with a := s.x }.advance
    | .other => .inl (.returned none)

/-- One round of the loop of `execute`. -/
def round (insns : List ClassicBpfInsn) (packet : Packet) (s : FilterState) : Ending ⊕ FilterState :=
  match insns[s.pc]? with
  | some insn => exec packet insn s
  | none => .inl (.returned none)

/-- `execute`, for at most `fuel` rounds. -/
def execute (insns : List ClassicBpfInsn) (packet : Packet) (fuel : Nat) : Option Ending :=
  FuelLoop.run (round insns packet) fuel .init

end HitOS.Cbpf
