import HitOS.Lib.Reachable
import HitOS.Bpf.Insn
import HitOS.Bpf.Map

/-!
# The eBPF interpreter

`bpf/runtime.rs`: registers hold tagged values, so that every memory access goes through a pointer
whose object is known, and each access is checked against the bounds of that object.

`step` is the body of the loop of `execute`, `execute` the loop. `BpfStep` adds what the loop does
not control: the maps are shared, so their contents may change between any two instructions.
-/

namespace HitOS.Bpf

open Function

/-- `RuntimeValue`. Offsets are `i64`, held as their 64 bits. -/
inductive RuntimeValue where
  | scalar (v : BitVec 64)
  | null
  | mapFd (fd : BitVec 32)
  | framePtr
  | stackPtr (off : BitVec 64)
  | mapValuePtr (fd : BitVec 32) (key : List Byte) (offset : BitVec 64)
  | packetPtr (offset : BitVec 64)
  deriving DecidableEq, Repr

def RuntimeValue.asU64 : RuntimeValue → BitVec 64
  | scalar v => v
  | null => 0
  | mapFd fd => fd.setWidth 64
  | framePtr => 0
  | stackPtr off => off
  | mapValuePtr .. => 1
  | packetPtr offset => offset

/-- Why a run ends without a value: an error number, or a panic on an index out of bounds. -/
inductive Halt where
  | err (e : SyscallError)
  | panic
  deriving DecidableEq, Repr

/-! ### Arithmetic -/

/-- `exec_alu` on a pointer into the stack or the packet, `mk` its kind and `cur` its offset. -/
def execPtrAlu (mk : BitVec 64 → RuntimeValue) (cur : BitVec 64) (op : AluOp) (src : BitVec 64) :
    Except SyscallError RuntimeValue :=
  match op with
  | .add => .ok (mk (cur + src))
  | .sub => .ok (mk (cur - src))
  | .mov => .ok (.scalar src)
  | .div | .lsh | .rsh | .mod | .other => .error .enosys

/-- `exec_alu` on two 64-bit numbers. -/
def execAlu64 (cur : BitVec 64) (op : AluOp) (src : BitVec 64) : Except SyscallError (BitVec 64) :=
  match op with
  | .add => .ok (cur + src)
  | .sub => .ok (cur - src)
  | .lsh => .ok (cur <<< (src &&& 63).toNat)
  | .rsh => .ok (cur >>> (src &&& 63).toNat)
  | .mov => .ok src
  | .div | .mod | .other => .error .enosys

/-- `exec_alu` on the low halves of two numbers. -/
def execAlu32 (cur : BitVec 64) (op : AluOp) (src : BitVec 64) : Except SyscallError (BitVec 64) :=
  let dst32 := cur.setWidth 32
  let src32 := src.setWidth 32
  match op with
  | .div => .ok (if src32 = 0 then 0 else (dst32 / src32).setWidth 64)
  | .mod => .ok (if src32 = 0 then dst32.setWidth 64 else (dst32 % src32).setWidth 64)
  | .sub => .ok ((dst32 - src32).setWidth 64)
  | .rsh => .ok ((dst32 >>> (src32 &&& 31).toNat).setWidth 64)
  | .mov => .ok (src32.setWidth 64)
  | .add | .lsh | .other => .error .enosys

/-- `exec_alu` on numbers. -/
def execScalarAlu (cur : BitVec 64) (op : AluOp) (src : BitVec 64) (is64 : Bool) :
    Except SyscallError (BitVec 64) :=
  if is64 then execAlu64 cur op src else execAlu32 cur op src

def execAlu (dst : RuntimeValue) (op : AluOp) (src : BitVec 64) (is64 : Bool) :
    Except SyscallError RuntimeValue :=
  match dst with
  | .framePtr => execPtrAlu .stackPtr 0 op src
  | .stackPtr off => execPtrAlu .stackPtr off op src
  | .packetPtr offset => execPtrAlu .packetPtr offset op src
  | .mapValuePtr .. => .error .eacces
  | .scalar _ | .null | .mapFd _ => do
    let result ← execScalarAlu dst.asU64 op src is64
    .ok (.scalar result)

/-! ### Memory -/

/-- `i64::checked_add`. -/
def checkedAdd64 (a b : Int) : Option Int :=
  if -(2 ^ 63) ≤ a + b ∧ a + b < 2 ^ 63 then some (a + b) else none

def pointerOffsetToStack (base : BitVec 64) (off : BitVec 16) (len : Nat) : Except SyscallError Nat :=
  match (checkedAdd64 bpfStackSize base.toInt).bind (checkedAdd64 · off.toInt) with
  | none => .error .efault
  | some start =>
    match checkedAdd64 start len with
    | none => .error .efault
    | some stop =>
      if start < 0 ∨ stop < 0 ∨ stop.toNat > bpfStackSize then .error .efault else .ok start.toNat

/-- `load_value` through a pointer into the stack. -/
def loadStack (stack : List Byte) (base : BitVec 64) (off : BitVec 16) (len : Nat) :
    Except SyscallError (List Byte) := do
  let start ← pointerOffsetToStack base off len
  .ok ((stack.drop start).take len)

/-- `offset.checked_add(off)`, which must not be negative. -/
def objectOffset (offset : BitVec 64) (off : BitVec 16) : Except SyscallError Nat :=
  match checkedAdd64 offset.toInt off.toInt with
  | none => .error .einval
  | some start => if start < 0 then .error .eacces else .ok start.toNat

/-- The bytes `load_value` reads. -/
def loadBytes (maps : ProgMaps) (stack packet : List Byte) (src : RuntimeValue) (off : BitVec 16)
    (len : Nat) : Except SyscallError (List Byte) :=
  match src with
  | .framePtr => loadStack stack 0 off len
  | .stackPtr base => loadStack stack base off len
  | .mapValuePtr fd key offset => do
    let start ← objectOffset offset off
    ProgMaps.mapLoadBytes maps fd.toNat key start len
  | .packetPtr offset => do
    let start ← objectOffset offset off
    if start + len > packet.length then .error .eacces else .ok ((packet.drop start).take len)
  | .scalar _ | .null | .mapFd _ => .error .einval

def loadValue (maps : ProgMaps) (stack packet : List Byte) (src : RuntimeValue) (off : BitVec 16)
    (width : Width) : Except SyscallError (BitVec 64) := do
  let bytes ← loadBytes maps stack packet src off width.toLen
  .ok (BitVec.ofNat 64 (ofLeBytes bytes))

/-- `store_value` through a pointer into the stack. -/
def storeStack (stack : List Byte) (base : BitVec 64) (off : BitVec 16) (data : List Byte) :
    Except SyscallError (List Byte) := do
  let start ← pointerOffsetToStack base off data.length
  .ok (stack.take start ++ data ++ stack.drop (start + data.length))

/-- `store_value`: the stack and the maps afterwards. -/
def storeValue (maps : ProgMaps) (stack : List Byte) (dst : RuntimeValue) (off : BitVec 16)
    (data : List Byte) : Except SyscallError (List Byte × ProgMaps) :=
  match dst with
  | .framePtr => do
    let stack' ← storeStack stack 0 off data
    .ok (stack', maps)
  | .stackPtr base => do
    let stack' ← storeStack stack base off data
    .ok (stack', maps)
  | .mapValuePtr fd key offset => do
    let start ← objectOffset offset off
    let maps' ← ProgMaps.mapStoreBytes maps fd.toNat key start data
    .ok (stack, maps')
  | .scalar _ | .null | .mapFd _ | .packetPtr _ => .error .einval

def loadStackKey (stack : List Byte) (reg : RuntimeValue) (len : Nat) : Except SyscallError (List Byte) :=
  match reg with
  | .framePtr => loadStack stack 0 0 len
  | .stackPtr base => loadStack stack base 0 len
  | .scalar _ | .null | .mapFd _ | .mapValuePtr .. | .packetPtr _ => .error .einval

/-! ### The loop -/

/-- The locals of `execute`, and the maps. -/
structure BpfState where
  pc : Nat
  regs : Reg → RuntimeValue
  stack : List Byte
  maps : ProgMaps

/-- The locals at entry. -/
def BpfState.init (packet : List Byte) (maps : ProgMaps) : BpfState where
  pc := 0
  regs := update (update (update (fun _ => .scalar 0)
    1 (.packetPtr 0)) 2 (.scalar (BitVec.ofNat 64 packet.length))) 10 .framePtr
  stack := List.replicate bpfStackSize 0
  maps := maps

/-- Assignment to a register. -/
def BpfState.setReg (s : BpfState) (r : Reg) (v : RuntimeValue) : BpfState :=
  { s with regs := update s.regs r v }

def BpfState.skip (s : BpfState) (n : Nat) : BpfState := { s with pc := s.pc + n }

/-- What one round of the loop leads to. -/
inductive Outcome where
  | next (s : BpfState)
  | done (r0 : BitVec 64)

/-- An index into the register file. -/
def regIndex (n : Nat) : Except Halt Reg :=
  if h : n < maxBpfReg then .ok ⟨n, h⟩ else .error .panic

/-- The `?` operator. -/
def orHalt {α : Type} (x : Except SyscallError α) : Except Halt α := x.mapError .err

variable (insn : BpfInsn)

/-- The second operand of an arithmetic instruction or a jump. -/
def operand (s : BpfState) : Except Halt (BitVec 64) :=
  if insn.srcIsReg then do
    let src ← regIndex insn.srcReg
    .ok (s.regs src).asU64
  else .ok (insn.imm.signExtend 64)

/-- The value a `BPF_MOV` assigns. -/
def movValue (is64 : Bool) (s : BpfState) : Except Halt RuntimeValue :=
  if insn.srcIsReg then do
    let src ← regIndex insn.srcReg
    .ok (s.regs src)
  else .ok (.scalar (if is64 then insn.imm.signExtend 64 else insn.imm.setWidth 64))

/-- The ALU arm. -/
def stepAlu (is64 : Bool) (s : BpfState) : Except Halt BpfState :=
  if insn.aluOp = .mov then do
    let v ← movValue insn is64 s
    let dst ← regIndex insn.dstReg
    .ok ((s.setReg dst v).skip 1)
  else do
    let src ← operand insn s
    let dst ← regIndex insn.dstReg
    let v ← orHalt (execAlu (s.regs dst) insn.aluOp src is64)
    .ok ((s.setReg dst v).skip 1)

/-- The store arms. -/
def stepStore (data : List Byte) (s : BpfState) : Except Halt BpfState := do
  let dst ← regIndex insn.dstReg
  let (stack, maps) ← orHalt (storeValue s.maps s.stack (s.regs dst) insn.off data)
  .ok ({ s with stack := stack, maps := maps }.skip 1)

/-- The load arm. -/
def stepLoad (packet : List Byte) (insn : BpfInsn) (s : BpfState) : Except Halt BpfState := do
  let src ← regIndex insn.srcReg
  let v ← orHalt (loadValue s.maps s.stack packet (s.regs src) insn.off insn.width)
  let dst ← regIndex insn.dstReg
  .ok ((s.setReg dst (.scalar v)).skip 1)

/-- `map_lookup_elem`: the value that goes to `r0`. -/
def stepCall (s : BpfState) : Except SyscallError BpfState :=
  if insn.imm ≠ bpfFuncMapLookupElem then .error .enosys
  else
    match s.regs 1 with
    | .mapFd fd => do
      let len ← ProgMaps.mapKeySize s.maps fd.toNat
      let key ← loadStackKey s.stack (s.regs 2) len
      let found ← ProgMaps.mapLookupBytes s.maps fd.toNat key
      .ok ((s.setReg 0 (if found.isSome then .mapValuePtr fd key 0 else .null)).skip 1)
    | _ => .error .einval

/-- `((pc as isize) + 1 + off) as usize`. -/
def jumpTarget (pc : Nat) : Nat := ((pc + 1 + insn.off.toInt : Int) % 2 ^ 64).toNat

/-- Whether a conditional jump is taken. -/
def taken (lhs rhs : BitVec 64) : Bool :=
  if insn.jmpOp = .jeq then lhs == rhs else lhs != rhs

/-- The conditional jumps. -/
def stepJump (s : BpfState) : Except Halt BpfState := do
  let dst ← regIndex insn.dstReg
  let rhs ← operand insn s
  .ok (if taken insn (s.regs dst).asU64 rhs then { s with pc := jumpTarget insn s.pc }
    else s.skip 1)

variable (insns : List BpfInsn)

/-- The 64-bit immediate load. -/
def stepLdImm64 (insn : BpfInsn) (s : BpfState) : Except Halt BpfState :=
  if s.pc + 1 ≥ insns.length then .error (.err .einval)
  else do
    let dst ← regIndex insn.dstReg
    let hi := (insnAt insns (s.pc + 1)).imm
    .ok ((s.setReg dst (if insn.loadsMapFd then .mapFd insn.imm else .scalar (hi ++ insn.imm))).skip 2)

/-- One round of the loop of `execute` that does not return. -/
def stepNext (packet : List Byte) (insn : BpfInsn) (s : BpfState) :
    Except Halt BpfState :=
  match insn.form with
  | .ldImm64 => stepLdImm64 insns insn s
  | .ldxMem => stepLoad packet insn s
  | .stMem => stepStore insn (leBytes insn.width.toLen (insn.imm.signExtend 64).toNat) s
  | .stxMem => do
    let src ← regIndex insn.srcReg
    stepStore insn (leBytes insn.width.toLen (s.regs src).asU64.toNat) s
  | .alu is64 => stepAlu insn is64 s
  | .jmp =>
    match insn.jmpOp with
    | .call => orHalt (stepCall insn s)
    | .jeq | .jne => stepJump insn s
    | .exit | .other => .error (.err .enosys)
  | .unsupported => .error (.err .enosys)

/-- One round of the loop of `execute`. -/
def step (packet : List Byte) (s : BpfState) : Except Halt Outcome :=
  let insn := insnAt insns s.pc
  if s.pc ≥ insns.length ∨ (insn.form = .jmp ∧ insn.jmpOp = .exit) then
    .ok (.done (s.regs 0).asU64)
  else do
    let s' ← stepNext insns packet insn s
    .ok (.next s')

/-- The loop of `execute`, for at most `fuel` rounds. -/
def executeFrom (insns : List BpfInsn) (packet : List Byte) :
    Nat → BpfState → Option (Except Halt (BitVec 64))
  | 0, _ => none
  | fuel + 1, s =>
    match step insns packet s with
    | .error e => some (.error e)
    | .ok (.done r0) => some (.ok r0)
    | .ok (.next s') => executeFrom insns packet fuel s'

/-- `execute`, for at most `fuel` rounds. -/
def execute (packet : List Byte) (maps : ProgMaps) (fuel : Nat) :
    Option (Except Halt (BitVec 64)) :=
  executeFrom insns packet fuel (.init packet maps)

/-- One step of a run: a round of the loop, or a change of the shared maps by someone else. -/
inductive BpfStep (insns : List BpfInsn) (packet : List Byte) : BpfState → BpfState → Prop
  | round {s s' : BpfState} (h : step insns packet s = .ok (.next s')) : BpfStep insns packet s s'
  | interfere (s : BpfState) (maps : ProgMaps) : BpfStep insns packet s { s with maps := maps }

end HitOS.Bpf
