import HitOS.Bpf.Runtime
import HitOS.Bpf.Verifier

/-!
# One round of the interpreter

What a round of `execute` that goes on does to the registers and to control, form by form (`Round`,
`Flows`), and the kinds the verifier gives to the values (`Matches`). The bounds and kinds of an
instruction the verifier has accepted are used in `HitOS.Bpf.KindSoundness`, `HitOS.Bpf.Progress`
and `HitOS.Bpf.MemorySafety`.
-/

namespace HitOS.Bpf

open Function Except

/-- The values of a kind. A lookup that finds nothing yields null, which the verifier counts among
the map value pointers. -/
def Matches : RegKind → RuntimeValue → Prop
  | .scalar, .scalar _ => True
  | .mapFd, .mapFd _ => True
  | .framePtr, .framePtr => True
  | .stackPtr, .stackPtr _ => True
  | .mapValuePtr, .mapValuePtr .. => True
  | .mapValuePtr, .null => True
  | .packetPtr, .packetPtr _ => True
  | _, _ => False

/-- Where control can go from the instruction at `pc`. -/
def Flows (insn : BpfInsn) (pc pc' : Nat) : Prop :=
  match insn.form with
  | .ldImm64 => pc' = pc + 2
  | .ldxMem | .stMem | .stxMem | .alu _ => pc' = pc + 1
  | .jmp =>
    match insn.jmpOp with
    | .call => pc' = pc + 1
    | .jeq | .jne => pc' = pc + 1 ∨ pc' = jumpTarget insn pc
    | .exit | .other => False
  | .unsupported => False

/-- The instruction is a conditional jump. -/
def IsBranch (insn : BpfInsn) : Prop := insn.form = .jmp ∧ (insn.jmpOp = .jeq ∨ insn.jmpOp = .jne)

/-- The instruction is an exit. -/
def IsExit (insn : BpfInsn) : Prop := insn.form = .jmp ∧ insn.jmpOp = .exit

section Rounds

variable {insns : List BpfInsn} {packet : List Byte} {insn : BpfInsn} {s s' : BpfState} {dst src : Reg}

theorem regIndex_val {r : Reg} : regIndex r = .ok r := dif_pos r.isLt

/-- The registers and the `pc` after a round, form by form. -/
def Round (insn : BpfInsn) (dst src : Reg) (s s' : BpfState) : Prop :=
  match insn.form with
  | .ldImm64 => s'.pc = s.pc + 2 ∧ ∃ v, Matches (if insn.loadsMapFd then .mapFd else .scalar) v ∧
      s'.regs = update s.regs dst v
  | .ldxMem => s'.pc = s.pc + 1 ∧ ∃ v, s'.regs = update s.regs dst (.scalar v)
  | .stMem | .stxMem => s'.pc = s.pc + 1 ∧ s'.regs = s.regs
  | .alu is64 => s'.pc = s.pc + 1 ∧ ∃ v, s'.regs = update s.regs dst v ∧ if insn.aluOp = .mov then
        if insn.srcIsReg then v = s.regs src else ∃ x, v = .scalar x
      else ∃ x, execAlu (s.regs dst) insn.aluOp x is64 = .ok v
  | .jmp =>
    match insn.jmpOp with
    | .call => s'.pc = s.pc + 1 ∧ ∃ v, Matches .mapValuePtr v ∧ s'.regs = update s.regs 0 v
    | .jeq | .jne => (s'.pc = s.pc + 1 ∨ s'.pc = jumpTarget insn s.pc) ∧ s'.regs = s.regs
    | .exit | .other => False
  | .unsupported => False

/-- A `?` that lets the value through. -/
theorem bind_eq_ok {ε α β : Type} {x : Except ε α} {f : α → Except ε β} {b : β}
    (h : x.bind f = .ok b) : ∃ a, x = .ok a ∧ f a = .ok b := by
  cases x with
  | error => cases h
  | ok a => exact ⟨a, rfl, h⟩

theorem orHalt_eq_ok {α : Type} {x : Except SyscallError α} {a : α} (h : orHalt x = .ok a) : x = .ok a := by
  cases x with
  | error => cases h
  | ok => exact congrArg ok (ok.inj h)

theorem regIndex_bind_eq_ok {β : Type} {f : Reg → Except Halt β} {n : Nat} {r : Reg} {b : β} (hr : n = r)
    (h : (regIndex n).bind f = .ok b) : f r = .ok b := by
  rwa [hr, regIndex_val] at h

theorem stepStore_round {data : List Byte} (h : stepStore insn data s = .ok s') :
    s'.pc = s.pc + 1 ∧ s'.regs = s.regs := by
  obtain ⟨_, -, h⟩ := bind_eq_ok h
  obtain ⟨⟨_, _⟩, -, h⟩ := bind_eq_ok h
  cases h
  exact ⟨rfl, rfl⟩

theorem stepCall_round (h : stepCall insn s = .ok s') :
    s'.pc = s.pc + 1 ∧ ∃ v, Matches .mapValuePtr v ∧ s'.regs = update s.regs 0 v := by
  unfold stepCall at h
  split at h
  · cases h
  split at h
  · obtain ⟨_, -, h⟩ := bind_eq_ok h
    obtain ⟨_, -, h⟩ := bind_eq_ok h
    obtain ⟨_, -, h⟩ := bind_eq_ok h
    cases h
    -- a value that was not found is the null pointer
    refine ⟨rfl, _, ?_, rfl⟩
    split <;> trivial
  · cases h

theorem stepJump_round (h : stepJump insn s = .ok s') :
    (s'.pc = s.pc + 1 ∨ s'.pc = jumpTarget insn s.pc) ∧ s'.regs = s.regs := by
  obtain ⟨_, -, h⟩ := bind_eq_ok h
  obtain ⟨_, -, h⟩ := bind_eq_ok h
  cases h
  split
  · exact ⟨.inr rfl, rfl⟩
  · exact ⟨.inl rfl, rfl⟩

theorem stepAlu_round {is64 : Bool} (hdst : insn.dstReg = dst) (hsrc : insn.srcReg = src)
    (h : stepAlu insn is64 s = .ok s') :
    s'.pc = s.pc + 1 ∧ ∃ v, s'.regs = update s.regs dst v ∧ if insn.aluOp = .mov then
        if insn.srcIsReg then v = s.regs src else ∃ x, v = .scalar x
      else ∃ x, execAlu (s.regs dst) insn.aluOp x is64 = .ok v := by
  unfold stepAlu at h
  split at h
  · next hmov =>
    obtain ⟨v, hv, h⟩ := bind_eq_ok h
    cases regIndex_bind_eq_ok hdst h
    refine ⟨rfl, v, rfl, ?_⟩
    rw [if_pos hmov]
    -- only a move from a register can copy a pointer
    unfold movValue at hv
    split at hv
    · next hreg =>
      cases regIndex_bind_eq_ok hsrc hv
      rw [if_pos hreg]
    · next hreg =>
      rw [if_neg hreg]
      exact ⟨_, (ok.inj hv).symm⟩
  · next hmov =>
    obtain ⟨x, -, h⟩ := bind_eq_ok h
    obtain ⟨v, hv, h⟩ := bind_eq_ok (regIndex_bind_eq_ok hdst h)
    cases h
    refine ⟨rfl, v, rfl, ?_⟩
    rw [if_neg hmov]
    exact ⟨x, orHalt_eq_ok hv⟩

theorem stepNext_round (hdst : insn.dstReg = dst) (hsrc : insn.srcReg = src)
    (h : stepNext insns packet insn s = .ok s') : Round insn dst src s s' := by
  unfold stepNext at h
  unfold Round
  cases hform : insn.form with
  | ldImm64 =>
    simp only [hform, stepLdImm64] at h ⊢
    split at h
    · cases h
    cases regIndex_bind_eq_ok hdst h
    refine ⟨rfl, _, ?_, rfl⟩
    split <;> trivial
  | ldxMem =>
    simp only [hform] at h ⊢
    obtain ⟨q, -, h⟩ := bind_eq_ok h
    obtain ⟨v, -, h⟩ := bind_eq_ok h
    cases regIndex_bind_eq_ok hdst h
    exact ⟨rfl, v, rfl⟩
  | stMem =>
    simp only [hform] at h ⊢
    exact stepStore_round h
  | stxMem =>
    simp only [hform] at h ⊢
    obtain ⟨r, -, h⟩ := bind_eq_ok h
    exact stepStore_round h
  | alu =>
    simp only [hform] at h ⊢
    exact stepAlu_round hdst hsrc h
  | jmp =>
    simp only [hform] at h ⊢
    cases hop : insn.jmpOp with
    | call =>
      simp only [hop] at h ⊢
      exact stepCall_round (orHalt_eq_ok h)
    | jeq | jne =>
      simp only [hop] at h ⊢
      exact stepJump_round h
    -- `exit` has ended the run before, and the rest is refused
    | exit | other => simp [hop] at h
  | unsupported => simp [hform] at h

/-- What a round that goes on has behind it. -/
theorem step_eq_next (hs : step insns packet s = .ok (.next s')) :
    s.pc < insns.length ∧ ¬ IsExit (insnAt insns s.pc) ∧ stepNext insns packet
      (insnAt insns s.pc) s = .ok s' := by
  unfold step at hs
  dsimp only at hs
  split at hs
  · cases hs
  next hgo =>
  push Not at hgo
  obtain ⟨t, hnext, ht⟩ := bind_eq_ok hs
  obtain rfl : t = s' := by injection ok.inj ht
  exact ⟨hgo.1, fun h => hgo.2 h.1 h.2, hnext⟩

/-- Control goes along `Flows`. -/
theorem Round.flows (h : Round insn dst src s s') : Flows insn s.pc s'.pc := by
  unfold Round at h
  unfold Flows
  cases hform : insn.form with
  | ldImm64 | ldxMem | stMem | stxMem | alu =>
    simp only [hform] at h ⊢
    exact h.1
  | jmp =>
    simp only [hform] at h ⊢
    cases hop : insn.jmpOp <;> simp only [hop] at h ⊢
    all_goals exact h.1
  | unsupported => simp [hform] at h

/-- Other than over a conditional jump, control goes where the pass of the verifier goes. -/
theorem pc_of_accepts {k k' : Kinds} {pc pc' pc'' : Nat} (hacc : Accepts insns pc insn dst src k pc' k')
    (hflow : Flows insn pc pc'') (hbranch : ¬ IsBranch insn) : pc'' = pc' := by
  unfold Accepts at hacc
  unfold Flows at hflow
  cases hform : insn.form with
  | ldImm64 | stxMem =>
    simp only [hform] at hacc hflow
    rw [hflow, hacc.2.2.1]
  | ldxMem | stMem =>
    simp only [hform] at hacc hflow
    rw [hflow, hacc.2.1]
  | alu =>
    simp only [hform] at hacc hflow
    rw [hflow, hacc.2]
  | jmp =>
    simp only [hform] at hacc hflow
    cases hop : insn.jmpOp with
    | call =>
      simp only [hop] at hflow
      rw [hflow, hacc.2]
    | jeq => exact absurd ⟨hform, .inl hop⟩ hbranch
    | jne => exact absurd ⟨hform, .inr hop⟩ hbranch
    | exit | other => simp [hop] at hflow
  | unsupported => simp [hform] at hacc

end Rounds

end HitOS.Bpf
