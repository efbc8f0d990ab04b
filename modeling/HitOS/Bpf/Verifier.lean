import HitOS.Bpf.Insn

/-!
# The eBPF verifier

`bpf/verifier.rs`: one pass over the instructions in order, tracking for each register what kind of
value it holds. The pass does not follow jumps; it only checks that their targets lie ahead and in
range.

* `verifyInsn` is the body of the loop: what it demands of the registers at an instruction, and what
  it takes them to be at the next one.
* `Recorded insns pc kinds` states that the pass of an accepted program arrives at `pc` with
  `kinds`; it is single valued (`Recorded.unique`), and every instruction it does not arrive at is
  the second slot of a 64-bit immediate load (`recorded_or_secondSlot`).
-/

namespace HitOS.Bpf

open Option Function Except Prod

inductive RegKind where
  | scalar
  | mapFd
  | framePtr
  | stackPtr
  | mapValuePtr
  | packetPtr
  deriving DecidableEq, Repr

/-- The verifier's register file. -/
abbrev Kinds := Reg → RegKind

/-- The registers at entry: `r1` points to the packet, `r10` is the frame pointer. -/
def initKinds : Kinds := update (update (fun _ => .scalar) 1 .packetPtr) 10 .framePtr

def checkedReg (reg : Nat) : Except String Reg :=
  if h : reg < maxBpfReg then .ok ⟨reg, h⟩ else .error "invalid register"

/-- `checked_jump_target`. The sums stay far from the bounds of an `isize`. -/
def checkedJumpTarget (pc : Nat) (off : BitVec 16) (len : Nat) : Except String Nat :=
  let target : Int := pc + 1 + off.toInt
  if target < 0 ∨ target ≥ len then .error "jump out of range" else .ok target.toNat

/-- The `BPF_LD | BPF_IMM | BPF_DW` arm. -/
def verifyLdImm64 (insns : List BpfInsn) (pc : Nat) (insn : BpfInsn) (dst : Reg) (regs : Kinds) :
    Except String (Nat × Kinds) :=
  if pc + 1 ≥ insns.length then .error "truncated ldimm64"
  else
    let next := insnAt insns (pc + 1)
    if next.code ≠ 0 ∨ next.dstReg ≠ 0 ∨ next.srcReg ≠ 0 ∨ next.off ≠ 0 then
      .error "invalid ldimm64 pair"
    else if insn.off ≠ 0 then .error "ldimm64 uses reserved fields"
    else if ¬ (insn.srcReg = 0 ∨ insn.srcReg = bpfPseudoMapFd) then
      .error "unsupported ldimm64 pseudo source"
    else .ok (pc + 2, update regs dst (if insn.loadsMapFd then .mapFd else .scalar))

/-- The kinds a load may go through. -/
def RegKind.readable : RegKind → Bool
  | framePtr | stackPtr | mapValuePtr | packetPtr => true
  | scalar | mapFd => false

/-- The kinds a store may go through. -/
def RegKind.writable : RegKind → Bool
  | framePtr | stackPtr | mapValuePtr => true
  | scalar | mapFd | packetPtr => false

/-- The kinds that point into the stack. -/
def RegKind.onStack : RegKind → Bool
  | framePtr | stackPtr => true
  | scalar | mapFd | mapValuePtr | packetPtr => false

/-- The arithmetic part of the ALU arm: what becomes of the destination. -/
def verifyArith (insn : BpfInsn) (dst src : Reg) (regs : Kinds) : Except String Kinds :=
  if insn.srcIsReg ∧ regs src ≠ .scalar then .error "alu source must be scalar"
  else
    match regs dst with
    | .mapFd => .error "map fd arithmetic rejected"
    | .mapValuePtr => .error "pointer arithmetic on map value rejected"
    | .framePtr | .stackPtr | .packetPtr =>
      if insn.aluOp ≠ .add ∧ insn.aluOp ≠ .sub then .error "unsupported pointer operation"
      else .ok (if regs dst = .packetPtr then regs else update regs dst .stackPtr)
    | .scalar => .ok (update regs dst .scalar)

/-- The ALU arm. -/
def verifyAlu (insn : BpfInsn) (dst src : Reg) (regs : Kinds) : Except String Kinds :=
  if insn.aluOp = .mov then
    .ok (update regs dst (if insn.srcIsReg then regs src else .scalar))
  else verifyArith insn dst src regs

/-- The jump arm. -/
def verifyJmp (len pc : Nat) (insn : BpfInsn) (regs : Kinds) : Except String Kinds :=
  match insn.jmpOp with
  | .call =>
    if insn.imm ≠ bpfFuncMapLookupElem then .error "unsupported bpf helper"
    else if regs 1 ≠ .mapFd then .error "map_lookup_elem needs map fd in r1"
    else if ¬ (regs 2).onStack then .error "map_lookup_elem needs stack key pointer in r2"
    else .ok (update regs 0 .mapValuePtr)
  | .exit => .ok regs
  | .jeq | .jne => do
    let target ← checkedJumpTarget pc insn.off len
    if target ≤ pc then .error "backward jumps unsupported" else .ok regs
  | .other => .error "unsupported jump instruction"

/-- One round of the loop of `verify_program`: the next `pc` and the registers there. -/
def verifyInsn (insns : List BpfInsn) (pc : Nat) (regs : Kinds) : Except String (Nat × Kinds) := do
  let insn := insnAt insns pc
  let dst ← checkedReg insn.dstReg
  let src ← checkedReg insn.srcReg
  match insn.form with
  | .ldImm64 => verifyLdImm64 insns pc insn dst regs
  | .ldxMem =>
    if ¬ (regs src).readable then .error "memory load requires valid pointer"
    else .ok (pc + 1, update regs dst .scalar)
  | .stMem =>
    if ¬ (regs dst).writable then .error "memory store requires valid pointer"
    else .ok (pc + 1, regs)
  | .stxMem =>
    if ¬ (regs dst).writable then .error "memory store requires valid pointer"
    else if regs src ≠ .scalar then .error "memory store value must be scalar"
    else .ok (pc + 1, regs)
  | .alu _ => do
    let regs' ← verifyAlu insn dst src regs
    .ok (pc + 1, regs')
  | .jmp => do
    let regs' ← verifyJmp insns.length pc insn regs
    .ok (pc + 1, regs')
  | .unsupported => .error "unsupported bpf instruction"

/-- The loop of `verify_program`. Every round moves on, so as many rounds as instructions
suffice. -/
def verifyLoop (insns : List BpfInsn) : Nat → Nat → Kinds → Except String Unit
  | 0, _, _ => .ok ()
  | fuel + 1, pc, regs =>
    if pc < insns.length then do
      let (pc', regs') ← verifyInsn insns pc regs
      verifyLoop insns fuel pc' regs'
    else .ok ()

def verifyProgram (insns : List BpfInsn) : Except String Unit :=
  match insns.getLast? with
  | some last =>
    if last.form = .jmp ∧ last.jmpOp = .exit then verifyLoop insns insns.length 0 initKinds
    else .error "program must end with exit"
  | none => .error "program must end with exit"

/-! ### What one round demands -/

variable {insns : List BpfInsn} {pc pc' : Nat} {regs regs' : Kinds}

section Round

theorem checkedReg_eq_ok {n : Nat} {r : Reg} (h : checkedReg n = .ok r) : n = r := by
  unfold checkedReg at h
  split at h
  · exact congrArg Fin.val (ok.inj h)
  · cases h

/-- What an accepting round has checked, and where it goes, form by form. -/
def Accepts (insns : List BpfInsn) (pc : Nat) (insn : BpfInsn) (dst src : Reg) (regs : Kinds)
    (pc' : Nat) (regs' : Kinds) : Prop :=
  match insn.form with
  | .ldImm64 => pc + 1 < insns.length ∧ (insnAt insns (pc + 1)).code = 0 ∧ pc' = pc + 2 ∧
      regs' = update regs dst (if insn.loadsMapFd then .mapFd else .scalar)
  | .ldxMem => (regs src).readable = true ∧ pc' = pc + 1 ∧ regs' = update regs dst .scalar
  | .stMem => (regs dst).writable = true ∧ pc' = pc + 1 ∧ regs' = regs
  | .stxMem => (regs dst).writable = true ∧ regs src = .scalar ∧ pc' = pc + 1 ∧ regs' = regs
  | .alu _ => verifyAlu insn dst src regs = .ok regs' ∧ pc' = pc + 1
  | .jmp => verifyJmp insns.length pc insn regs = .ok regs' ∧ pc' = pc + 1
  | .unsupported => False

theorem verifyInsn_eq_ok (h : verifyInsn insns pc regs = .ok (pc', regs')) :
    ∃ dst src : Reg, (insnAt insns pc).dstReg = dst ∧ (insnAt insns pc).srcReg = src ∧
      Accepts insns pc (insnAt insns pc) dst src regs pc' regs' := by
  unfold verifyInsn at h
  generalize insnAt insns pc = insn at h ⊢
  cases hdst : checkedReg insn.dstReg with
  | error => simp [hdst, bind, Except.bind] at h
  | ok dst =>
  cases hsrc : checkedReg insn.srcReg with
  | error => simp [hdst, hsrc, bind, Except.bind] at h
  | ok src =>
  refine ⟨dst, src, checkedReg_eq_ok hdst, checkedReg_eq_ok hsrc, ?_⟩
  unfold Accepts
  simp only [hdst, hsrc, bind, Except.bind] at h
  cases hform : insn.form with
  | ldImm64 =>
    simp only [hform, verifyLdImm64] at h ⊢
    iterate 3
      split at h
      · cases h
    split at h
    · cases h
    · next hlen hnext _ _ =>
      cases h
      push Not at hlen hnext
      exact ⟨hlen, hnext.1, rfl, rfl⟩
  | ldxMem | stMem =>
    simp only [hform] at h ⊢
    split at h
    · cases h
    · next hok =>
      cases h
      exact ⟨not_not.mp hok, rfl, rfl⟩
  | stxMem =>
    simp only [hform] at h ⊢
    split at h
    · cases h
    split at h
    · cases h
    · next hwrite hval =>
      cases h
      exact ⟨not_not.mp hwrite, not_not.mp hval, rfl, rfl⟩
  | alu =>
    simp only [hform] at h ⊢
    cases halu : verifyAlu insn dst src regs with
    | error => simp [halu] at h
    | ok =>
      rw [halu] at h
      cases h
      exact ⟨rfl, rfl⟩
  | jmp =>
    simp only [hform] at h ⊢
    cases hjmp : verifyJmp insns.length pc insn regs with
    | error => simp [hjmp] at h
    | ok =>
      rw [hjmp] at h
      cases h
      exact ⟨rfl, rfl⟩
  | unsupported => simp [hform] at h

/-- A round moves past its instruction: two slots for a 64-bit immediate, one otherwise. -/
theorem verifyInsn_pc (h : verifyInsn insns pc regs = .ok (pc', regs')) :
    pc' = pc + 1 ∨ (pc' = pc + 2 ∧ (insnAt insns pc).form = .ldImm64 ∧ (insnAt insns (pc + 1)).code = 0) := by
  obtain ⟨_, _, -, -, hacc⟩ := verifyInsn_eq_ok h
  unfold Accepts at hacc
  split at hacc
  · next hform => exact .inr ⟨hacc.2.2.1, hform, hacc.2.1⟩
  · exact .inl hacc.2.1
  · exact .inl hacc.2.1
  · exact .inl hacc.2.2.1
  · exact .inl hacc.2
  · exact .inl hacc.2
  · exact hacc.elim

end Round

/-! ### The pass -/

/-- Where the pass stands after `n` rounds. -/
def scan (insns : List BpfInsn) : Nat → Option (Nat × Kinds)
  | 0 => some (0, initKinds)
  | n + 1 =>
    match scan insns n with
    | some (pc, regs) => if pc < insns.length then (verifyInsn insns pc regs).toOption else none
    | none => none

/-- The pass arrives at `pc` with these kinds. -/
def Recorded (insns : List BpfInsn) (pc : Nat) (regs : Kinds) : Prop := ∃ n, scan insns n = some (pc, regs)

section Pass

variable {n m : Nat}

theorem scan_succ (h : scan insns (n + 1) = some (pc', regs')) :
    ∃ pc regs, scan insns n = some (pc, regs) ∧ verifyInsn insns pc regs = .ok (pc', regs') := by
  unfold scan at h
  cases hn : scan insns n with
  | none => simp [hn] at h
  | some p =>
  obtain ⟨pc, regs⟩ := p
  simp only [hn] at h
  split at h
  · cases hv : verifyInsn insns pc regs with
    | error => simp [hv, Except.toOption] at h
    | ok =>
      rw [hv] at h
      exact ⟨pc, regs, rfl, hv.trans (congrArg ok (some.inj h))⟩
  · cases h

theorem Recorded.next (h : Recorded insns pc regs) (hlt : pc < insns.length)
    (hv : verifyInsn insns pc regs = .ok (pc', regs')) : Recorded insns pc' regs' := by
  obtain ⟨n, hn⟩ := h
  refine ⟨n + 1, ?_⟩
  simp only [scan, hn, if_pos hlt, hv, Except.toOption]

theorem recorded_zero : Recorded insns 0 initKinds := ⟨0, rfl⟩

/-- The pass only moves forward. -/
theorem scan_pc_lt (hnm : n < m) (hn : scan insns n = some (pc, regs))
    (hm : scan insns m = some (pc', regs')) : pc < pc' := by
  induction m generalizing pc' regs' with
  | zero => exact absurd hnm (Nat.not_lt_zero n)
  | succ m ih =>
    obtain ⟨q, k, hq, hv⟩ := scan_succ hm
    have hqpc : q < pc' := by
      rcases verifyInsn_pc hv with h | h <;> omega
    rcases Nat.lt_succ_iff_lt_or_eq.mp hnm with hlt | rfl
    · exact lt_trans (ih hlt hq) hqpc
    · rw [hn] at hq
      cases hq
      exact hqpc

/-- **One record for each instruction.** -/
theorem Recorded.unique (h : Recorded insns pc regs) (h' : Recorded insns pc regs') : regs = regs' := by
  obtain ⟨n, hn⟩ := h
  obtain ⟨m, hm⟩ := h'
  rcases lt_trichotomy n m with hlt | rfl | hlt
  · exact absurd (scan_pc_lt hlt hn hm) (lt_irrefl pc)
  · exact (mk.inj (some.inj (hn.symm.trans hm))).2
  · exact absurd (scan_pc_lt hlt hm hn) (lt_irrefl pc)

/-- The loop has run a round at every place the pass arrives at from here. -/
theorem verifyLoop_scan {fuel : Nat} (hok : verifyLoop insns fuel pc regs = .ok ())
    (hfuel : insns.length ≤ pc + fuel)
    (hn : scan insns n = some (pc, regs)) (hnm : n ≤ m) (hm : scan insns m = some (pc', regs'))
    (hlt : pc' < insns.length) : ∃ q, verifyInsn insns pc' regs' = .ok q := by
  induction fuel generalizing n pc regs with
  | zero =>
    -- out of fuel: the pass stands at the end, and moves only forward
    rcases lt_or_eq_of_le hnm with hlt' | rfl
    · have hpc := scan_pc_lt hlt' hn hm
      omega
    · obtain ⟨rfl, rfl⟩ := mk.inj (some.inj (hn.symm.trans hm))
      omega
  | succ _ ih =>
    unfold verifyLoop at hok
    split_ifs at hok with hpc
    · cases hv : verifyInsn insns pc regs with
      | error => simp [hv, bind, Except.bind] at hok
      | ok q =>
        simp only [hv] at hok
        rcases lt_or_eq_of_le hnm with hlt' | rfl
        · have hstep : scan insns (n + 1) = some q := by
            simp only [scan, hn, if_pos hpc, hv, Except.toOption]
          refine ih hok ?_ hstep hlt'
          rcases verifyInsn_pc hv with h | h <;> omega
        · obtain ⟨rfl, rfl⟩ := mk.inj (some.inj (hn.symm.trans hm))
          exact ⟨q, hv⟩
    · rcases lt_or_eq_of_le hnm with hlt' | rfl
      · have hlt'' := scan_pc_lt hlt' hn hm
        omega
      · obtain ⟨rfl, rfl⟩ := mk.inj (some.inj (hn.symm.trans hm))
        omega

/-- An accepted program passes its round wherever the pass arrives. -/
theorem verifyInsn_of_recorded (hv : verifyProgram insns = .ok ()) (h : Recorded insns pc regs)
    (hlt : pc < insns.length) : ∃ q, verifyInsn insns pc regs = .ok q := by
  obtain ⟨m, hm⟩ := h
  unfold verifyProgram at hv
  split at hv
  · split at hv
    · exact verifyLoop_scan hv (by omega) rfl (Nat.zero_le m) hm hlt
    · cases hv
  · cases hv

/-- The second slot of a 64-bit immediate load. -/
def SecondSlot (insns : List BpfInsn) (pc : Nat) : Prop :=
  ∃ q k, Recorded insns q k ∧ (insnAt insns q).form = .ldImm64 ∧ pc = q + 1 ∧ (insnAt insns pc).code = 0

/-- The pass does not arrive at a second slot. -/
theorem Recorded.not_secondSlot (h : Recorded insns pc regs) (hv : verifyProgram insns = .ok ())
    (hlt : pc < insns.length) : ¬ SecondSlot insns pc := by
  rintro ⟨q, k, ⟨n, hn⟩, hform, rfl, -⟩
  obtain ⟨m, hm⟩ := h
  -- from the load it goes on behind the slot
  obtain ⟨⟨pc', k'⟩, hround⟩ := verifyInsn_of_recorded hv ⟨n, hn⟩ (by omega)
  obtain ⟨_, _, -, -, hacc⟩ := verifyInsn_eq_ok hround
  unfold Accepts at hacc
  simp only [hform] at hacc
  have hnext : scan insns (n + 1) = some (pc', k') := by
    simp only [scan, hn, if_pos (show q < insns.length by omega), hround, Except.toOption]
  rcases lt_trichotomy m (n + 1) with hlt' | rfl | hgt
  · rcases lt_or_eq_of_le (Nat.le_of_lt_succ hlt') with hlt'' | rfl
    · have := scan_pc_lt hlt'' hm hn
      omega
    · obtain ⟨heq, -⟩ := mk.inj (some.inj (hm.symm.trans hn))
      omega
  · obtain ⟨heq, -⟩ := mk.inj (some.inj (hm.symm.trans hnext))
    omega
  · have := scan_pc_lt hgt hnext hm
    omega

/-- **The pass misses nothing but second slots.** -/
theorem recorded_or_secondSlot (hv : verifyProgram insns = .ok ()) (hlt : pc < insns.length) :
    (∃ regs, Recorded insns pc regs) ∨ SecondSlot insns pc := by
  -- the pass arrives at every instruction, or at the two around it
  have hall t : t ≤ insns.length → (∃ regs, Recorded insns t regs) ∨
      (SecondSlot insns t ∧ ∃ regs, Recorded insns (t + 1) regs) := by
    induction t with
    | zero => exact fun _ => .inl ⟨_, recorded_zero⟩
    | succ t ih =>
      intro _
      rcases ih (by omega) with ⟨regs, hrec⟩ | ⟨-, hrec⟩
      · obtain ⟨⟨_, regs'⟩, hround⟩ := verifyInsn_of_recorded hv hrec (by omega)
        have hnext := hrec.next (by omega) hround
        rcases verifyInsn_pc hround with rfl | ⟨rfl, hform, hcode⟩
        · exact .inl ⟨regs', hnext⟩
        · exact .inr ⟨⟨t, regs, hrec, hform, rfl, hcode⟩, regs', hnext⟩
      · exact .inl hrec
  exact (hall pc (by omega)).imp id And.left

theorem recorded_or_unsupported (hv : verifyProgram insns = .ok ()) (hlt : pc < insns.length) :
    (∃ regs, Recorded insns pc regs) ∨ (insnAt insns pc).form = .unsupported := by
  refine (recorded_or_secondSlot hv hlt).imp id ?_
  rintro ⟨-, -, -, -, -, hcode⟩
  exact BpfInsn.form_of_code_eq_zero hcode

end Pass

end HitOS.Bpf
