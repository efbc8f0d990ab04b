import HitOS.Bpf.Round

/-!
# Kinds recorded by the verifier and values met at run time

The verifier passes over the instructions in order, while execution follows the jumps. As long as a
taken jump finds, for each register the target still needs as a pointer, the kind it had at the
jump, every register used as a pointer holds a value of the kind the verifier recorded there:
`kinds_sound_of_run`. A jump that skips the assignment which made a register a pointer is accepted
all the same, and then a scalar is used as one: `jump_over_pointer_init`.

* `Needs insns pc r`: on some way onwards from `pc` the value of `r` reaches an instruction that
  uses it as a pointer.
* `Carries` says which register a value came from, over one instruction.
* `matches_step` is the step from one instruction to the next in the order of the pass.
-/

namespace HitOS.Bpf

open Function Except BpfState OrdMap

/-! ### Pointers in use -/

/-- The registers an instruction uses as pointers or as a map descriptor. -/
def UsesPointer (insn : BpfInsn) (r : Reg) : Prop :=
  match insn.form with
  | .ldxMem => r = insn.srcReg
  | .stMem | .stxMem => r = insn.dstReg
  | .jmp => insn.jmpOp = .call ∧ (r = 1 ∨ r = 2)
  | .ldImm64 | .alu _ | .unsupported => False

/-- The value `r'` holds after the instruction is the one `r` held before, possibly moved by an
offset. -/
def Carries (insn : BpfInsn) (r r' : Reg) : Prop :=
  match insn.form with
  | .ldImm64 | .ldxMem => r' = r ∧ r ≠ insn.dstReg
  | .stMem | .stxMem => r' = r
  | .alu _ =>
    if r' = insn.dstReg ∧ insn.aluOp = .mov then insn.srcIsReg = true ∧ r = insn.srcReg else r' = r
  | .jmp => r' = r ∧ ¬ (insn.jmpOp = .call ∧ r = 0)
  | .unsupported => False

/-- The value of `r` at `pc` may be used as a pointer further on. -/
inductive Needs (insns : List BpfInsn) : Nat → Reg → Prop
  | use {pc : Nat} {r : Reg} (h : UsesPointer (insnAt insns pc) r) : Needs insns pc r
  | pass {pc pc' : Nat} {r r' : Reg} (hflow : Flows (insnAt insns pc) pc pc')
      (hcarry : Carries (insnAt insns pc) r r') (h : Needs insns pc' r') : Needs insns pc r

/-- Going from `pc` to `pc'` over a conditional jump, every register still needed has at `pc'` the
kind it had at `pc`. -/
def JoinAgrees (insns : List BpfInsn) (pc pc' : Nat) : Prop :=
  IsBranch (insnAt insns pc) → ∀ k k', Recorded insns pc k → Recorded insns pc' k' →
    ∀ r, Needs insns pc' r → k r = k' r

/-- At this state, every register the next instruction uses as a pointer holds a value of the kind
the verifier recorded there, and no scalar is used as one. -/
def KindsSound (insns : List BpfInsn) (s : BpfState) : Prop :=
  s.pc < insns.length → ∀ r, UsesPointer (insnAt insns s.pc) r →
    ∃ k, Recorded insns s.pc k ∧ Matches (k r) (s.regs r) ∧ ∀ v, s.regs r ≠ .scalar v

/-! ### One step in the order of the pass -/

variable {insns : List BpfInsn} {packet : List Byte} {maps : ProgMaps} {s s' : BpfState}

section Steps

variable {insn : BpfInsn} {dst src : Reg} {k k' : Kinds} {pc' : Nat} {v : RuntimeValue}

/-- Moving a pointer leaves it in its object. -/
theorem execPtrAlu_eq_ok {mk : BitVec 64 → RuntimeValue} {cur x : BitVec 64} {op : AluOp}
    (hop : op = .add ∨ op = .sub) (h : execPtrAlu mk cur op x = .ok v) : ∃ off, v = mk off := by
  rcases hop with rfl | rfl <;> exact ⟨_, (ok.inj h).symm⟩

/-- What the verifier's arithmetic allows: numbers stay numbers, and pointers move by an addition or
a subtraction within the stack or the packet. -/
theorem verifyArith_eq_ok (hv : verifyArith insn dst src k = .ok k') :
    (k dst = .scalar ∧ k' = update k dst .scalar) ∨ ((insn.aluOp = .add ∨ insn.aluOp = .sub) ∧
        ((k dst = .packetPtr ∧ k' = k) ∨ ((k dst).onStack = true ∧ k' = update k dst .stackPtr))) := by
  unfold verifyArith at hv
  split at hv
  · cases hv
  cases hkind : k dst with
  | mapFd | mapValuePtr => simp [hkind] at hv
  | scalar =>
    simp only [hkind] at hv
    exact .inl ⟨rfl, (ok.inj hv).symm⟩
  | framePtr | stackPtr | packetPtr =>
  simp only [hkind] at hv
  split at hv
  · cases hv
  next _ =>
  cases hv
  refine .inr ⟨by tauto, ?_⟩
  simp [RegKind.onStack]

variable {kd : RegKind}

theorem matches_onStack (hkd : kd.onStack = true) (h : Matches kd v) :
    v = .framePtr ∨ ∃ off, v = .stackPtr off := by
  cases v with
  | framePtr => exact .inl rfl
  | stackPtr off => exact .inr ⟨off, rfl⟩
  | scalar | null | mapFd | mapValuePtr | packetPtr =>
    cases kd with
    | framePtr | stackPtr => exact h.elim
    | scalar | mapFd | mapValuePtr | packetPtr => cases hkd

/-- Pointer arithmetic at run time gives the kind the verifier computes. -/
theorem matches_execAlu {v' : RuntimeValue} {x : BitVec 64} {is64 : Bool}
    (hv : verifyArith insn dst src k = .ok k')
    (hk : Matches (k dst) v) (hx : execAlu v insn.aluOp x is64 = .ok v') : Matches (k' dst) v' := by
  rcases verifyArith_eq_ok hv with ⟨hkind, rfl⟩ | ⟨hop, ⟨hkind, rfl⟩ | ⟨hkind, rfl⟩⟩
  · rw [hkind] at hk
    rw [update_self]
    cases v with
    | scalar =>
      obtain ⟨r, -, hr⟩ := bind_eq_ok hx
      cases hr
      trivial
    | null | mapFd | framePtr | stackPtr | mapValuePtr | packetPtr => exact hk.elim
  · rw [hkind] at hk ⊢
    cases v with
    | packetPtr =>
      obtain ⟨off', rfl⟩ := execPtrAlu_eq_ok hop hx
      trivial
    | scalar | null | mapFd | framePtr | stackPtr | mapValuePtr => exact hk.elim
  · rw [update_self]
    have hptr : ∃ off, execPtrAlu .stackPtr off insn.aluOp x = .ok v' := by
      rcases matches_onStack hkind hk with rfl | ⟨off, rfl⟩ <;> exact ⟨_, hx⟩
    obtain ⟨_, hoff⟩ := hptr
    obtain ⟨_, rfl⟩ := execPtrAlu_eq_ok hop hoff
    trivial

/-- The jump arm of the verifier: only the helper call changes a kind. -/
theorem verifyJmp_eq_ok {len pc : Nat} (hv : verifyJmp len pc insn k = .ok k') :
    if insn.jmpOp = .call then k 1 = .mapFd ∧ (k 2).onStack = true ∧ k' = update k 0 .mapValuePtr
    else k' = k := by
  unfold verifyJmp at hv
  cases hop : insn.jmpOp with
  | call =>
    simp only [hop] at hv
    iterate 3
      split at hv
      · cases hv
    · next _ hfd hkey => exact ⟨not_not.mp hfd, not_not.mp hkey, (ok.inj hv).symm⟩
  | exit =>
    simp only [hop] at hv
    exact (ok.inj hv).symm
  | jeq | jne =>
    simp only [hop] at hv
    obtain ⟨_, -, hv⟩ := bind_eq_ok hv
    split at hv
    · cases hv
    · exact (ok.inj hv).symm
  | other => simp [hop] at hv

/-- After an assignment to `d`, a register holds a value of its kind if the new value has its kind
and the register, when it is another one, held one before. -/
theorem matches_update {d r : Reg} {regs : Reg → RuntimeValue} (hnew : r = d → Matches kd v)
    (hold : r ≠ d → Matches (k r) (regs r)) : Matches (update k d kd r) (update regs d v r) := by
  by_cases hr : r = d
  · subst hr
    rw [update_self, update_self]
    exact hnew rfl
  · rw [update_of_ne hr, update_of_ne hr]
    exact hold hr

/-- **One step in the order of the pass.** If the values that reach a register through the
instruction have their recorded kinds before it, the register has its recorded kind after it. -/
theorem matches_step (hdst : insn.dstReg = dst) (hsrc : insn.srcReg = src)
    (hacc : Accepts insns s.pc insn dst src k pc' k') (hround : Round insn dst src s s') {r' : Reg}
    (hm : ∀ r, Carries insn r r' → Matches (k r) (s.regs r)) : Matches (k' r') (s'.regs r') := by
  unfold Accepts at hacc
  unfold Round at hround
  unfold Carries at hm
  have hother (hr : r' ≠ dst) : ↑r' ≠ insn.dstReg := fun heq => hr (Fin.ext (heq.trans hdst))
  cases hform : insn.form with
  | ldImm64 =>
    simp only [hform] at hacc hround hm
    obtain ⟨-, -, -, rfl⟩ := hacc
    obtain ⟨-, v, hv, hregs⟩ := hround
    rw [hregs]
    exact matches_update (fun _ => hv) fun hr => hm r' ⟨rfl, hother hr⟩
  | ldxMem =>
    simp only [hform] at hacc hround hm
    obtain ⟨-, -, rfl⟩ := hacc
    obtain ⟨-, v, hregs⟩ := hround
    rw [hregs]
    exact matches_update (fun _ => trivial) fun hr => hm r' ⟨rfl, hother hr⟩
  | stMem =>
    simp only [hform] at hacc hround hm
    obtain ⟨-, -, rfl⟩ := hacc
    rw [hround.2]
    exact hm r' rfl
  | stxMem =>
    simp only [hform] at hacc hround hm
    obtain ⟨-, -, -, rfl⟩ := hacc
    rw [hround.2]
    exact hm r' rfl
  | alu =>
    simp only [hform] at hacc hround hm
    obtain ⟨hverify, -⟩ := hacc
    obtain ⟨-, v, hregs, hv⟩ := hround
    rw [hregs]
    unfold verifyAlu at hverify
    by_cases hmov : insn.aluOp = .mov
    · rw [if_pos hmov] at hverify hv
      cases hverify
      refine matches_update (fun hr => ?_) fun hr => hm r' ?_
      · split
        · next hreg =>
          rw [if_pos hreg] at hv
          rw [hv]
          refine hm src ?_
          rw [if_pos ⟨by rw [hr, hdst], hmov⟩]
          exact ⟨hreg, hsrc.symm⟩
        · next hreg =>
          rw [if_neg hreg] at hv
          obtain ⟨x, rfl⟩ := hv
          trivial
      · rw [if_neg fun h => hother hr h.1]
    · rw [if_neg hmov] at hverify hv
      obtain ⟨x, hx⟩ := hv
      have hsame : Matches (k r') (s.regs r') := by
        refine hm r' ?_
        rw [if_neg fun h => hmov h.2]
      by_cases hr : r' = dst
      · subst hr
        rw [update_self]
        exact matches_execAlu hverify hsame hx
      · rw [update_of_ne hr]
        rcases verifyArith_eq_ok hverify with ⟨-, rfl⟩ | ⟨-, ⟨-, rfl⟩ | ⟨-, rfl⟩⟩
        · rwa [update_of_ne hr]
        · exact hsame
        · rwa [update_of_ne hr]
  | jmp =>
    simp only [hform] at hacc hround hm
    have hk := verifyJmp_eq_ok hacc.1
    cases hop : insn.jmpOp with
    | call =>
      simp only [hop] at hk hround
      obtain ⟨-, -, rfl⟩ := hk
      obtain ⟨-, v, hv, hregs⟩ := hround
      rw [hregs]
      exact matches_update (fun _ => hv) fun hr => hm r' ⟨rfl, fun h => hr h.2⟩
    | jeq | jne =>
      rw [hop] at hk
      simp only [hop] at hround
      rw [hk, hround.2]
      exact hm r' ⟨rfl, fun h => by simp [hop] at h⟩
    | exit | other => simp [hop] at hround
  | unsupported => simp [hform] at hacc

end Steps

/-! ### Whole runs -/

section Runs

/-- The registers a run still needs have their recorded kinds, unless the next round ends the
run. -/
def KindInv (insns : List BpfInsn) (s : BpfState) : Prop :=
  insns.length ≤ s.pc ∨ (insnAt insns s.pc).form = .unsupported ∨
    ∃ k, Recorded insns s.pc k ∧ ∀ r, Needs insns s.pc r → Matches (k r) (s.regs r)

theorem kindInv_init : KindInv insns (.init packet maps) := by
  refine .inr (.inr ⟨initKinds, recorded_zero, fun r _ => ?_⟩)
  refine matches_update (fun _ => trivial) fun _ => ?_
  by_cases h2 : r = 2
  · subst h2
    trivial
  · rw [update_of_ne h2]
    exact matches_update (fun _ => trivial) fun _ => trivial

section

variable (hv : verifyProgram insns = .ok ())

include hv

theorem kindInv_round (hi : KindInv insns s)
    (hs : step insns packet s = .ok (.next s')) (hjoin : JoinAgrees insns s.pc s'.pc) : KindInv insns s' := by
  obtain ⟨hlt, -, hnext⟩ := step_eq_next hs
  rcases hi with hend | hbad | ⟨k, hrec, hk⟩
  · omega
  · simp [stepNext, hbad] at hnext
  obtain ⟨⟨pc', k'⟩, hverify⟩ := verifyInsn_of_recorded hv hrec hlt
  obtain ⟨_, _, hdst, hsrc, hacc⟩ := verifyInsn_eq_ok hverify
  have hround := stepNext_round hdst hsrc hnext
  have hflow := hround.flows
  have hnew : ∀ r', Needs insns s'.pc r' → Matches (k' r') (s'.regs r') := by
    intro _ hr'
    exact matches_step hdst hsrc hacc hround fun r hcarry => hk r (.pass hflow hcarry hr')
  by_cases hbranch : IsBranch (insnAt insns s.pc)
  · -- a jump changes no kind, so the record at its target has to agree with the one here
    have hkk : k' = k := by
      obtain ⟨hform, hop⟩ := hbranch
      unfold Accepts at hacc
      simp only [hform] at hacc
      have hjmp := verifyJmp_eq_ok hacc.1
      rwa [if_neg (by rcases hop with h | h <;> simp [h])] at hjmp
    rw [hkk] at hnew
    by_cases hend : insns.length ≤ s'.pc
    · exact .inl hend
    rcases recorded_or_unsupported hv (not_le.mp hend) with ⟨kt, hkt⟩ | hbad
    · refine .inr (.inr ⟨kt, hkt, fun r hr => ?_⟩)
      rw [← hjoin hbranch k kt hrec hkt r hr]
      exact hnew r hr
    · exact .inr (.inl hbad)
  · -- otherwise control goes where the pass goes
    have hpc : s'.pc = pc' := pc_of_accepts hacc hflow hbranch
    refine .inr (.inr ⟨k', ?_, hnew⟩)
    rw [hpc]
    exact hrec.next hlt hverify

/-- A kind the verifier lets an instruction use as a pointer is not a scalar. -/
theorem kind_ne_scalar {pc : Nat} {k : Kinds} (hrec : Recorded insns pc k)
    (hlt : pc < insns.length) {r : Reg} (hu : UsesPointer (insnAt insns pc) r) : k r ≠ .scalar := by
  obtain ⟨⟨_, _⟩, hverify⟩ := verifyInsn_of_recorded hv hrec hlt
  obtain ⟨dst, src, hdst, hsrc, hacc⟩ := verifyInsn_eq_ok hverify
  unfold UsesPointer at hu
  unfold Accepts at hacc
  intro hk
  cases hform : (insnAt insns pc).form with
  | ldxMem =>
    simp only [hform] at hu hacc
    obtain rfl : r = src := Fin.ext (hu.trans hsrc)
    simp [hk, RegKind.readable] at hacc
  | stMem | stxMem =>
    simp only [hform] at hu hacc
    obtain rfl : r = dst := Fin.ext (hu.trans hdst)
    simp [hk, RegKind.writable] at hacc
  | jmp =>
    simp only [hform] at hu hacc
    have hjmp := verifyJmp_eq_ok hacc.1
    rw [if_pos hu.1] at hjmp
    rcases hu.2 with rfl | rfl
    · rw [hk] at hjmp
      cases hjmp.1
    · rw [hk] at hjmp
      cases hjmp.2.1
  | ldImm64 | alu | unsupported => simp [hform] at hu

theorem KindInv.sound (hi : KindInv insns s) : KindsSound insns s := by
  intro hlt r hu
  rcases hi with hend | hbad | ⟨k, hrec, hk⟩
  · omega
  · simp [UsesPointer, hbad] at hu
  · have hm := hk r (.use hu)
    refine ⟨k, hrec, hm, fun v hscalar => kind_ne_scalar hv hrec hlt hu ?_⟩
    rw [hscalar] at hm
    cases hkd : k r with
    | scalar => rfl
    | mapFd | framePtr | stackPtr | mapValuePtr | packetPtr =>
      rw [hkd] at hm
      exact hm.elim

end

/-- **Recorded kinds are the kinds met.** In every run of an accepted program, on any packet and
with any contents of the maps, whose conditional jumps all lead to an instruction where each
register still needed as a pointer is recorded with the kind it has at the jump: a register used as
a pointer holds a value of the kind the verifier recorded at that instruction, and never a
scalar. -/
theorem kinds_sound_of_run (hv : verifyProgram insns = .ok ())
    (hr : Reachable (· = init packet maps)
      (fun s t => BpfStep insns packet s t ∧ JoinAgrees insns s.pc t.pc) s) :
    KindsSound insns s := by
  refine KindInv.sound hv (Reachable.invariant ?_ ?_ hr)
  · rintro s rfl
    exact kindInv_init
  · rintro s t hi ⟨hst, hjoin⟩
    cases hst with
    | round h => exact kindInv_round hv hi h hjoin
    | interfere => exact hi

/-- `r2 = r10; if r0 == 0 goto 3; r3 = 5; r4 = *(u64 *)(r2 - 8); exit`. -/
def loadAfterJump : List BpfInsn :=
  [⟨0xbf, 0xa2, 0, 0⟩, ⟨0x15, 0x00, 1, 0⟩, ⟨0xb7, 0x03, 0, 5⟩, ⟨0x79, 0x24, 0xfff8, 0⟩, ⟨0x95, 0x00, 0, 0⟩]

/-- The jump is taken, and the load at its target goes through the frame pointer. -/
theorem kinds_sound_of_run_load_after_jump :
    ∃ s, s.pc = 3 ∧ UsesPointer (insnAt loadAfterJump s.pc) 2 ∧ KindsSound loadAfterJump s := by
  have hinit : Reachable (· = init [] empty)
      (fun s t => BpfStep loadAfterJump [] s t ∧ JoinAgrees loadAfterJump s.pc t.pc)
      (init [] empty) := .start rfl
  have hmov := hinit.step ⟨.round rfl, fun hb => absurd hb.1 (by decide)⟩
  have hagree : JoinAgrees loadAfterJump 1 3 := by
    intro _ _ _ hk hk' r hneeds
    rw [hk.unique ⟨1, rfl⟩, hk'.unique ⟨3, rfl⟩]
    clear hneeds
    revert r
    decide
  have hjump := hmov.step ⟨.round rfl, hagree⟩
  have huses : UsesPointer (insnAt loadAfterJump 3) 2 := rfl
  exact ⟨_, rfl, huses, kinds_sound_of_run rfl hjump⟩

/-- `r2 = 0x1234; if r0 == 0 goto 3; r2 = r10; r3 = *(u64 *)(r2 - 8); exit`. -/
def jumpOverPointerInit : List BpfInsn :=
  [⟨0xb7, 0x02, 0, 0x1234⟩, ⟨0x15, 0x00, 1, 0⟩, ⟨0xbf, 0xa2, 0, 0⟩, ⟨0x79, 0x23, 0xfff8, 0⟩,
    ⟨0x95, 0x00, 0, 0⟩]

/-- The verifier accepts the program and records `r2` as the frame pointer at the load; the run
jumps there with the program's own number in `r2`, and `execute` fails. -/
theorem jump_over_pointer_init : verifyProgram jumpOverPointerInit = .ok () ∧
      (∃ s, Reachable (· = init [] empty) (BpfStep jumpOverPointerInit []) s ∧
        s.pc = 3 ∧ UsesPointer (insnAt jumpOverPointerInit 3) 2 ∧
        (∃ k, Recorded jumpOverPointerInit 3 k ∧ k 2 = .framePtr) ∧
        s.regs 2 = .scalar 0x1234 ∧ ¬ KindsSound jumpOverPointerInit s) ∧
      execute jumpOverPointerInit [] empty 5 = some (.error (.err .einval)) := by
  have hinit : Reachable (· = init [] empty) (BpfStep jumpOverPointerInit []) (init [] empty) := .start rfl
  have hrun := (hinit.step (.round rfl)).step (.round rfl)
  refine ⟨rfl, ⟨_, hrun, rfl, rfl, ⟨_, ⟨3, rfl⟩, rfl⟩, rfl, fun hsound => ?_⟩, rfl⟩
  obtain ⟨k, -, -, hscalar⟩ := hsound (by decide) 2 rfl
  exact hscalar 0x1234 rfl

end Runs

end HitOS.Bpf
