import HitOS.Bpf.Round
import HitOS.Lib.FuelLoop

/-!
# Progress of accepted programs

Does a run of an accepted program ever meet an instruction that the interpreter does not know? The
verifier and the interpreter select on the opcode separately, and the verifier lets through more
than is implemented.

* `step_forward` — every round moves ahead and stays inside the program, so a run takes no more
  rounds than there are instructions (`execute_terminates`), whatever the program does.
* `progress_of_run` — as long as taken jumps land on instructions, every state a run reaches stands
  at one, and its round goes on, ends at an exit or fails in a memory access, just if arithmetic
  there is implemented (`Implemented`).
* `unknown_encodings_accepted` — the verifier accepts arithmetic that is not, and jumps into the
  second slot of a 64-bit immediate load.
-/

namespace HitOS.Bpf

open BpfMapFile BpfState OrdMap

variable {insns : List BpfInsn} {packet : List Byte} {maps : ProgMaps} {s : BpfState} {k : Kinds}

section Forward

variable {s' : BpfState} {pc : Nat}

/-- The last instruction of an accepted program is an exit. -/
theorem exit_at_end (hv : verifyProgram insns = .ok ()) :
    0 < insns.length ∧ IsExit (insnAt insns (insns.length - 1)) := by
  unfold verifyProgram at hv
  split at hv
  · next last hlast =>
    split at hv
    · next hexit =>
      have hne : insns ≠ [] := by
        rintro rfl
        cases hlast
      refine ⟨List.length_pos_iff.mpr hne, ?_⟩
      have hat : insnAt insns (insns.length - 1) = last := by
        rw [List.getLast?_eq_getElem?] at hlast
        rw [insnAt, List.getD_eq_getElem?_getD, hlast]
        rfl
      rwa [hat]
    · cases hv
  · cases hv

/-- An instruction that is no exit is not the last one. -/
theorem succ_lt_of_not_exit (hv : verifyProgram insns = .ok ()) (hlt : pc < insns.length)
    (hexit : ¬ IsExit (insnAt insns pc)) : pc + 1 < insns.length := by
  obtain ⟨-, hend⟩ := exit_at_end hv
  by_contra hno
  obtain rfl : pc = insns.length - 1 := by omega
  exact hexit hend

/-- The target of a jump the verifier has checked. -/
theorem jumpTarget_of_verifyJmp {insn : BpfInsn} {len : Nat} {k' : Kinds} (hlen : len < 2 ^ 64)
    (hop : insn.jmpOp = .jeq ∨ insn.jmpOp = .jne) (hv : verifyJmp len pc insn k = .ok k') :
    pc < jumpTarget insn pc ∧ jumpTarget insn pc < len := by
  have hcheck : ∃ target, checkedJumpTarget pc insn.off len = .ok target ∧ pc < target := by
    unfold verifyJmp at hv
    rcases hop with hop | hop <;>
    · simp only [hop] at hv
      obtain ⟨target, htarget, hv⟩ := bind_eq_ok hv
      split at hv
      · cases hv
      · next hle => exact ⟨target, htarget, Nat.lt_of_not_le hle⟩
  obtain ⟨_, htarget, hpc⟩ := hcheck
  unfold checkedJumpTarget at htarget
  dsimp only at htarget
  split at htarget
  · cases htarget
  next hrange =>
  push Not at hrange
  cases htarget
  -- in range, so the cast to `usize` does not wrap
  have hcast : jumpTarget insn pc = (pc + 1 + insn.off.toInt : Int).toNat := by
    unfold jumpTarget
    rw [Int.emod_eq_of_lt hrange.1 (by omega)]
  rw [hcast]
  exact ⟨hpc, by omega⟩

/-- **Every round moves ahead**, and stays inside the program. From an instruction of the pass
control goes to the next one, or along a checked jump. -/
theorem step_forward (hv : verifyProgram insns = .ok ()) (hlen : insns.length < 2 ^ 64)
    (hs : step insns packet s = .ok (.next s')) : s.pc < s'.pc ∧ s'.pc < insns.length ∧
      (SecondSlot insns s'.pc → IsBranch (insnAt insns s.pc)) := by
  obtain ⟨hlt, hexit, hnext⟩ := step_eq_next hs
  -- the second slot of an immediate load is no instruction
  obtain ⟨k, hrec⟩ : ∃ k, Recorded insns s.pc k := by
    rcases recorded_or_unsupported hv hlt with h | hbad
    · exact h
    · simp [stepNext, hbad] at hnext
  obtain ⟨⟨pc', k'⟩, hverify⟩ := verifyInsn_of_recorded hv hrec hlt
  obtain ⟨_, _, hdst, hsrc, hacc⟩ := verifyInsn_eq_ok hverify
  have hflow := (stepNext_round hdst hsrc hnext).flows
  have hsucc := succ_lt_of_not_exit hv hlt hexit
  by_cases hbranch : IsBranch (insnAt insns s.pc)
  · have hpc : s.pc < s'.pc ∧ s'.pc < insns.length := by
      obtain ⟨hform, hop⟩ := hbranch
      unfold Accepts at hacc
      unfold Flows at hflow
      simp only [hform] at hacc hflow
      have hjump := jumpTarget_of_verifyJmp hlen hop hacc.1
      rcases hop with hop | hop <;>
      · simp only [hop] at hflow
        rcases hflow with hflow | hflow <;> rw [hflow]
        · exact ⟨Nat.lt_succ_self _, hsucc⟩
        · exact hjump
    exact ⟨hpc.1, hpc.2, fun _ => hbranch⟩
  · have hpc : s'.pc = pc' := pc_of_accepts hacc hflow hbranch
    have hrec' : Recorded insns s'.pc k' := hpc ▸ hrec.next hlt hverify
    have hlt' : s.pc < s'.pc ∧ s'.pc < insns.length := by
      rw [hpc]
      rcases verifyInsn_pc hverify with rfl | ⟨rfl, -, hcode⟩
      · exact ⟨Nat.lt_succ_self _, hsucc⟩
      · -- the second slot is no exit, so the program goes on behind it
        refine ⟨by omega, succ_lt_of_not_exit hv hsucc fun hexit' => ?_⟩
        rw [IsExit, BpfInsn.form_of_code_eq_zero hcode] at hexit'
        cases hexit'.1
    exact ⟨hlt'.1, hlt'.2, fun hslot => absurd hslot (hrec'.not_secondSlot hv hlt'.2)⟩

/-- One round as the body of a loop. -/
def loopBody (insns : List BpfInsn) (packet : List Byte) (s : BpfState) :
    Except Halt (BitVec 64) ⊕ BpfState :=
  match step insns packet s with
  | .error e => .inl (.error e)
  | .ok (.done r0) => .inl (.ok r0)
  | .ok (.next s') => .inr s'

theorem executeFrom_eq_run {fuel : Nat} (s : BpfState) :
    executeFrom insns packet fuel s = FuelLoop.run (loopBody insns packet) fuel s := by
  induction fuel generalizing s with
  | zero => rfl
  | succ _ ih =>
    unfold executeFrom FuelLoop.run loopBody
    cases step insns packet s with
    | error => rfl
    | ok o =>
      cases o with
      | next s' => exact ih s'
      | done => rfl

theorem loopBody_eq_inr (h : loopBody insns packet s = .inr s') : step insns packet s = .ok (.next s') := by
  unfold loopBody at h
  split at h
  · cases h
  · cases h
  · next t ht =>
    cases h
    exact ht

/-- **Runs end** after at most as many rounds as the program has instructions. -/
theorem execute_terminates (hv : verifyProgram insns = .ok ()) (hlen : insns.length < 2 ^ 64)
    (packet : List Byte)
    (maps : ProgMaps) : ∃ r, execute insns packet maps insns.length = some r := by
  unfold execute
  rw [executeFrom_eq_run]
  refine FuelLoop.run_of_measure (I := fun s : BpfState => s.pc < insns.length)
    (m := fun s => insns.length - 1 - s.pc) (fun s t hs ht => ?_) (exit_at_end hv).1 ?_
  · obtain ⟨h1, h2, -⟩ := step_forward hv hlen (loopBody_eq_inr ht)
    exact ⟨h2, by omega⟩
  · have := (exit_at_end hv).1
    omega

end Forward

/-! ### Failures -/

/-- A failure, if there is one, is not that of an unknown instruction. -/
def Known {α : Type} (x : Except SyscallError α) : Prop := ∀ e, x = .error e → e ≠ .enosys

section Failures

variable {α β : Type} {stack key data : List Byte} {base offset : BitVec 64} {off : BitVec 16} {fd len : Nat}

@[simp]
theorem Known.ok (a : α) : Known (.ok a : Except SyscallError α) := nofun

@[simp]
theorem known_error {e : SyscallError} : Known (.error e : Except SyscallError α) ↔ e ≠ .enosys := by
  simp [Known]

theorem Known.bind {x : Except SyscallError α} {f : α → Except SyscallError β} (hx : Known x)
    (hf : ∀ a, Known (f a)) : Known (x.bind f) := by
  cases x with
  | error e => exact known_error.mpr (hx e rfl)
  | ok a => exact hf a

theorem pointerOffsetToStack_known : Known (pointerOffsetToStack base off len) := by
  unfold pointerOffsetToStack
  split
  · simp
  split
  · simp
  · split <;> simp

theorem loadStack_known : Known (loadStack stack base off len) :=
  pointerOffsetToStack_known.bind fun _ => .ok _

theorem objectOffset_known : Known (objectOffset offset off) := by
  unfold objectOffset
  split
  · simp
  · split <;> simp

theorem arrayIndex_known : Known (arrayIndex key) := by
  unfold arrayIndex
  split <;> simp

theorem mapLookupBytes_known : Known (maps.mapLookupBytes fd key) := by
  unfold ProgMaps.mapLookupBytes
  split
  · unfold lookup
    split
    · split <;> simp
    · exact arrayIndex_known.bind fun _ => .ok _
    · simp
  · simp

theorem mapStoreBytes_known {offset : Nat} : Known (maps.mapStoreBytes fd key offset data) := by
  have hwrite : ∀ value, Known (writeBytes value offset data) := by
    intro _
    unfold writeBytes
    split <;> simp
  unfold ProgMaps.mapStoreBytes
  split
  · refine Known.bind ?_ fun _ => .ok _
    unfold storeBytes
    split
    · split
      · simp
      · split
        · simp
        · exact (hwrite _).bind fun _ => .ok _
    · refine arrayIndex_known.bind fun _ => ?_
      split
      · simp
      · exact (hwrite _).bind fun _ => .ok _
    · simp
  · simp

/-- A load fails in the access only. -/
theorem loadValue_known {src : RuntimeValue} {width : Width} :
    Known (loadValue maps stack packet src off width) := by
  refine Known.bind ?_ fun _ => .ok _
  unfold loadBytes
  split
  · exact loadStack_known
  · exact loadStack_known
  · refine objectOffset_known.bind fun _ => ?_
    refine mapLookupBytes_known.bind fun _ => ?_
    split
    · simp
    · split <;> simp
  · refine objectOffset_known.bind fun _ => ?_
    split <;> simp
  all_goals simp

/-- A store fails in the access only. -/
theorem storeValue_known {dst : RuntimeValue} : Known (storeValue maps stack dst off data) := by
  have hstack base : Known (storeStack stack base off data) := pointerOffsetToStack_known.bind fun _ => .ok _
  unfold storeValue
  split
  · exact (hstack _).bind fun _ => .ok _
  · exact (hstack _).bind fun _ => .ok _
  · refine objectOffset_known.bind fun _ => ?_
    exact mapStoreBytes_known.bind fun _ => .ok _
  all_goals simp

/-- The helper call fails in an access only, if it is the one helper there is. -/
theorem stepCall_known {insn : BpfInsn} (himm : insn.imm = bpfFuncMapLookupElem) {s : BpfState} :
    Known (stepCall insn s) := by
  unfold stepCall
  rw [if_neg (not_not.mpr himm)]
  split
  · refine Known.bind ?_ fun _ => Known.bind ?_ fun _ => ?_
    · unfold ProgMaps.mapKeySize
      split <;> simp
    · unfold loadStackKey
      split
      · exact loadStack_known
      · exact loadStack_known
      all_goals simp
    · exact mapLookupBytes_known.bind fun _ => .ok _
  · simp

end Failures

/-! ### Arithmetic that is implemented -/

/-- `exec_alu` has a case for the operation on this value. It refuses all arithmetic on map
values. -/
def AluOp.implemented (op : AluOp) (v : RuntimeValue) (is64 : Bool) : Bool :=
  match v with
  | .framePtr | .stackPtr _ | .packetPtr _ => op == .add || op == .sub
  | .mapValuePtr .. => true
  | .scalar _ | .null | .mapFd _ =>
    if is64 then op == .add || op == .sub || op == .lsh || op == .rsh
    else op == .div || op == .mod || op == .sub || op == .rsh

/-- The arithmetic of the instruction at hand, if it is one, is implemented for the value of its
register. -/
def Implemented (insns : List BpfInsn) (s : BpfState) : Prop :=
  ∀ is64 dst, (insnAt insns s.pc).form = .alu is64 → (insnAt insns s.pc).aluOp ≠ .mov →
    (insnAt insns s.pc).dstReg = Fin.val (n := maxBpfReg) dst →
    (insnAt insns s.pc).aluOp.implemented (s.regs dst) is64 = true

/-- How `exec_alu` fails. -/
theorem execAlu_error {v : RuntimeValue} {op : AluOp} {x : BitVec 64} {is64 : Bool} (hop : op ≠ .mov) :
    (execAlu v op x is64 = .error .enosys ↔ op.implemented v is64 = false) ∧
      ∀ e, execAlu v op x is64 = .error e → e = .enosys ∨ e = .eacces := by
  have hptr : ∀ mk cur, (execPtrAlu mk cur op x = .error .enosys ↔ (op == .add || op == .sub) = false) ∧
      ∀ e, execPtrAlu mk cur op x = .error e → e = .enosys ∨ e = .eacces := by
    cases op <;> simp_all [execPtrAlu]
  have hnum (w : RuntimeValue) : (execScalarAlu w.asU64 op x is64 = .error .enosys ↔ (if is64 then
      op == .add || op == .sub || op == .lsh || op == .rsh else op == .div || op == .mod || op == .sub || op
      == .rsh) = false) ∧ ∀ e, execScalarAlu w.asU64 op x is64 = .error e → e = .enosys ∨ e = .eacces := by
    cases is64 <;> cases op <;> simp_all [execScalarAlu, execAlu64, execAlu32]
  have hbind (w : RuntimeValue) e : ((execScalarAlu w.asU64 op x is64).bind fun r => .ok (.scalar r) :
      Except SyscallError RuntimeValue) = .error e ↔ execScalarAlu w.asU64 op x is64 = .error e := by
    cases execScalarAlu w.asU64 op x is64 <;> simp [Except.bind]
  cases v with
  | framePtr | stackPtr | packetPtr => exact hptr ..
  | mapValuePtr => simp [execAlu, AluOp.implemented]
  | scalar | mapFd => exact ⟨(hbind ..).trans (hnum _).1, fun e he => (hnum _).2 e ((hbind _ e).mp he)⟩
  | null => exact ⟨(hbind ..).trans (hnum .null).1, fun e he => (hnum .null).2 e ((hbind _ e).mp he)⟩

/-! ### How a round may end a run -/

/-- The failures of a memory access: of a load or a store, of the helper call, or of arithmetic on a
pointer to a map value. -/
def MayFault (insn : BpfInsn) (e : SyscallError) : Prop :=
  match insn.form with
  | .ldxMem | .stMem | .stxMem => e ≠ .enosys
  | .alu _ => e = .eacces
  | .jmp => insn.jmpOp = .call ∧ e ≠ .enosys
  | .ldImm64 | .unsupported => False

/-- A round goes on, ends the run at an exit, or fails in a memory access. -/
def EndsProperly (insn : BpfInsn) : Except Halt Outcome → Prop
  | .ok (.next _) => True
  | .ok (.done _) => IsExit insn
  | .error (.err e) => MayFault insn e
  | .error .panic => False

section Ends

variable {insn : BpfInsn} {k' : Kinds} {dst src : Reg} {e : Halt}

theorem orHalt_eq_error {α : Type} {x : Except SyscallError α} (h : orHalt x = .error e) :
    ∃ err, e = .err err ∧ x = .error err := by
  cases x with
  | ok => cases h
  | error err =>
    cases h
    exact ⟨err, rfl, rfl⟩

theorem bind_eq_error {ε α β : Type} {x : Except ε α} {f : α → Except ε β} {e : ε}
    (h : x.bind f = .error e) : x = .error e ∨ ∃ a, x = .ok a ∧ f a = .error e := by
  cases x with
  | error =>
    cases h
    exact .inl rfl
  | ok a => exact .inr ⟨a, rfl, h⟩

theorem operand_eq_ok (hsrc : insn.srcReg = src) : ∃ x, operand insn s = .ok x := by
  unfold operand
  split
  · rw [hsrc, regIndex_val]
    exact ⟨_, rfl⟩
  · exact ⟨_, rfl⟩

theorem imm_of_verifyJmp {len pc : Nat} (hop : insn.jmpOp = .call)
    (hv : verifyJmp len pc insn k = .ok k') : insn.imm = bpfFuncMapLookupElem := by
  unfold verifyJmp at hv
  simp only [hop] at hv
  split at hv
  · cases hv
  · next himm => exact not_not.mp himm

theorem stepStore_error (hdst : insn.dstReg = dst) {data : List Byte}
    (h : stepStore insn data s = .error e) : ∃ err, e = .err err ∧ err ≠ .enosys := by
  unfold stepStore at h
  rw [hdst, regIndex_val] at h
  rcases bind_eq_error h with h | ⟨_, heq, h⟩
  · cases h
  rcases bind_eq_error h with h | ⟨_, -, h⟩
  · obtain ⟨err, rfl, hx⟩ := orHalt_eq_error h
    exact ⟨err, rfl, storeValue_known err hx⟩
  · cases h

/-- **How a round fails**: not by a register number, and in a memory access just if arithmetic is
implemented. -/
theorem stepNext_error {pc' : Nat} (hat : insnAt insns s.pc = insn) (hdst : insn.dstReg = dst)
    (hsrc : insn.srcReg = src) (hacc : Accepts insns s.pc insn dst src k pc' k') (hexit : ¬ IsExit insn)
    (he : stepNext insns packet insn s = .error e) :
    ∃ err, e = .err err ∧ (MayFault insn err ↔ Implemented insns s) := by
  have hother err (hmay : MayFault insn err) (hform : ∀ is64, insn.form ≠ .alu is64) :
      MayFault insn err ↔ Implemented insns s :=
    iff_of_true hmay fun is64 _ h => absurd (hat ▸ h) (hform is64)
  unfold Accepts at hacc
  unfold stepNext at he
  cases hform : insn.form with
  | ldImm64 =>
    simp only [hform] at hacc he
    rw [stepLdImm64, if_neg (Nat.not_le_of_lt hacc.1), hdst, regIndex_val] at he
    cases he
  | ldxMem =>
    simp only [hform, stepLoad] at he
    rw [hdst, hsrc, regIndex_val, regIndex_val] at he
    rcases bind_eq_error he with h | ⟨_, heq, h⟩
    · cases h
    rcases bind_eq_error h with h | ⟨_, -, h⟩
    · obtain ⟨err, rfl, hx⟩ := orHalt_eq_error h
      refine ⟨err, rfl, hother err ?_ (by simp [hform])⟩
      rw [MayFault, hform]
      exact loadValue_known err hx
    · cases h
  | stMem =>
    simp only [hform] at he
    obtain ⟨err, rfl, hne⟩ := stepStore_error hdst he
    refine ⟨err, rfl, hother err ?_ (by simp [hform])⟩
    rwa [MayFault, hform]
  | stxMem =>
    simp only [hform] at he
    rw [hsrc, regIndex_val] at he
    obtain ⟨err, rfl, hne⟩ := stepStore_error hdst he
    refine ⟨err, rfl, hother err ?_ (by simp [hform])⟩
    rwa [MayFault, hform]
  | alu is64 =>
    simp only [hform, stepAlu] at he
    split at he
    · unfold movValue at he
      rw [hdst, hsrc, regIndex_val, regIndex_val] at he
      split at he <;> cases he
    next hmov =>
    obtain ⟨x, hx⟩ := operand_eq_ok hsrc
    rw [hx, hdst, regIndex_val] at he
    have himp : Implemented insns s ↔ insn.aluOp.implemented (s.regs dst) is64 = true := by
      rw [Implemented, hat]
      refine ⟨fun h => h is64 dst hform hmov hdst, fun h b r hb _ hr => ?_⟩
      obtain rfl : is64 = b := Form.alu.inj (hform.symm.trans hb)
      obtain rfl : dst = r := Fin.ext (hdst.symm.trans hr)
      exact h
    rcases @bind_eq_error _ _ _ (orHalt _) _ _ he with h | ⟨_, -, h⟩
    · obtain ⟨err, rfl, hexec⟩ := orHalt_eq_error h
      obtain ⟨hiff, herr⟩ := @execAlu_error (s.regs dst) _ x is64 hmov
      refine ⟨err, rfl, ?_⟩
      rw [himp, MayFault, hform]
      rcases herr err hexec with rfl | rfl
      · simp [hiff.mp hexec]
      · refine iff_of_true rfl (Bool.eq_true_of_not_eq_false fun h => ?_)
        cases hexec.symm.trans (hiff.mpr h)
    · cases h
  | jmp =>
    simp only [hform] at hacc he
    cases hop : insn.jmpOp with
    | call =>
      simp only [hop] at he
      obtain ⟨err, rfl, hx⟩ := orHalt_eq_error he
      refine ⟨err, rfl, hother err ?_ (by simp [hform])⟩
      rw [MayFault, hform]
      exact ⟨hop, stepCall_known (imm_of_verifyJmp hop hacc.1) err hx⟩
    | jeq | jne =>
      obtain ⟨x, hx⟩ := operand_eq_ok hsrc
      simp only [hop, stepJump] at he
      rw [hdst, regIndex_val, hx] at he
      cases he
    | exit => exact absurd ⟨hform, hop⟩ hexit
    | other =>
      have := hacc.1
      simp [verifyJmp, hop] at this
  | unsupported => simp [hform] at hacc

/-- **How a round ends**, at an instruction of the pass. -/
theorem endsProperly_iff (hv : verifyProgram insns = .ok ()) (hrec : Recorded insns s.pc k)
    (hlt : s.pc < insns.length) :
    EndsProperly (insnAt insns s.pc) (step insns packet s) ↔ Implemented insns s := by
  obtain ⟨⟨_, _⟩, hverify⟩ := verifyInsn_of_recorded hv hrec hlt
  obtain ⟨dst, src, hdst, hsrc, hacc⟩ := verifyInsn_eq_ok hverify
  unfold step
  by_cases hexit : IsExit (insnAt insns s.pc)
  · rw [if_pos (show _ ∨ (_ ∧ _) from .inr hexit)]
    refine ⟨fun _ is64 r hform => ?_, fun _ => hexit⟩
    rw [hexit.1] at hform
    cases hform
  rw [if_neg (show ¬ (_ ∨ (_ ∧ _)) from fun h => h.elim (fun h => absurd hlt (Nat.not_lt_of_le h)) hexit)]
  cases hnext : stepNext insns packet (insnAt insns s.pc) s with
  | ok =>
    refine iff_of_true trivial fun is64 r hform hmov hr => ?_
    obtain rfl : dst = r := Fin.ext (hdst.symm.trans hr)
    have hround := stepNext_round hdst hsrc hnext
    simp only [Round, hform, if_neg hmov] at hround
    obtain ⟨-, v, -, x, hx⟩ := hround
    refine Bool.eq_true_of_not_eq_false fun h => ?_
    cases hx.symm.trans ((execAlu_error hmov).1.mpr h)
  | error =>
    obtain ⟨err, rfl, hiff⟩ := stepNext_error rfl hdst hsrc hacc hexit hnext
    exact hiff

end Ends

/-! ### Whole runs -/

section Runs

/-- A conditional jump does not go into the second slot of a 64-bit immediate load. -/
def LandsOnInsn (insns : List BpfInsn) (s t : BpfState) : Prop :=
  IsBranch (insnAt insns s.pc) → ¬ SecondSlot insns t.pc

/-- **Progress.** A run of an accepted program ends after at most as many rounds as the program has
instructions. In every run whose conditional jumps land on instructions, every state reached stands
at an instruction, and its round goes on, ends at an exit or fails in a memory access just if the
arithmetic of the instruction is implemented. -/
theorem progress_of_run (hv : verifyProgram insns = .ok ()) (hlen : insns.length < 2 ^ 64)
    (hr : Reachable (· = init packet maps) (fun s t => BpfStep insns packet s t ∧ LandsOnInsn insns s t) s) :
    (∃ r, execute insns packet maps insns.length = some r) ∧ s.pc < insns.length ∧ ¬ SecondSlot insns s.pc ∧
      (EndsProperly (insnAt insns s.pc) (step insns packet s) ↔ Implemented insns s) := by
  have hinv : s.pc < insns.length ∧ ∃ k, Recorded insns s.pc k := by
    refine Reachable.invariant (I := fun s : BpfState => s.pc < insns.length ∧ ∃ k,
      Recorded insns s.pc k) ?_ ?_ hr
    · rintro s rfl
      exact ⟨(exit_at_end hv).1, initKinds, recorded_zero⟩
    rintro s t hi ⟨hst, hland⟩
    cases hst with
    | round h =>
      obtain ⟨-, hlt, hslot⟩ := step_forward hv hlen h
      refine ⟨hlt, (recorded_or_secondSlot hv hlt).resolve_right fun hno => ?_⟩
      exact hland (hslot hno) hno
    | interfere => exact hi
  obtain ⟨hlt, k, hrec⟩ := hinv
  exact ⟨execute_terminates hv hlen packet maps, hlt, hrec.not_secondSlot hv hlt, endsProperly_iff hv hrec hlt⟩

/-- `if r0 == 0 goto 3; r1 = 5 ll; exit`. -/
def jumpOverLdImm64 : List BpfInsn :=
  [⟨0x15, 0x00, 2, 0⟩, ⟨0x18, 0x01, 0, 5⟩, ⟨0, 0, 0, 0⟩, ⟨0x95, 0x00, 0, 0⟩]

/-- The jump over the immediate load is taken, and the run ends at the exit. -/
theorem progress_of_run_jump_over_load : ∃ s, s.pc = 3 ∧ ¬ SecondSlot jumpOverLdImm64 s.pc ∧
    (EndsProperly (insnAt jumpOverLdImm64 s.pc) (step jumpOverLdImm64 [] s) ↔
      Implemented jumpOverLdImm64 s) := by
  have hinit : Reachable (· = init [] empty)
      (fun s t => BpfStep jumpOverLdImm64 [] s t ∧ LandsOnInsn jumpOverLdImm64 s t)
      (init [] empty) := .start rfl
  -- the pass arrives at the target after the two slots of the load
  have hrec : Recorded jumpOverLdImm64 3 (Function.update initKinds 1 .scalar) := ⟨2, rfl⟩
  have hland : ¬ SecondSlot jumpOverLdImm64 3 := hrec.not_secondSlot rfl (by decide)
  have hjump := hinit.step ⟨.round rfl, fun _ => hland⟩
  exact ⟨_, rfl, (progress_of_run rfl (by decide) hjump).2.2⟩

/-- `r0 *= 1; exit`. -/
def multiply : List BpfInsn := [⟨0x27, 0x00, 0, 1⟩, ⟨0x95, 0x00, 0, 0⟩]

/-- `if r0 == 0 goto 2; r1 = 5 ll; exit`, where 2 is the second slot of the load. -/
def jumpIntoLdImm64 : List BpfInsn :=
  [⟨0x15, 0x00, 1, 0⟩, ⟨0x18, 0x01, 0, 5⟩, ⟨0, 0, 0, 0⟩, ⟨0x95, 0x00, 0, 0⟩]

/-- The verifier accepts a multiplication, which the interpreter does not implement, and a jump into
the second slot of a load; both runs stop with `ENOSYS`. -/
theorem unknown_encodings_accepted : (verifyProgram multiply = .ok () ∧
      execute multiply [] empty 2 = some (.error (.err .enosys))) ∧
    verifyProgram jumpIntoLdImm64 = .ok () ∧
      (∃ s, Reachable (· = init [] empty) (BpfStep jumpIntoLdImm64 []) s ∧ SecondSlot jumpIntoLdImm64 s.pc) ∧
      execute jumpIntoLdImm64 [] empty 4 = some (.error (.err .enosys)) := by
  have hinit : Reachable (· = init [] empty) (BpfStep jumpIntoLdImm64 []) (init [] empty) := .start rfl
  exact ⟨⟨rfl, rfl⟩, rfl, ⟨_, hinit.step (.round rfl), 1, _, ⟨1, rfl⟩, rfl, rfl, rfl⟩, rfl⟩

end Runs

end HitOS.Bpf
