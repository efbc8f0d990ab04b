import HitOS.Net.Cbpf

/-!
# Safety of accepted socket filters

What `validate` guarantees about `execute`, for every packet.

* `Accepted` is what the check has established about each instruction; `exec_forward` turns it into
  progress: every round moves ahead and stays inside the filter.
* `exec_fails_iff` — where a round makes `execute` return `None`, it loads outside the packet or
  divides by a zero `X`, unless the instruction is one that `Slipped` through.
* `filter_safe_of_accepted` — the result for every round of every run. `validate` compares whole
  codes where the interpreter masks them, so a code with a bit above the low byte evades the checks
  of constant divisors and scratch indices (`slipped_filters_accepted`).
-/

namespace HitOS.Cbpf

open Option Nat

/-! ### What the check establishes -/

/-- What `validate` has checked. -/
structure Accepted (insns : List ClassicBpfInsn) : Prop where
  short : insns.length ≤ bpfMaxinsns
  code : ∀ (pc : Nat) (insn : ClassicBpfInsn), insns[pc]? = some insn → codeAllowed insn.code = true
  operand : ∀ (pc : Nat) (insn : ClassicBpfInsn), insns[pc]? = some insn →
    operandAllowed insns.length pc insn = true
  /-- The last instruction is a return, so there is one. -/
  last : ∃ insn, insns.getLast? = some insn ∧ classOf insn.code = .ret

theorem validateFrom_eq_ok {len pc : Nat} {rest : List ClassicBpfInsn} (h : validateFrom len pc rest = .ok ())
    (i : Nat) {insn : ClassicBpfInsn} (hi : rest[i]? = some insn) :
    codeAllowed insn.code = true ∧ operandAllowed len (pc + i) insn = true := by
  induction rest generalizing pc i with
  | nil => cases hi
  | cons _ _ ih =>
    unfold validateFrom at h
    split at h
    · cases h
    next hcode =>
    split at h
    · cases h
    next hoperand =>
    cases i with
    | zero =>
      cases hi
      simp only [Bool.not_eq_eq_eq_not, Bool.not_true, Bool.not_eq_false] at hcode hoperand
      exact ⟨hcode, hoperand⟩
    | succ i =>
      rw [Nat.add_comm i 1, ← Nat.add_assoc]
      exact ih h i hi

theorem accepted_of_validate {insns : List ClassicBpfInsn} (h : validate insns = .ok ()) : Accepted insns := by
  unfold validate at h
  split at h
  · cases h
  next hsize =>
  have hshort : insns.length ≤ bpfMaxinsns := Nat.le_of_not_lt fun h => hsize (.inr h)
  cases hloop : validateFrom insns.length 0 insns with
  | error =>
    rw [hloop] at h
    cases h
  | ok =>
    rw [hloop] at h
    refine ⟨hshort, fun pc insn hpc => (validateFrom_eq_ok hloop pc hpc).1, fun pc insn hpc => ?_, ?_⟩
    · have hoperand := (validateFrom_eq_ok hloop pc hpc).2
      rwa [Nat.zero_add] at hoperand
    split at h
    · next insn hlast =>
      split at h
      · next hret =>
        refine ⟨insn, hlast, ?_⟩
        rcases hret with hret | hret <;> rw [hret] <;> decide
      · cases h
    · cases h

variable {insns : List ClassicBpfInsn} {packet : Packet} {s : FilterState}

section Instructions

variable {insn : ClassicBpfInsn} {s' : FilterState} {pc : Nat} {code : BitVec 16} {x : Option FilterState}

theorem Accepted.length_pos (ha : Accepted insns) : 0 < insns.length := by
  obtain ⟨_, hlast, -⟩ := ha.last
  have hne : insns ≠ [] := by
    rintro rfl
    cases hlast
  exact List.length_pos_iff.mpr hne

/-- An instruction that is no return is not the last one. -/
theorem Accepted.succ_lt (ha : Accepted insns) (hpc : insns[pc]? = some insn)
    (hret : classOf insn.code ≠ .ret) : pc + 1 < insns.length := by
  obtain ⟨_, hlast, hclass⟩ := ha.last
  have hlt : pc < insns.length := (getElem?_eq_some_iff.mp hpc).1
  by_contra hno
  obtain rfl : pc = insns.length - 1 := by omega
  rw [List.getLast?_eq_getElem?, hpc] at hlast
  cases hlast
  exact hret hclass

/-! ### Codes -/

/-- The interpreter has an arm for the code: none of its catch-all arms is taken. -/
def Known (code : BitVec 16) : Prop :=
  match classOf code with
  | .ld | .ldx => modeOf code ≠ .other ∧ (modeOf code = .abs ∨ modeOf code = .ind → sizeOf code ≠ .other)
  | .alu => aluOpOf code ≠ .other
  | .jmp => jmpOpOf code ≠ .other
  | .misc => miscOpOf code ≠ .other
  | .st | .stx | .ret => True

/-- **Every allowed code is known** to the interpreter. -/
theorem known_of_allowed (h : codeAllowed code = true) : Known code := by
  unfold codeAllowed at h
  unfold Known
  cases hclass : classOf code with
  | ld | ldx =>
    cases hmode : modeOf code <;> cases hsize : sizeOf code <;> simp_all
  | alu | jmp | misc =>
    simp only [hclass] at h ⊢
    rintro hop
    simp [hop] at h
  | st | stx | ret => trivial

/-- A store to scratch memory is checked. -/
theorem Accepted.store_index (ha : Accepted insns) (hpc : insns[pc]? = some insn)
    (hclass : classOf insn.code = .st ∨ classOf insn.code = .stx) : insn.k.toNat < bpfMemwords := by
  have hcode := ha.code pc insn hpc
  have hoperand := ha.operand pc insn hpc
  have hexact : insn.code = 0x02 ∨ insn.code = 0x03 := by
    unfold codeAllowed at hcode
    rcases hclass with hclass | hclass <;> simpa [hclass] using hcode
  unfold operandAllowed at hoperand
  rcases hexact with hexact | hexact <;> simpa [hexact] using hoperand

/-- An unconditional jump is checked. -/
theorem Accepted.ja_target (ha : Accepted insns) (hpc : insns[pc]? = some insn)
    (hclass : classOf insn.code = .jmp)
    (hop : jmpOpOf insn.code = .ja) : pc + (1 + insn.k.toNat) < insns.length := by
  have hcode := ha.code pc insn hpc
  have hoperand := ha.operand pc insn hpc
  have hexact : insn.code = 0x05 := by
    unfold codeAllowed at hcode
    simpa [hclass, hop] using hcode
  unfold operandAllowed at hoperand
  have hlt : insn.k.toNat < insns.length - pc - 1 := by simpa [hexact, classOf] using hoperand
  omega

/-- A conditional jump is checked on both sides. -/
theorem Accepted.jump_target (ha : Accepted insns) (hpc : insns[pc]? = some insn)
    (hclass : classOf insn.code = .jmp) (hop : jmpOpOf insn.code ≠ .ja) (t : Bool) :
    pc + (1 + (if t then insn.jt else insn.jf).toNat) < insns.length := by
  have hoperand := ha.operand pc insn hpc
  -- no other arm takes the code of a conditional jump
  have hother : ∀ c : BitVec 16, classOf c ≠ .jmp ∨ jmpOpOf c = .ja → insn.code ≠ c := by
    rintro c hc rfl
    rcases hc with hc | hc
    · exact hc hclass
    · exact hop hc
  unfold operandAllowed at hoperand
  have hpair (c d : BitVec 16) (hc : (classOf c ≠ .jmp ∨ jmpOpOf c = .ja)) (hd :
      (classOf d ≠ .jmp ∨ jmpOpOf d = .ja)) : ¬ (insn.code = c ∨ insn.code = d) :=
    not_or.mpr ⟨hother c hc, hother d hd⟩
  rw [if_neg (hpair _ _ (by decide) (by decide)), if_neg (hpair _ _ (by decide) (by decide)),
    if_neg (not_or.mpr ⟨hother _ (by decide),
      not_or.mpr ⟨hother _ (by decide), hpair _ _ (by decide) (by decide)⟩⟩),
    if_neg (by simp [hclass]), if_neg (hother _ (by decide)), if_pos ⟨hclass, hop⟩] at hoperand
  have hlt : pc + insn.jt.toNat + 1 < insns.length ∧ pc + insn.jf.toNat + 1 < insns.length := by
    simpa using hoperand
  cases t <;> simp <;> omega

/-! ### Rounds -/

theorem orFail_eq_inr (h : orFail x = .inr s') : x = some s' := by
  cases x with
  | none => cases h
  | some => exact congrArg some (Sum.inr.inj h)

section

variable (ha : Accepted insns)

include ha

/-- A jump that stays inside the filter. -/
theorem jumpBy_eq_some {n : Nat} (h : s.pc + n < insns.length) :
    jumpBy n s = some { s with pc := s.pc + n } := by
  have hshort := ha.short
  exact if_pos (by unfold usizeMax; unfold bpfMaxinsns at hshort; omega)

/-- The instruction computes a value: outside of loads and arithmetic there is nothing to fail. -/
def Computes (insn : ClassicBpfInsn) : Prop :=
  classOf insn.code = .ld ∨ classOf insn.code = .ldx ∨ classOf insn.code = .alu

variable (hpc : insns[s.pc]? = some insn)

include hpc

/-- The other instructions move ahead and stay inside the filter, or return a length. -/
theorem exec_goes_on (hother : ¬ Computes insn) :
    (∃ s', exec packet insn s = .inr s' ∧ s.pc < s'.pc ∧ s'.pc < insns.length) ∨
      ∃ n, exec packet insn s = .inl (.returned (some n)) := by
  have hknown := known_of_allowed (ha.code _ _ hpc)
  unfold Known at hknown
  unfold exec
  cases hclass : classOf insn.code with
  | ld | ldx | alu => simp [Computes, hclass] at hother
  | st | stx =>
    dsimp only
    rw [storeMem, dif_pos (ha.store_index hpc (by simp [hclass]))]
    exact .inl ⟨_, rfl, lt_succ_self _, ha.succ_lt hpc (by simp [hclass])⟩
  | jmp =>
    simp only [hclass] at hknown ⊢
    split
    · next hop =>
      have hlt := ha.ja_target hpc hclass hop
      rw [jumpBy_eq_some ha hlt]
      exact .inl ⟨_, rfl, by dsimp only; omega, hlt⟩
    next hop =>
    obtain ⟨t, ht⟩ : ∃ t, taken (jmpOpOf insn.code) s.a (operand insn s) = some t := by
      cases hj : jmpOpOf insn.code <;> simp_all [taken]
    have hlt := ha.jump_target hpc hclass hop t
    rw [ht]
    exact .inl ⟨_, congrArg orFail (jumpBy_eq_some ha hlt), by dsimp only; omega, hlt⟩
  | ret => exact .inr ⟨_, rfl⟩
  | misc =>
    simp only [hclass] at hknown ⊢
    have hsucc := ha.succ_lt hpc (by simp [hclass])
    split
    · exact .inl ⟨_, rfl, lt_succ_self _, hsucc⟩
    · exact .inl ⟨_, rfl, lt_succ_self _, hsucc⟩
    · next hop => exact absurd hop hknown

/-- **Every round moves ahead**, and stays inside the filter. -/
theorem exec_forward (h : exec packet insn s = .inr s') : s.pc < s'.pc ∧ s'.pc < insns.length := by
  by_cases hvalue : Computes insn
  · have hnext : s'.pc = s.pc + 1 := by
      unfold exec at h
      rcases hvalue with hclass | hclass | hclass <;>
      · simp only [hclass] at h
        obtain ⟨v, -, rfl⟩ := map_eq_some_iff.mp (orFail_eq_inr h)
        rfl
    rw [hnext]
    exact ⟨lt_succ_self _, ha.succ_lt hpc (by rcases hvalue with h | h | h <;> simp [h])⟩
  · rcases exec_goes_on ha hpc hvalue with ⟨t, ht, hlt⟩ | ⟨n, hn⟩
    · cases ht.symm.trans h
      exact hlt
    · cases hn.symm.trans h

/-- **Scratch memory** is not indexed out of bounds. -/
theorem exec_ne_panicked : exec packet insn s ≠ .inl .panicked := by
  intro h
  by_cases hvalue : Computes insn
  · have hfail : ∀ x, orFail x ≠ .inl .panicked := by rintro (_ | t) h <;> cases h
    unfold exec at h
    rcases hvalue with hclass | hclass | hclass <;>
    · simp only [hclass] at h
      exact hfail _ h
  · rcases exec_goes_on ha hpc hvalue with ⟨t, ht, -⟩ | ⟨n, hn⟩
    · cases ht.symm.trans h
    · cases hn.symm.trans h

end

/-! ### Failures -/

/-- The instruction loads from the packet, and what it loads is not inside. -/
def OutsidePacket (packet : Packet) (insn : ClassicBpfInsn) (s : FilterState) : Prop :=
  (classOf insn.code = .ld ∨ classOf insn.code = .ldx) ∧ match modeOf insn.code with
    | .abs => ∃ len, (sizeOf insn.code).toLen = some len ∧ packet.length < insn.k.toNat + len
    | .ind => ∃ len, (sizeOf insn.code).toLen = some len ∧ packet.length < s.x.toNat + insn.k.toNat + len
    | .msh => packet.length ≤ insn.k.toNat
    | .imm | .mem | .len | .other => False

/-- The instruction is a division or a modulo. -/
def IsDivision (insn : ClassicBpfInsn) : Prop :=
  classOf insn.code = .alu ∧ (aluOpOf insn.code = .div ∨ aluOpOf insn.code = .mod)

/-- The instruction divides by `X`, which is zero. -/
def DividesByZeroX (insn : ClassicBpfInsn) (s : FilterState) : Prop :=
  IsDivision insn ∧ srcIsX insn.code = true ∧ s.x = 0

/-- An instruction the check is there to refuse: a division by the constant zero, or a load of a
scratch cell that does not exist. -/
def Slipped (insn : ClassicBpfInsn) : Prop :=
  (IsDivision insn ∧ srcIsX insn.code = false ∧ insn.k = 0) ∨
    ((classOf insn.code = .ld ∨ classOf insn.code = .ldx) ∧ modeOf insn.code = .mem ∧
      bpfMemwords ≤ insn.k.toNat)

theorem loadPacket_eq_none {offset len : Nat} {size : Size} (hsize : size.toLen = some len) :
    loadPacket packet offset size = none ↔ packet.length < offset + len := by
  simp [loadPacket, hsize]

/-- A load that fails. -/
theorem loadValue_eq_none (hcode : codeAllowed insn.code = true)
    (hclass : classOf insn.code = .ld ∨ classOf insn.code = .ldx) :
    loadValue packet insn s = none ↔ OutsidePacket packet insn s ∨ Slipped insn := by
  have hknown := known_of_allowed hcode
  have hslip : Slipped insn ↔ modeOf insn.code = .mem ∧ bpfMemwords ≤ insn.k.toNat := by
    rcases hclass with hclass | hclass <;> simp [Slipped, IsDivision, hclass]
  have hload : modeOf insn.code ≠ .other ∧
      (modeOf insn.code = .abs ∨ modeOf insn.code = .ind → sizeOf insn.code ≠ .other) := by
    unfold Known at hknown
    rcases hclass with hclass | hclass <;> simpa only [hclass] using hknown
  -- a size that is not the catch-all has a length
  have hlen (hne : sizeOf insn.code ≠ .other) : ∃ len, (sizeOf insn.code).toLen = some len := by
    cases hsize : sizeOf insn.code with
    | w | h | b => exact ⟨_, rfl⟩
    | other => exact absurd hsize hne
  rw [hslip]
  unfold loadValue OutsidePacket
  cases hmode : modeOf insn.code with
  | imm | len | mem => simp
  | abs =>
    obtain ⟨len, hlen⟩ := hlen (hload.2 (.inl hmode))
    simp [hclass, hlen, loadPacket_eq_none hlen]
  | ind =>
    obtain ⟨_, hlen⟩ := hlen (hload.2 (.inr hmode))
    simp [hclass, hlen, loadPacket_eq_none hlen]
  | msh =>
    cases hbyte : packet[insn.k.toNat]? with
    | none => simp [hclass, List.getElem?_eq_none_iff.mp hbyte]
    | some => simp [(getElem?_eq_some_iff.mp hbyte).1]
  | other => exact absurd hmode hload.1

/-- Arithmetic that fails. -/
theorem aluValue_eq_none (hcode : codeAllowed insn.code = true) (hclass : classOf insn.code = .alu) :
    aluValue (aluOpOf insn.code) s.a (operand insn s) = none ↔ DividesByZeroX insn s ∨ Slipped insn := by
  have hknown : aluOpOf insn.code ≠ .other := by
    have := known_of_allowed hcode
    unfold Known at this
    simpa only [hclass] using this
  unfold DividesByZeroX Slipped IsDivision operand
  cases hop : aluOpOf insn.code with
  | other => exact absurd hop hknown
  | div | mod => cases hsrc : srcIsX insn.code <;> simp [aluValue, hclass]
  | add | sub | mul | or | and | lsh | rsh | neg | xor => simp [aluValue, hclass]

theorem orFail_eq_failed : orFail x = .inl (.returned none) ↔ x = none := by
  cases x <;> simp [orFail]

/-- **Where `execute` fails**: at a load outside the packet, at a division by a zero `X`, or at an
instruction that slipped through. -/
theorem exec_fails_iff (ha : Accepted insns) (hpc : insns[s.pc]? = some insn) :
    exec packet insn s = .inl (.returned none) ↔
      OutsidePacket packet insn s ∨ DividesByZeroX insn s ∨ Slipped insn := by
  have hcode := ha.code _ _ hpc
  have hload : (classOf insn.code = .ld ∨ classOf insn.code = .ldx) → ¬ DividesByZeroX insn s := by
    rintro hclass ⟨⟨halu, -⟩, -⟩
    rcases hclass with hclass | hclass <;> rw [hclass] at halu <;> cases halu
  by_cases hvalue : Computes insn
  · unfold exec
    rcases hvalue with hclass | hclass | hclass <;> simp only [hclass]
    · rw [orFail_eq_failed, map_eq_none_iff, loadValue_eq_none hcode (.inl hclass)]
      simp [hload (.inl hclass)]
    · rw [orFail_eq_failed, map_eq_none_iff, loadValue_eq_none hcode (.inr hclass)]
      simp [hload (.inr hclass)]
    · rw [orFail_eq_failed, map_eq_none_iff, aluValue_eq_none hcode hclass]
      have hout : ¬ OutsidePacket packet insn s := by simp [OutsidePacket, hclass]
      simp [hout]
  · refine iff_of_false (fun h => ?_) ?_
    · rcases exec_goes_on ha hpc hvalue with ⟨t, ht, -⟩ | ⟨n, hn⟩
      · cases ht.symm.trans h
      · cases hn.symm.trans h
    · rintro (⟨h | h, -⟩ | ⟨⟨h, -⟩, -⟩ | ⟨⟨h, -⟩, -⟩ | ⟨h | h, -⟩) <;> exact hvalue (by simp [Computes, h])

/-! ### How an instruction slips through -/

/-- A fact about the codes of one byte, checked for each of them. -/
theorem of_low {P : BitVec 16 → Prop} (hall : ∀ n < 0x100, P (BitVec.ofNat 16 n))
    (hlow : code.toNat < 0x100) : P code := by
  have h := hall code.toNat hlow
  rwa [BitVec.ofNat_toNat] at h

/-- Among the codes of one byte, the check of constant divisors finds all divisions by a
constant. -/
theorem division_of_low (hlow : code.toNat < 0x100) : classOf code = .alu →
    (aluOpOf code = .div ∨ aluOpOf code = .mod) → srcIsX code = false → code = 0x34 ∨ code = 0x94 := by
  apply of_low _ hlow
  decide +kernel

/-- Among the codes of one byte, the check of scratch indices finds all loads of scratch cells. -/
theorem memLoad_of_low (hlow : code.toNat < 0x100) : codeAllowed code = true →
    (classOf code = .ld ∨ classOf code = .ldx) → modeOf code = .mem → code = 0x60 ∨ code = 0x61 := by
  apply of_low _ hlow
  decide +kernel

/-- **Only a code above the low byte slips through.** -/
theorem code_of_slipped (ha : Accepted insns) (hpc : insns[pc]? = some insn)
    (h : Slipped insn) : 0x100 ≤ insn.code.toNat := by
  by_contra hlow
  rw [Nat.not_le] at hlow
  have hoperand := ha.operand pc insn hpc
  unfold operandAllowed at hoperand
  rcases h with ⟨⟨hclass, hop⟩, hsrc, hk⟩ | ⟨hclass, hmode, hk⟩
  · rw [if_pos (division_of_low hlow hclass hop hsrc)] at hoperand
    exact of_decide_eq_true hoperand hk
  · have hlt : insn.k.toNat < bpfMemwords := by
      rcases memLoad_of_low hlow (ha.code pc insn hpc) hclass hmode with heq | heq <;>
        simpa [heq] using hoperand
    exact absurd hlt (Nat.not_lt_of_le hk)

end Instructions

/-! ### Whole runs -/

section Runs

/-- The states in which `execute` begins a round. -/
def AtRound (insns : List ClassicBpfInsn) (packet : Packet) : FilterState → Prop :=
  Reachable (· = FilterState.init) (fun s s' => round insns packet s = .inr s')

theorem round_forward (ha : Accepted insns) {s' : FilterState} (h : round insns packet s = .inr s') :
    s.pc < s'.pc ∧ s'.pc < insns.length := by
  unfold round at h
  split at h
  · next _ hpc => exact exec_forward ha hpc h
  · cases h

/-- A round begins at an instruction. -/
theorem AtRound.inside (ha : Accepted insns) (hs : AtRound insns packet s) : s.pc < insns.length := by
  refine Reachable.invariant (I := fun s : FilterState => s.pc < insns.length) ?_ ?_ hs
  · rintro s rfl
    exact ha.length_pos
  · intro _ _ _ h
    exact (round_forward ha h).2

/-- **Runs end** after at most as many rounds as the filter has instructions. -/
theorem execute_terminates (ha : Accepted insns) (packet : Packet) :
    ∃ e, execute insns packet insns.length = some e := by
  refine FuelLoop.run_of_measure (I := fun s : FilterState => s.pc < insns.length)
    (m := fun s => insns.length - 1 - s.pc) (fun s s' hs h => ?_) ha.length_pos ?_
  · obtain ⟨h1, h2⟩ := round_forward ha h
    exact ⟨h2, by omega⟩
  · have := ha.length_pos
    omega

/-- **Safety of accepted filters.** A run ends after at most as many rounds as the filter has
instructions, with what its last round gives. The interpreter knows the code of every instruction,
and an instruction that slipped through has a code above the low byte. Every round of a run is at an
instruction of the filter and stays inside scratch memory; if it fails, it loads outside the packet
or divides by a zero `X`, just if its instruction has not slipped through. -/
theorem filter_safe_of_accepted (hv : validate insns = .ok ()) (packet : Packet) :
    (∃ e s, execute insns packet insns.length = some e ∧ AtRound insns packet s ∧
      round insns packet s = .inl e) ∧
    (∀ insn ∈ insns, Known insn.code ∧ (Slipped insn → 0x100 ≤ insn.code.toNat)) ∧
    ∀ s, AtRound insns packet s → ∃ insn, insns[s.pc]? = some insn ∧ round insns packet s ≠ .inl .panicked ∧
      ((round insns packet s = .inl (.returned none) →
        OutsidePacket packet insn s ∨ DividesByZeroX insn s) ↔ ¬ Slipped insn) := by
  have ha := accepted_of_validate hv
  refine ⟨?_, ?_, ?_⟩
  · obtain ⟨e, he⟩ := execute_terminates ha packet
    obtain ⟨s, hs, hlast⟩ := FuelLoop.run_eq_some he
    exact ⟨e, s, he, hs, hlast⟩
  · intro insn hmem
    obtain ⟨pc, hpc⟩ := List.mem_iff_getElem?.mp hmem
    exact ⟨known_of_allowed (ha.code pc insn hpc), code_of_slipped ha hpc⟩
  intro s hs
  obtain ⟨insn, hpc⟩ : ∃ insn, insns[s.pc]? = some insn := ⟨_, List.getElem?_eq_getElem (hs.inside ha)⟩
  refine ⟨insn, hpc, ?_⟩
  have hround : round insns packet s = exec packet insn s := by
    unfold round
    rw [hpc]
  rw [hround, exec_fails_iff ha hpc]
  refine ⟨exec_ne_panicked ha hpc, fun hgood hslip => ?_, fun hslip hfail => ?_⟩
  · -- what slipped through is neither a load from the packet nor a division by `X`
    rcases hgood (.inr (.inr hslip)) with ⟨hclass, hmode⟩ | ⟨⟨hclass, -⟩, hsrc, -⟩
    · rcases hslip with ⟨⟨halu, -⟩, -⟩ | ⟨-, hmem, -⟩
      · rcases hclass with hclass | hclass <;> rw [halu] at hclass <;> cases hclass
      · simp [hmem] at hmode
    · rcases hslip with ⟨-, hk, -⟩ | ⟨hload, -, -⟩
      · simp [hk] at hsrc
      · rcases hload with hload | hload <;> rw [hclass] at hload <;> cases hload
  · rcases hfail with h | h | h
    · exact .inl h
    · exact .inr h
    · exact absurd h hslip

/-- `A = packet[0]; A /= X; return A`. -/
def divideByX : List ClassicBpfInsn := [⟨0x30, 0, 0, 0⟩, ⟨0x3c, 0, 0, 0⟩, ⟨0x16, 0, 0, 0⟩]

/-- The filter is accepted. On an empty packet it fails at the load, otherwise at the division. -/
theorem filter_safe_of_accepted_divide_by_x :
    validate divideByX = .ok () ∧ execute divideByX [] 3 = some (.returned none) ∧
      execute divideByX [7] 3 = some (.returned none) ∧
      ∀ s, AtRound divideByX [7] s → round divideByX [7] s ≠ .inl .panicked := by
  have hv : validate divideByX = .ok () := by decide +kernel
  refine ⟨hv, by decide +kernel, by decide +kernel, fun s hs => ?_⟩
  obtain ⟨-, -, h⟩ := filter_safe_of_accepted hv [7]
  obtain ⟨_, -, hpanic, -⟩ := h s hs
  exact hpanic

/-- Filters that `validate` means to refuse are accepted if a bit above the low byte of the code is
set: a division by the constant zero, and a load of scratch cell 16. Both fail on every packet like
a load outside of it. -/
theorem slipped_filters_accepted : (validate [⟨0x134, 0, 0, 0⟩, ⟨0x06, 0, 0, 1⟩] = .ok () ∧
      validate [⟨0x34, 0, 0, 0⟩, ⟨0x06, 0, 0, 1⟩] = .error .einval ∧
      ∀ packet, execute [⟨0x134, 0, 0, 0⟩, ⟨0x06, 0, 0, 1⟩] packet 2 = some (.returned none)) ∧
    validate [⟨0x160, 0, 0, 16⟩, ⟨0x06, 0, 0, 1⟩] = .ok () ∧
      validate [⟨0x60, 0, 0, 16⟩, ⟨0x06, 0, 0, 1⟩] = .error .einval ∧
      ∀ packet, execute [⟨0x160, 0, 0, 16⟩, ⟨0x06, 0, 0, 1⟩] packet 2 = some (.returned none) := by
  refine ⟨⟨by decide +kernel, by decide +kernel,
    fun _ => rfl⟩, by decide +kernel, by decide +kernel, fun _ => rfl⟩

end Runs

end HitOS.Cbpf
