import HitOS.Syscall.Error

/-!
# User ids and capabilities

`syscall/misc/identity.rs`, `syscall/misc/capability.rs`: the calls that change the user ids of a
process and its effective and permitted capabilities. A call that fails changes nothing
(`call_of_error`). No call adds to the permitted capabilities (`capPermitted_call`), or makes more
capabilities effective than are permitted (`capEffective_call`).

When the real, effective and saved ids are non-zero, no call makes an id zero again (`Cred.NoRoot`,
kept by `NoRoot.call`), if the file system id is non-zero as well. `setreuid` and `setresuid` leave
it alone when they are not given an effective id, so a call may drop all privileges and keep a file
system id of zero: `privilege_drop_irrevocable` has the exact condition, `fsuid_stays_root` a run
that fails it.
-/

namespace HitOS.Identity

open List

/-- The ids and capabilities of a process. -/
structure Cred where
  uid : BitVec 32
  euid : BitVec 32
  suid : BitVec 32
  fsuid : BitVec 32
  keepCaps : Bool
  capEffective : BitVec 64
  capPermitted : BitVec 64
  capInheritable : BitVec 64
  capBounding : BitVec 64
  deriving DecidableEq

/-! ### User ids -/

def uidAllowed (uid ruid euid suid : BitVec 32) : Bool := uid == ruid || uid == euid || uid == suid

/-- The `-1` of an `int` or of a `long` stands for no change. -/
def parseUidOpt (uid : BitVec 64) : Option (BitVec 32) :=
  if uid = BitVec.allOnes 64 ∨ uid = (BitVec.allOnes 32).setWidth 64 then none
  else some (uid.setWidth 32)

/-- `uid_capability_transition`, from the ids of `old` to those of `new`. -/
def uidCapabilityTransition (old new : Cred) : Cred :=
  let oldHasRoot := old.uid == 0 || old.euid == 0 || old.suid == 0
  let newHasRoot := new.uid == 0 || new.euid == 0 || new.suid == 0
  let dropAll := oldHasRoot && !newHasRoot && !new.keepCaps
  let permitted := if dropAll then 0 else new.capPermitted
  let effective := if dropAll then 0 else new.capEffective
  let effective := if old.euid = 0 ∧ new.euid ≠ 0 then 0 else effective
  let effective := if old.euid ≠ 0 ∧ new.euid = 0 then permitted else effective
  { new with capEffective := effective, capPermitted := permitted }

variable (c : Cred)

def setuid (uid : BitVec 64) : Except SyscallError Cred :=
  let uid := uid.setWidth 32
  if c.euid = 0 then
    .ok (uidCapabilityTransition c { c with uid := uid, euid := uid, suid := uid, fsuid := uid })
  else if uidAllowed uid c.uid c.euid c.suid then
    .ok (uidCapabilityTransition c { c with euid := uid, suid := uid, fsuid := uid })
  else .error .eperm

def setreuid (ruid euid : BitVec 64) : Except SyscallError Cred :=
  let newRuid := parseUidOpt ruid
  let newEuid := parseUidOpt euid
  if c.euid ≠ 0 ∧ newRuid.any (fun r => r != c.uid && r != c.euid) then .error .eperm
  else if c.euid ≠ 0 ∧ newEuid.any (fun e => !uidAllowed e c.uid c.euid c.suid) then .error .eperm
  else
    let nextRuid := newRuid.getD c.uid
    let nextEuid := newEuid.getD c.euid
    .ok (uidCapabilityTransition c { c with
        uid := nextRuid
        euid := nextEuid
        fsuid := if newEuid.isSome then nextEuid else c.fsuid
        suid := if newRuid.isSome || (newEuid.isSome && nextEuid != c.uid) then nextEuid
          else c.suid })

def setresuid (ruid euid suid : BitVec 64) : Except SyscallError Cred :=
  let newRuid := parseUidOpt ruid
  let newEuid := parseUidOpt euid
  let newSuid := parseUidOpt suid
  if c.euid ≠ 0 ∧
      [newRuid, newEuid, newSuid].any (fun cand =>
        cand.any fun v => !uidAllowed v c.uid c.euid c.suid) then
    .error .eperm
  else
    .ok (uidCapabilityTransition c { c with
        uid := newRuid.getD c.uid
        euid := newEuid.getD c.euid
        fsuid := newEuid.getD c.fsuid
        suid := newSuid.getD c.suid })

/-- `setfsuid`, which never fails. -/
def setfsuid (uid : BitVec 64) : Cred :=
  match parseUidOpt uid with
  | none => c
  | some uid =>
    if c.euid = 0 ∨ uidAllowed uid c.uid c.euid c.suid = true ∨
      uid = c.fsuid then { c with fsuid := uid } else c

/-! ### Capabilities -/

structure CapUserHeader where
  version : BitVec 32
  pid : Int

structure CapUserData where
  effective : BitVec 32
  permitted : BitVec 32
  inheritable : BitVec 32

def capDataU32s (version : BitVec 32) : Option Nat :=
  if version = 0x19980330#32 then some 1
  else if version = 0x20071026#32 ∨ version = 0x20080522#32 then some 2
  else none

/-- The arguments of `capset`, and what it finds in the memory of the user. -/
structure CapsetCall where
  hdrp : Nat
  datap : Nat
  header : Option CapUserHeader
  /-- The header can be written. -/
  headerWritable : Bool
  /-- The process id and the thread id of the caller. -/
  getpid : Nat
  currentLinuxTid : Nat
  data : Nat → Option CapUserData

def CapsetCall.capPidMatchesCurrent (call : CapsetCall) (pid : Int) : Bool :=
  pid == 0 || pid.toNat == call.getpid || pid.toNat == call.currentLinuxTid

/-- One set of capabilities out of the words of the user. -/
def capWords (n : Nat) (word : Nat → BitVec 32) : BitVec 64 :=
  (range n).foldl (fun caps i => caps ||| (word i).setWidth 64 <<< (i * 32)) 0

def capset (call : CapsetCall) : Except SyscallError Cred :=
  if call.hdrp = 0 ∨ call.datap = 0 then .error .efault
  else
    match call.header with
    | none => .error .efault
    | some hdr =>
      match capDataU32s hdr.version with
      | none => if call.headerWritable then .error .einval else .error .efault
      | some n =>
        if hdr.pid < 0 then .error .einval
        else if call.capPidMatchesCurrent hdr.pid = false then .error .eperm
        else if (range n).any fun i => (call.data i).isNone then .error .efault
        else
          let payload := fun i => (call.data i).getD ⟨0, 0, 0⟩
          let newEffective := capWords n fun i => (payload i).effective
          let newPermitted := capWords n fun i => (payload i).permitted
          let newInheritable := capWords n fun i => (payload i).inheritable
          if newEffective &&& ~~~newPermitted ≠ 0 then .error .eperm
          else if newPermitted &&& ~~~c.capPermitted ≠ 0 then .error .eperm
          else if newInheritable &&& ~~~c.capInheritable ≠ 0 then .error .eperm
          else if newInheritable &&& ~~~c.capBounding ≠ 0 then .error .eperm
          else
            .ok { c with
              capEffective := newEffective, capPermitted := newPermitted,
              capInheritable := newInheritable }

/-! ### Sequences of calls -/

/-- The calls that change ids or capabilities. -/
inductive Call where
  | setuid (uid : BitVec 64)
  | setreuid (ruid euid : BitVec 64)
  | setresuid (ruid euid suid : BitVec 64)
  | setfsuid (uid : BitVec 64)
  | capset (call : CapsetCall)

def Cred.answer : Call → Except SyscallError Cred
  | .setuid uid => Identity.setuid c uid
  | .setreuid ruid euid => Identity.setreuid c ruid euid
  | .setresuid ruid euid suid => Identity.setresuid c ruid euid suid
  | .setfsuid uid => .ok (Identity.setfsuid c uid)
  | .capset call => Identity.capset c call

/-- What a call makes of a process: one that fails changes nothing. -/
def Cred.call (k : Call) : Cred :=
  match c.answer k with
  | .ok c' => c'
  | .error _ => c

def Cred.calls (ks : List Call) : Cred := ks.foldl Cred.call c

/-- `setuid`, `setreuid` or `setresuid`. -/
def Call.setsIds : Call → Bool
  | setuid _ | setreuid _ _ | setresuid _ _ _ => true
  | setfsuid _ | capset _ => false

/-- The call is given no effective id, and leaves the file system id alone. -/
def Call.keepsFsuid : Call → Bool
  | setreuid _ euid | setresuid _ euid _ => (parseUidOpt euid).isNone
  | _ => false

/-- The real, effective and saved ids are not those of root. -/
def Cred.Dropped : Prop := c.uid ≠ 0 ∧ c.euid ≠ 0 ∧ c.suid ≠ 0

instance (c : Cred) : Decidable c.Dropped := inferInstanceAs (Decidable (_ ∧ _ ∧ _))

/-- No id is that of root. -/
def Cred.NoRoot : Prop := c.Dropped ∧ c.fsuid ≠ 0

/-- All capabilities of one set are in another. -/
def CapSubset (a b : BitVec 64) : Prop := a &&& ~~~b = 0

instance (a b : BitVec 64) : Decidable (CapSubset a b) := inferInstanceAs (Decidable (_ = _))

/-! ### Sets of capabilities -/

theorem CapSubset.refl {a : BitVec 64} : CapSubset a a := BitVec.and_not_self a

theorem CapSubset.zero {a : BitVec 64} : CapSubset 0 a := BitVec.zero_and

/-! ### What a call leaves -/

section Calls

variable {c c' old new : Cred} {k : Call}

theorem Cred.call_of_ok (h : c.answer k = .ok c') : c.call k = c' := by
  simp only [call, h]

/-- A call that fails changes nothing. -/
theorem Cred.call_of_error {e : SyscallError} (h : c.answer k = .error e) : c.call k = c := by
  simp only [call, h]

/-- A change of the ids makes no capability permitted. -/
theorem transition_permitted (h : new.capPermitted = old.capPermitted) :
    CapSubset (uidCapabilityTransition old new).capPermitted old.capPermitted := by
  simp only [uidCapabilityTransition, h]
  -- all of them go when the last id of root does
  split
  · exact .zero
  · exact .refl

/-- After a change of the ids, the effective capabilities are permitted. -/
theorem transition_effective (h : CapSubset new.capEffective new.capPermitted) :
    CapSubset (uidCapabilityTransition old new).capEffective
      (uidCapabilityTransition old new).capPermitted := by
  simp only [uidCapabilityTransition]
  split
  · exact .refl
  split
  · exact .zero
  · split
    · exact .zero
    · exact h

/-- A call that sets ids makes up the new ones, and the capabilities follow. The file system id
follows an effective id that is given. -/
theorem answer_of_setsIds (hk : k.setsIds = true) (h : c.answer k = .ok c') :
    ∃ new : Cred, c' = uidCapabilityTransition c new ∧ new.capPermitted = c.capPermitted ∧
      new.capEffective = c.capEffective ∧ new.fsuid = if k.keepsFsuid then c.fsuid
        else new.euid := by
  cases k with
  | setuid =>
    simp only [Cred.answer, setuid] at h
    split at h
    · cases h
      exact ⟨_, rfl, rfl, rfl, rfl⟩
    · split at h
      · cases h
        exact ⟨_, rfl, rfl, rfl, rfl⟩
      · cases h
  | setreuid _ euid =>
    simp only [Cred.answer, setreuid] at h
    split at h
    · cases h
    · split at h
      · cases h
      · cases h
        refine ⟨_, rfl, rfl, rfl, ?_⟩
        cases hp : parseUidOpt euid <;> simp [Call.keepsFsuid, hp]
  | setresuid _ euid =>
    simp only [Cred.answer, setresuid] at h
    split at h
    · cases h
    · cases h
      refine ⟨_, rfl, rfl, rfl, ?_⟩
      cases hp : parseUidOpt euid <;> simp [Call.keepsFsuid, hp]
  | setfsuid | capset => cases hk

/-- `capset` sets capabilities that were permitted before, and of those the effective ones. -/
theorem capset_subset {call : CapsetCall} (h : capset c call = .ok c') :
    CapSubset c'.capPermitted c.capPermitted ∧ CapSubset c'.capEffective c'.capPermitted := by
  simp only [capset] at h
  iterate 2
    split at h
    · cases h
  split at h
  · split at h <;> cases h
  iterate 3
    split at h
    · cases h
  -- the first two of the four tests on the sets are what is needed
  iterate 4
    split at h
    · cases h
  next heff hperm _ _ =>
  cases h
  exact ⟨not_not.mp hperm, not_not.mp heff⟩

/-- The capabilities of `setfsuid` stay. -/
theorem setfsuid_caps {uid : BitVec 64} : (setfsuid c uid).capPermitted = c.capPermitted ∧
    (setfsuid c uid).capEffective = c.capEffective := by
  unfold setfsuid
  split
  · exact ⟨rfl, rfl⟩
  · split <;> exact ⟨rfl, rfl⟩

/-- **No call adds to the permitted capabilities**, and the effective ones stay permitted. -/
theorem caps_call : CapSubset (c.call k).capPermitted c.capPermitted ∧
    (CapSubset c.capEffective c.capPermitted →
      CapSubset (c.call k).capEffective (c.call k).capPermitted) := by
  cases h : c.answer k with
  | error =>
    rw [c.call_of_error h]
    exact ⟨.refl, id⟩
  | ok =>
    rw [c.call_of_ok h]
    cases k with
    | setuid uid | setreuid ruid euid | setresuid ruid euid suid =>
      obtain ⟨_, rfl, hperm, heff, -⟩ := answer_of_setsIds rfl h
      exact ⟨transition_permitted hperm, fun hcap => transition_effective (by rwa [hperm, heff])⟩
    | setfsuid uid =>
      cases h
      rw [setfsuid_caps.1, setfsuid_caps.2]
      exact ⟨.refl, id⟩
    | capset => exact ⟨(capset_subset h).1, fun _ => (capset_subset h).2⟩

theorem capEffective_calls (hcap : CapSubset c.capEffective c.capPermitted) {ks : List Call} :
    CapSubset (c.calls ks).capEffective (c.calls ks).capPermitted := by
  induction ks generalizing c with
  | nil => exact hcap
  | cons k _ ih => exact ih (caps_call.2 hcap)

/-! ### Ids -/

/-- One of three ids that are not zero. -/
theorem ne_zero_of_uidAllowed {v : BitVec 32} (hd : c.Dropped)
    (h : uidAllowed v c.uid c.euid c.suid = true) : v ≠ 0 := by
  obtain ⟨hu, he, hs⟩ := hd
  simp only [uidAllowed, Bool.or_eq_true, beq_iff_eq] at h
  obtain (rfl | rfl) | rfl := h
  · exact hu
  · exact he
  · exact hs

/-- An optional id that was tested, or the old one. -/
theorem getD_ne_zero {o : Option (BitVec 32)} {d : BitVec 32} (hd : d ≠ 0)
    (ho : ∀ v, o = some v → v ≠ 0) :
    o.getD d ≠ 0 := by
  cases o with
  | none => exact hd
  | some v => exact ho v rfl

/-- The file system id after a call that leaves the other three ids non-zero. -/
theorem fsuid_eq_zero_iff (hk : k.setsIds = true) (h : c.answer k = .ok c') (hd : c'.Dropped) :
    c'.fsuid = 0 ↔ k.keepsFsuid = true ∧ c.fsuid = 0 := by
  obtain ⟨new, rfl, -, -, hfs⟩ := answer_of_setsIds hk h
  have he : new.euid ≠ 0 := hd.2.1
  change new.fsuid = 0 ↔ _
  rw [hfs]
  split
  · next hkeeps => simp [hkeeps]
  · next hkeeps => exact iff_of_false he fun hc => hkeeps hc.1

/-- `capset` leaves the ids alone. -/
theorem capset_noRoot {call : CapsetCall} (hn : c.NoRoot) (h : capset c call = .ok c') :
    c'.NoRoot := by
  simp only [capset] at h
  repeat' split at h
  all_goals
    cases h
    try exact hn

/-- **Without root ids, no call brings one back.** -/
theorem Cred.NoRoot.call (hn : c.NoRoot) (k : Call) : (c.call k).NoRoot := by
  obtain ⟨hd, hfs⟩ := hn
  have hn : c.NoRoot := ⟨hd, hfs⟩
  have he : c.euid ≠ 0 := hd.2.1
  cases h : c.answer k with
  | error => rwa [c.call_of_error h]
  | ok =>
  rw [c.call_of_ok h]
  cases k with
  | setuid =>
    -- without the effective id of root only one of the three ids is admitted
    simp only [answer, setuid, if_neg he] at h
    split at h
    · next hu =>
      cases h
      have hne := ne_zero_of_uidAllowed hd hu
      exact ⟨⟨hd.1, hne, hne⟩, hne⟩
    · cases h
  | setreuid ruid euid =>
    simp only [answer, setreuid] at h
    split at h
    · cases h
    next hr =>
    split at h
    · cases h
    next heu =>
    cases h
    -- both new ids were tested against the old ones
    have hruid : (parseUidOpt ruid).getD c.uid ≠ 0 := getD_ne_zero hd.1 fun v hv => by
      simp only [he, hv, Option.any_some, ne_eq, not_false_eq_true, true_and, Bool.and_eq_true,
        bne_iff_ne, not_and, not_not] at hr
      by_cases hvu : v = c.uid
      · exact hvu ▸ hd.1
      · exact hr hvu ▸ he
    have heuid : (parseUidOpt euid).getD c.euid ≠ 0 := getD_ne_zero he fun v hv => by
      simp only [he, hv, Option.any_some, ne_eq, not_false_eq_true, true_and, Bool.not_eq_true',
        Bool.not_eq_false] at heu
      exact ne_zero_of_uidAllowed hd heu
    refine ⟨⟨hruid, heuid, ?_⟩, ?_⟩
    · split
      · exact heuid
      · exact hd.2.2
    · change (if _ then _ else _) ≠ _
      split
      · exact heuid
      · exact hfs
  | setresuid =>
    simp only [answer, setresuid] at h
    split at h
    · cases h
    next hcand =>
    cases h
    simp only [he, ne_eq, not_false_eq_true, true_and, any_cons, any_nil, Bool.or_false,
      Bool.or_eq_true, not_or, Bool.not_eq_true] at hcand
    -- the three candidates pass one test
    have htest : ∀ {o : Option (BitVec 32)},
        o.any (fun v => !uidAllowed v c.uid c.euid c.suid) = false → ∀ v, o = some v → v ≠ 0 := by
      rintro _ ho v rfl
      exact ne_zero_of_uidAllowed hd (by simpa using ho)
    exact ⟨⟨getD_ne_zero hd.1 (htest hcand.1), getD_ne_zero he (htest hcand.2.1),
      getD_ne_zero hd.2.2 (htest hcand.2.2)⟩, getD_ne_zero hfs (htest hcand.2.1)⟩
  | setfsuid =>
    cases h
    unfold setfsuid
    split
    · exact hn
    next _ _ =>
    split
    · next hallowed =>
      refine ⟨hd, ?_⟩
      obtain h0 | hu | rfl := hallowed
      · exact absurd h0 he
      · exact ne_zero_of_uidAllowed hd hu
      · exact hfs
    · exact hn
  | capset => exact capset_noRoot hn h

theorem Cred.NoRoot.calls (hn : c.NoRoot) (ks : List Call) : (c.calls ks).NoRoot := by
  induction ks generalizing c with
  | nil => exact hn
  | cons k _ ih => exact ih (hn.call k)

/-! ### Privileges -/

/-- **Dropping privileges**, for every process and all sequences of calls: the effective
capabilities stay permitted, no call adds to the permitted ones, and after a call that leaves the
real, effective and saved ids non-zero no id ever is zero, exactly when the call was given an
effective id or the file system id was not zero. -/
theorem privilege_drop_irrevocable (c : Cred) (hcap : CapSubset c.capEffective c.capPermitted)
    (before : List Call) :
    CapSubset (c.calls before).capEffective (c.calls before).capPermitted ∧
    ∀ k, CapSubset ((c.calls before).call k).capPermitted (c.calls before).capPermitted ∧
      ∀ c', k.setsIds = true → (c.calls before).answer k = .ok c' → c'.Dropped →
        ((∀ after, (c'.calls after).Dropped ∧ (c'.calls after).fsuid ≠ 0) ↔
          (k.keepsFsuid = true → (c.calls before).fsuid ≠ 0)) := by
  refine ⟨capEffective_calls hcap, fun k => ⟨caps_call.1, fun c' hk h hd => ?_⟩⟩
  have hfs := fsuid_eq_zero_iff hk h hd
  constructor
  · -- otherwise the file system id is that of root right after the call
    intro hall hkeep h0
    exact (hall []).2 (hfs.mpr ⟨hkeep, h0⟩)
  · intro hkeep after
    refine Cred.NoRoot.calls ⟨hd, fun h0 => ?_⟩ after
    obtain ⟨hk', h0'⟩ := hfs.mp h0
    exact hkeep hk' h0'

/-- A process of root. -/
def root : Cred := ⟨0, 0, 0, 0, false, BitVec.allOnes 64, BitVec.allOnes 64, 0, BitVec.allOnes 64⟩

/-- Root calls `setuid(1000)`. -/
theorem privilege_drop_irrevocable_setuid : ∃ c', root.answer (.setuid 1000) = .ok c' ∧
    ∀ after, (c'.calls after).Dropped ∧ (c'.calls after).fsuid ≠ 0 := by
  refine ⟨_, rfl, ?_⟩
  exact (((privilege_drop_irrevocable root (by decide) []).2 (.setuid 1000)).2 _ rfl rfl
    (by decide)).mpr nofun

/-- Root takes on the effective id 1000 for a while, sets its file system id back to 0, and then
drops the real and saved ids with `setresuid(1000, -1, 1000)`: it keeps the file system id of
root. -/
theorem fsuid_stays_root : ∃ c',
    (root.calls [.setresuid (-1) 1000 (-1), .setfsuid 0]).answer (.setresuid 1000 (-1) 1000) =
      .ok c' ∧
    c'.Dropped ∧ c'.fsuid = 0 :=
  ⟨_, rfl, by decide, by decide⟩

end Calls

end HitOS.Identity
