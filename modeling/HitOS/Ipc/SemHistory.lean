import HitOS.Ipc.SemUndo
import HitOS.Lib.Reachable

/-!
# Accounting of `SEM_UNDO` over histories

A history (`SemHist`) pairs the state with a ledger that no code keeps: for each process and
semaphore, the sum of the `SEM_UNDO` operations since the last reset.

* `UndoInv` — the adjustments are minus the ledger for every semaphore there is, and zero for all
  others, so a set that takes over an identifier starts without any.
* `sem_undo_accounting` — the invariant over all histories, with what the exit of a process then
  does.
* `saturated_undo` — an array long enough to saturate its own sums spoils the account.
-/

namespace HitOS.Ipc

open List Function

/-! ### Histories -/

/-- For each process and semaphore, the sum of the `SEM_UNDO` operations since the last reset. -/
abbrev Ledger := Nat → Nat → Nat → Nat → Int

/-- The sums of the semaphores that `p` selects start again from zero. -/
def Ledger.reset (ledger : Ledger) (p : Nat × Nat × Nat → Bool) : Ledger :=
  fun pid ns semid n => if p (ns, semid, n) = true then 0 else ledger pid ns semid n

/-- A process has applied the operations. -/
def Ledger.apply (ledger : Ledger) (call : SemopCall) : Ledger :=
  fun pid ns semid n => ledger pid ns semid n +
    if pid = call.cred.pid ∧ ns = call.ns ∧ semid = call.semid then undoOn call.ops n else 0

/-- A process is gone. -/
def Ledger.leave (ledger : Ledger) (gone : Nat) : Ledger :=
  fun pid ns semid n => if pid = gone then 0 else ledger pid ns semid n

/-- The state, and the ledger of what has happened. -/
structure SemHist where
  st : SemState
  ledger : Ledger

/-- The beginning. -/
def SemHist.boot : SemHist := ⟨.boot, fun _ _ _ _ => 0⟩

/-- The calls of a history; `semop` is one round of it. -/
inductive SemAct where
  | semget (limits : SemLimits) (ns : Nat) (cred : Cred) (key : BitVec 64) (nsems : Nat)
      (flags : SemgetFlags) (now : Int)
  | semctl (alive blocked : TaskId → Bool) (ns : Nat) (cred : Cred) (semid semnum : Nat) (cmd : SemCmd)
      (now : Int)
  | semop (limits : SemLimits) (task : TaskId) (call : SemopCall) (env : SemopEnv)
  | exit (pid : Nat) (now : Int)

namespace SemAct

/-- A `semop` gets as far as its first round with an admitted number of operations. -/
def Admitted : SemAct → Prop
  | .semop limits _ call _ => checkSemopCount limits call.ops.length = .ok ()
  | _ => True

/-- The sums of a `semop` fit. -/
def Exact : SemAct → Prop
  | .semop _ _ call _ => Ipc.Exact call.ops
  | _ => True

/-- What a call does to the state and to the ledger. The creation of a set, `SETVAL` and `SETALL`
are the resets. -/
def apply (act : SemAct) (h : SemHist) : SemHist :=
  match act with
  | .semget limits ns cred key nsems flags now =>
    let eff := Ipc.semget h.st limits ns cred key nsems flags now
    ⟨eff.st, match eff.ret with
      | .ok id =>
        if (h.st.set? ns id).isSome then h.ledger
        else h.ledger.reset fun k => k.1 == ns && k.2.1 == id
      | .error _ => h.ledger⟩
  | .semctl alive blocked ns cred semid semnum cmd now =>
    let eff := Ipc.semctl h.st alive blocked ns cred semid semnum cmd now
    ⟨eff.st, match cmd, eff.ret with
      | .setVal _, .ok _ => h.ledger.reset fun k => k == (ns, semid, semnum)
      | .setAll _, .ok _ => h.ledger.reset fun k => k.1 == ns && k.2.1 == semid
      | _, _ => h.ledger⟩
  | .semop _ task call env =>
    let eff := doSemopOps h.st task call env
    ⟨eff.st, match eff.ret with
      | .returns (.ok ()) => h.ledger.apply call
      | _ => h.ledger⟩
  | .exit pid now => ⟨(exitCleanup h.st pid now).st, h.ledger.leave pid⟩

end SemAct

/-- The histories of calls that are admitted and meet a condition. -/
abbrev SemRuns (cond : SemAct → Prop) : SemHist → Prop :=
  Reachable (· = .boot) fun h h' => ∃ act : SemAct, act.Admitted ∧ cond act ∧ h' = act.apply h

/-- **The account**: adjustments are minus the ledger for the semaphores there are, and zero for
others. -/
structure UndoInv (h : SemHist) : Prop where
  values : h.st.ValuesOk
  undos : UndosOk h.st.undos
  stored : ∀ pid ns semid n, Present h.st ns semid n →
    currentAdj (h.st.undos pid) ns semid n = -h.ledger pid ns semid n
  absent : ∀ pid ns semid n, ¬ Present h.st ns semid n → currentAdj (h.st.undos pid) ns semid n = 0

section Invariant

variable {h : SemHist} {st' : SemState} {eff : SemEffect (Except SyscallError Nat)}

theorem undoInv_boot : UndoInv .boot := by
  refine ⟨fun _ _ _ hset => ?_, ⟨fun _ => nodup_nil, fun _ _ _ _ => ?_⟩, ?_, fun _ _ _ _ _ => rfl⟩
  · cases hset
  · change -semaem ≤ (0 : Int) ∧ (0 : Int) ≤ semaem
    decide
  · nofun

section

variable (hi : UndoInv h)

include hi

/-- The adjustments that `gone` selects are cleared, and their sums start again; nothing else
changes. -/
theorem UndoInv.clear {ledger' : Ledger} (gone : Nat → Nat → Nat → Nat → Prop)
    [∀ pid ns semid n, Decidable (gone pid ns semid n)] (hvalues : st'.ValuesOk) (hundos : UndosOk st'.undos)
    (hadj : ∀ pid ns semid n, currentAdj (st'.undos pid) ns semid n =
      if gone pid ns semid n then 0 else currentAdj (h.st.undos pid) ns semid n)
    (hledger : ∀ pid ns semid n, Present st' ns semid n →
      ledger' pid ns semid n = if gone pid ns semid n then 0 else h.ledger pid ns semid n)
    (hpresent : ∀ pid ns semid n, ¬ gone pid ns semid n →
      (Present st' ns semid n ↔ Present h.st ns semid n)) : UndoInv ⟨st', ledger'⟩ := by
  refine ⟨hvalues, hundos, fun pid ns semid n hp => ?_, fun pid ns semid n hp => ?_⟩
  · refine (hadj pid ns semid n).trans ?_
    dsimp only
    rw [hledger pid ns semid n hp]
    split
    · exact neg_zero.symm
    · next hgone => exact hi.stored pid ns semid n ((hpresent pid ns semid n hgone).mp hp)
  · refine (hadj pid ns semid n).trans ?_
    split
    · rfl
    · next hgone => exact hi.absent pid ns semid n fun hc => hp ((hpresent pid ns semid n hgone).mpr hc)

/-- A change of values and queues alone. -/
theorem UndoInv.congr (hvalues : st'.ValuesOk) (hundos : st'.undos = h.st.undos)
    (hpresent : ∀ ns semid n, Present st' ns semid n ↔ Present h.st ns semid n) : UndoInv ⟨st', h.ledger⟩ := by
  refine hi.clear (fun _ _ _ _ => False) hvalues (hundos ▸ hi.undos) (fun _ _ _ _ => ?_)
    (fun _ _ _ _ _ => (if_neg not_false).symm) fun _ ns semid n _ => hpresent ns semid n
  rw [hundos, if_neg not_false]

/-- A change of values that clears the adjustments of the semaphores `p` selects. -/
theorem UndoInv.reset (p : Nat × Nat × Nat → Bool) (hvalues : st'.ValuesOk)
    (hundos : st'.undos = fun pid => (h.st.undos pid).filter fun e => !p e.key)
    (hpresent : ∀ ns semid n, Present st' ns semid n ↔ Present h.st ns semid n) :
    UndoInv ⟨st', h.ledger.reset p⟩ := by
  refine hi.clear (fun _ ns semid n => p (ns, semid, n) = true) hvalues
    (hundos ▸ hi.undos.clear fun k => !p k) (fun pid ns semid n => ?_) (fun _ _ _ _ _ => rfl)
    fun _ ns semid n _ => hpresent ns semid n
  rw [hundos, currentAdj_filter_key fun k => !p k]
  cases p (ns, semid, n) <;> rfl

theorem UndoInv.semget {ns : Nat} (hcase : SemgetCase h.st ns eff) :
    UndoInv ⟨eff.st, match eff.ret with
      | .ok id =>
        if (h.st.set? ns id).isSome then h.ledger else h.ledger.reset fun k => k.1 == ns && k.2.1 == id
      | .error _ => h.ledger⟩ := by
  have hvalues := hi.values.semget hcase
  cases hcase with
  | unchanged ret hret =>
    cases ret with
    | error => exact hi
    | ok id =>
      change UndoInv ⟨h.st, if (h.st.set? ns id).isSome = true then h.ledger else _⟩
      rwa [if_pos (Option.isSome_iff_ne_none.mpr (hret id rfl))]
  | @created id set mgr hfree hsets hnew =>
    dsimp only
    rw [hfree]
    have hset? := SemState.set?_created hsets
    -- the new set has no adjustments yet: there was no semaphore to have any
    have hfresh pid n : currentAdj (h.st.undos pid) ns id n = 0 := by
      refine hi.absent pid ns id n ?_
      rintro ⟨s, hs, -⟩
      rw [hfree] at hs
      cases hs
    refine hi.clear (fun _ ns' semid' _ => ns' = ns ∧ semid' = id) hvalues hi.undos
      (fun pid ns' semid' n => ?_) (fun _ _ _ _ _ => if_congr (by simp) rfl rfl)
      fun _ ns' semid' _ hne => present_congr ((hset? ns' semid').trans (if_neg hne))
    split
    · next heq =>
      obtain ⟨rfl, rfl⟩ := heq
      exact hfresh pid n
    · rfl

theorem UndoInv.semctl {alive : TaskId → Bool} {ns semid semnum : Nat} {cmd : SemCmd} :
    SemctlCase h.st alive ns semid semnum cmd eff → UndoInv ⟨eff.st, match cmd, eff.ret with
      | .setVal _, .ok _ => h.ledger.reset fun k => k == (ns, semid, semnum)
      | .setAll _, .ok _ => h.ledger.reset fun k => k.1 == ns && k.2.1 == semid
      | _, _ => h.ledger⟩ := by
  intro hcase
  have hvalues := hi.values.semctl hcase
  cases hcase with
  | failed cmd => cases cmd <;> exact hi
  | @removed mgr set hset hsets =>
    have hset? := SemState.set?_removed hsets
    refine hi.clear (fun _ ns' semid' _ => ns' = ns ∧ semid' = semid) hvalues
      (hi.undos.clear fun k => !(k.1 == ns && k.2.1 == semid)) (fun _ ns' semid' _ => ?_) ?_
      fun _ ns' semid' _ hne => present_congr ((hset? ns' semid').trans (if_neg hne))
    · refine (currentAdj_filter_key fun k => !(k.1 == ns && k.2.1 == semid)).trans ?_
      by_cases heq : ns' = ns ∧ semid' = semid
      · simp [heq]
      · rw [if_neg heq, if_pos (by simpa [imp_iff_not_or] using heq)]
    · rintro pid ns' semid' n ⟨s, hs, -⟩
      refine (if_neg fun heq => ?_).symm
      cases ((hset? ns' semid').trans (if_pos heq)).symm.trans hs
  | chowned hset hsems => exact hi.congr hvalues rfl (present_putSet hset (by rw [hsems]))
  | allSet hset =>
    exact hi.reset _ hvalues rfl (present_putSet hset (by simp [SemSet.setAll]))
  | oneSet hset =>
    refine hi.reset _ hvalues ?_ (present_putSet hset length_set)
    funext q
    refine filter_congr fun e _ => ?_
    rw [Bool.eq_iff_iff]
    simp [SemUndoEntry.isFor, SemUndoEntry.key, imp_iff_not_or, or_assoc]
  | counted hcmd hset =>
    have hinv := hi.congr hvalues rfl (present_putSet hset length_set)
    rcases hcmd with rfl | rfl <;> exact hinv

theorem UndoInv.semop {task : TaskId} {call : SemopCall} {env : SemopEnv} {eff : SemEffect SemopResult}
    (hcase : SemopCase h.st task call env eff) (hexact : Exact call.ops) :
    UndoInv ⟨eff.st, match eff.ret with
      | .returns (.ok ()) => h.ledger.apply call
      | _ => h.ledger⟩ := by
  have hvalues := hi.values.semop hcase
  cases hcase with
  | failed => exact hi
  | blocked hset =>
    exact hi.congr hvalues rfl (present_putSet hset length_set)
  | @applied set acc undos hset hops htrial hundo =>
  have hv := hi.values.value hset
  obtain ⟨hsized, -⟩ := tryOps_complete SemAcc.start_sized hv hops htrial
  have hdelta n : acc.undoDeltas.getD n 0 = -undoOn call.ops n := by
    have hzero : (SemAcc.start set.sems).undoDelta n = 0 := getD_replicate
    have hsum := tryOps_undoDelta SemAcc.start_sized hv hops htrial
      fun k => by rw [hzero, zero_sub]; exact hexact k n
    rwa [hzero, zero_sub] at hsum
  obtain ⟨hundos, hothers, hadj⟩ := recordSemUndo_spec hi.undos hundo
  have hpresent : ∀ ns semid n,
    Present { h.st.putSet call.ns call.semid (set.commit acc call.cred.pid env.now).1 with
        undos := undos } ns semid n ↔ Present h.st ns semid n :=
    present_putSet hset (by simp [SemSet.commit])
  refine ⟨hvalues, hundos, fun pid ns semid n hp => ?_, fun pid ns semid n hp => ?_⟩
  · have hst := hi.stored pid ns semid n ((hpresent ns semid n).mp hp)
    change currentAdj (undos pid) ns semid n = -(h.ledger.apply call pid ns semid n)
    rw [Ledger.apply]
    by_cases hpid : pid = call.cred.pid
    · subst hpid
      rw [hadj, hst, hdelta]
      split
      · next heq =>
        rw [if_pos ⟨rfl, heq⟩, neg_add]
      · next heq =>
        rw [if_neg fun hc => heq hc.2, add_zero, add_zero]
    · rw [hothers pid hpid, hst, if_neg fun hc => hpid hc.1, add_zero]
  · have hno : ¬ Present h.st ns semid n := fun hc => hp ((hpresent ns semid n).mpr hc)
    have hab := hi.absent pid ns semid n hno
    change currentAdj (undos pid) ns semid n = 0
    by_cases hpid : pid = call.cred.pid
    · subst hpid
      rw [hadj, hab]
      split
      · next heq =>
        -- there is no place for a semaphore that does not exist
        obtain ⟨rfl, rfl⟩ := heq
        rw [getD_eq_getElem?_getD, getElem?_eq_none]
        · rfl
        · rw [hsized.undoDeltas]
          exact Nat.le_of_not_lt fun hlt => hno ⟨set, hset, hlt⟩
      · rfl
    · rw [hothers pid hpid, hab]

/-- **The exit of a process** moves each semaphore by the adjustment for it, once, within the range
of values, and forgets the adjustments. -/
theorem UndoInv.exitCleanup_spec (pid : Nat) (now : Int) :
    Adjusted (currentAdj (h.st.undos pid)) h.st (exitCleanup h.st pid now).st ∧
      (exitCleanup h.st pid now).st.ValuesOk ∧
      (exitCleanup h.st pid now).st.undos = update h.st.undos pid [] := by
  have hrange e (he : e ∈ h.st.undos pid) : -semaem ≤ e.adj ∧ e.adj ≤ semaem := by
    rw [← currentAdj_of_mem (hi.undos.nodup pid) he]
    exact hi.undos.range pid ..
  obtain ⟨hundos, hok, hadj⟩ := @foldl_applyUndo (h.st.undos pid) pid now
    ({ h.st with undos := update h.st.undos pid [] }, []) hi.values (hi.undos.nodup pid) hrange
  exact ⟨hadj, hok, hundos⟩

theorem UndoInv.exit (pid : Nat) (now : Int) : UndoInv ((SemAct.exit pid now).apply h) := by
  obtain ⟨hadj, hok, hundos⟩ := hi.exitCleanup_spec pid now
  refine hi.clear (fun q _ _ _ => q = pid) hok (hundos ▸ hi.undos.update nodup_nil fun _ _ _ => ?_)
    (fun q ns semid n => ?_) (fun _ _ _ _ _ => rfl) fun _ ns semid n _ => hadj.present ns semid n
  · rw [currentAdj_nil]
    decide
  · rw [hundos, update_apply]
    split <;> rfl

theorem UndoInv.step (act : SemAct) (hexact : act.Exact) : UndoInv (act.apply h) := by
  cases act with
  | semget => exact hi.semget (semget_cases ..)
  | semctl => exact hi.semctl (semctl_cases ..)
  | semop => exact hi.semop (doSemopOps_cases ..) hexact
  | exit => exact hi.exit ..

end

/-- **Accounting of `SEM_UNDO`.** In every history whose calls add up their own `SEM_UNDO`
operations without saturating, the adjustment of a process for a semaphore is minus the sum of the
`SEM_UNDO` operations it has applied since the last reset, and in range; every value is in range;
and the exit of a process moves each semaphore by its adjustment, once and within the range of
values, and forgets the adjustments. -/
theorem sem_undo_accounting (hr : SemRuns SemAct.Exact h) :
    (∀ pid ns semid n, Present h.st ns semid n →
      currentAdj (h.st.undos pid) ns semid n = -h.ledger pid ns semid n) ∧
    (∀ pid ns semid n, -semaem ≤ currentAdj (h.st.undos pid) ns semid n ∧
      currentAdj (h.st.undos pid) ns semid n ≤ semaem) ∧
    (∀ pid ns semid n, ¬ Present h.st ns semid n → currentAdj (h.st.undos pid) ns semid n = 0) ∧
    h.st.ValuesOk ∧
    ∀ pid now, Adjusted (currentAdj (h.st.undos pid)) h.st (exitCleanup h.st pid now).st ∧
      (exitCleanup h.st pid now).st.undos = update h.st.undos pid [] := by
  have hinv : UndoInv h := by
    refine Reachable.invariant ?_ ?_ hr
    · rintro h rfl
      exact undoInv_boot
    · rintro h h' hi ⟨act, -, hexact, rfl⟩
      exact hi.step act hexact
  refine ⟨hinv.stored, hinv.undos.range, hinv.absent, hinv.values, fun pid now => ?_⟩
  obtain ⟨hadj, -, hundos⟩ := hinv.exitCleanup_spec pid now
  exact ⟨hadj, hundos⟩

/-- A process gives 3 to a new semaphore with `SEM_UNDO`; its adjustment is -3. -/
theorem sem_undo_accounting_give : ∃ h : SemHist, SemRuns SemAct.Exact h ∧
      Present h.st 0 1 0 ∧ currentAdj (h.st.undos 7) 0 1 0 = -3 := by
  have hboot : SemRuns SemAct.Exact .boot := .start rfl
  have hget := hboot.step ⟨.semget .default 0 ⟨0, 0, [], 7⟩ 0 1 ⟨true, false, 0⟩ 0, trivial, trivial, rfl⟩
  have hgive := hget.step ⟨.semop .default 3 ⟨0, ⟨0, 0, [], 7⟩, 1, [⟨0, 3, 0x1000⟩]⟩
    ⟨false, false, false, 0⟩, rfl, exact_of_length (by decide), rfl⟩
  refine ⟨_, hgive, ⟨_, rfl, by decide⟩, ((sem_undo_accounting hgive).1 7 0 1 0 ⟨_, rfl, by decide⟩).trans ?_⟩
  decide +kernel

end Invariant

/-! ### Saturation -/

/-- `n` times: give 32767, and take it back. -/
def giveAndTake (give take : BitVec 16) (n : Nat) : List SemBuf :=
  (List.replicate n [⟨0, 32767, give⟩, ⟨0, -32767, take⟩]).flatten

/-- `n` rounds in which giving is to be undone, then as many in which taking is: the sum is zero. -/
def longArray (n : Nat) : List SemBuf := giveAndTake 0x1000 0 n ++ giveAndTake 0 0x1000 n

section Saturation

variable {give take : BitVec 16} {n : Nat}

theorem tryOps_giveAndTake (give take : BitVec 16) (d : Int) (f : Int → Int)
    (hpair : ∀ (o t : Bool) (d : Int) (rest : List SemBuf),
      tryOps (⟨0, 32767, give⟩ :: ⟨0, -32767, take⟩ :: rest) ⟨[0], [o], [t], [d]⟩ =
        tryOps rest ⟨[0], [true], [true], [f d]⟩) (o t : Bool) (rest : List SemBuf) :
    ∃ o' t', tryOps (giveAndTake give take n ++ rest) ⟨[0], [o], [t], [d]⟩ =
      tryOps rest ⟨[0], [o'], [t'], [f^[n] d]⟩ := by
  induction n generalizing o t d with
  | zero => exact ⟨o, t, rfl⟩
  | succ n ih =>
    obtain ⟨o', t', h⟩ := ih _ true true
    exact ⟨o', t', (hpair o t d _).trans h⟩

theorem iterate_down : (fun d => satAdd32 d (-32767))^[n] 0 = max (-2 ^ 31) (-(32767 * n : Int)) := by
  induction n with
  | zero => decide
  | succ n ih =>
    rw [iterate_succ_apply', ih]
    unfold satAdd32
    omega

theorem iterate_up {d : Int} (hd : -2 ^ 31 ≤ d ∧ d ≤ 2 ^ 31 - 1) :
    (fun d => satAdd32 d 32767)^[n] d = min (d + 32767 * n) (2 ^ 31 - 1) := by
  induction n with
  | zero =>
    simp only [iterate_zero, id_eq]
    omega
  | succ n ih =>
    rw [iterate_succ_apply', ih]
    unfold satAdd32
    omega

/-- What the trial of the long array collects. -/
theorem tryOps_longArray : ∃ o t, tryOps (longArray n) (.start [SemEntry.new]) =
    .complete ⟨[0], [o], [t], [min (max (-2 ^ 31) (-(32767 * n : Int)) + 32767 * n) (2 ^ 31 - 1)]⟩ := by
  obtain ⟨o, t, hdown⟩ := tryOps_giveAndTake 0x1000 0 0 (satAdd32 · (-32767)) (fun _ _ _ _ => rfl) false false
    (giveAndTake 0 0x1000 n)
  rw [iterate_down] at hdown
  obtain ⟨o', t', hup⟩ := tryOps_giveAndTake 0 0x1000 (max (-2 ^ 31) (-(32767 * n : Int))) (satAdd32 · 32767)
    (fun _ _ _ _ => rfl) o t []
  rw [append_nil, iterate_up (by omega)] at hup
  exact ⟨o', t', hdown.trans hup⟩

theorem undoOn_append (a b : List SemBuf) {i : Nat} : undoOn (a ++ b) i = undoOn a i + undoOn b i := by
  simp [undoOn]

theorem undoOn_giveAndTake {x : Int} (hpair : undoOn [⟨0, 32767, give⟩, ⟨0, -32767, take⟩] 0 = x) :
    undoOn (giveAndTake give take n) 0 = n * x := by
  induction n with
  | zero => simp [giveAndTake, undoOn_nil]
  | succ n ih =>
    have hsucc : giveAndTake give take (n + 1) =
        [⟨0, 32767, give⟩, ⟨0, -32767, take⟩] ++ giveAndTake give take n := rfl
    rw [hsucc, undoOn_append, hpair, ih]
    push_cast
    rw [Int.add_mul, one_mul, add_comm]

theorem undoOn_longArray : undoOn (longArray n) 0 = 0 := by
  have hgive : undoOn [⟨0, 32767, 0x1000⟩, ⟨0, -32767, 0⟩] 0 = 32767 := by decide +kernel
  have htake : undoOn [⟨0, 32767, 0⟩, ⟨0, -32767, 0x1000⟩] 0 = -32767 := by decide +kernel
  rw [longArray, undoOn_append, undoOn_giveAndTake hgive, undoOn_giveAndTake htake, Int.mul_neg,
    add_neg_cancel]

theorem num_of_mem_giveAndTake {op : SemBuf} (h : op ∈ giveAndTake give take n) : op.num = 0 := by
  obtain ⟨l, hl, hop⟩ := mem_flatten.mp h
  rw [eq_of_mem_replicate hl] at hop
  rcases mem_cons.mp hop with rfl | hop
  · rfl
  · rw [mem_singleton.mp hop]
    rfl

theorem checkIpcAccess_root {perm : IpcPermKernel} {req : Nat} {cred : Cred} (h : cred.euid = 0) :
    checkIpcAccess perm req cred = true := if_pos (Or.inr h)

/-- A namespace with one set of one semaphore. -/
def afterSemget : SemHist := (SemAct.semget .default 0 ⟨0, 0, [], 7⟩ 0 1 ⟨true, false, 0⟩ 0).apply .boot

def longCall (n : Nat) : SemopCall := ⟨0, ⟨0, 0, [], 7⟩, 1, longArray n⟩

theorem doSemopOps_longCall {env : SemopEnv}
    (hn : min (max (-2 ^ 31) (-(32767 * n : Int)) + 32767 * n) (2 ^ 31 - 1) = 32765) :
    (doSemopOps afterSemget.st 3 (longCall n) env).ret = .returns (.ok ()) ∧
      Present (doSemopOps afterSemget.st 3 (longCall n) env).st 0 1 0 ∧
      currentAdj ((doSemopOps afterSemget.st 3 (longCall n) env).st.undos 7) 0 1 0 = 32765 := by
  obtain ⟨set, hset, hsems⟩ : ∃ set, afterSemget.st.set? 0 1 = some set ∧ set.sems = [SemEntry.new] :=
    ⟨_, rfl, rfl⟩
  obtain ⟨o, t, htrial⟩ := tryOps_longArray
  rw [hn, ← hsems] at htrial
  have hnum : ¬ ((longCall n).ops.any fun op => op.num ≥ set.sems.length) = true := by
    rw [Bool.not_eq_true, any_eq_false, hsems]
    intro op hop
    have hzero : op.num = 0 := (mem_append.mp hop).elim num_of_mem_giveAndTake num_of_mem_giveAndTake
    simp [hzero]
  unfold doSemopOps
  rw [show afterSemget.st.set? (longCall n).ns (longCall n).semid = some set from hset]
  dsimp only
  rw [if_neg hnum, checkIpcAccess_root rfl, show tryOps (longCall n).ops (.start set.sems) = _ from htrial]
  refine ⟨rfl, ⟨_, SemState.set?_putSet_self, by simp [SemSet.commit, hsems]⟩, ?_⟩
  exact congrArg (fun l => currentAdj l 0 1 0) (update_self 7 _ afterSemget.st.undos)

/-- The adjustments of an array of 262156 operations, which a raised `semopm` admits, are lost in
part when their sum saturates: it should be zero, and comes out as 32765. -/
theorem saturated_undo : ∃ h, SemRuns (fun _ => True) h ∧
    Present h.st 0 1 0 ∧ h.ledger 7 0 1 0 = 0 ∧ currentAdj (h.st.undos 7) 0 1 0 = 32765 := by
  -- 65539 rounds are enough
  obtain ⟨n, hlen, hn⟩ : ∃ n : Nat, 4 * n = 262156 ∧
      min (max (-2 ^ 31) (-(32767 * n : Int)) + 32767 * n) (2 ^ 31 - 1) = 32765 :=
    ⟨65539, by decide, by decide⟩
  obtain ⟨hret, hpresent, hadj⟩ := doSemopOps_longCall hn
  have hget : SemRuns (fun _ => True) afterSemget :=
    .step (.start rfl) ⟨.semget .default 0 ⟨0, 0, [], 7⟩ 0 1 ⟨true, false, 0⟩ 0, trivial, trivial, rfl⟩
  have hlimit : checkSemopCount ⟨32000, 1024000000, 300000, 32000, by decide, by decide⟩
      (longCall n).ops.length = .ok () := by
    have hops : (longCall n).ops.length = 4 * n := by
      simp [longCall, longArray, giveAndTake]
      omega
    rw [hops, hlen]
    rfl
  have hlong := hget.step ⟨.semop ⟨32000, 1024000000, 300000, 32000, by decide, by decide⟩ 3 (longCall n)
    ⟨false, false, false, 0⟩, hlimit, trivial, rfl⟩
  refine ⟨_, hlong, hpresent, ?_, hadj⟩
  unfold SemAct.apply
  dsimp only
  rw [hret]
  change afterSemget.ledger 7 0 1 0 + (if _ then undoOn (longArray n) 0 else 0) = 0
  rw [undoOn_longArray]
  rfl

end Saturation

end HitOS.Ipc
