import Mathlib

/-!
# Delivery of signals

`task/signal.rs` and `syscall/signal/deliver.rs`: `kill` marks a signal pending in every thread of
the process, and each thread takes it for itself when it returns to user mode. So the handler is
entered by as many threads as do not block the signal (`kill_enters_twice`), and once only if all
but one keep it blocked (`signal_handled_once`).
-/

namespace HitOS.Signals

open Function Finset

inductive Handler
  | dfl
  | ign
  | user
  deriving DecidableEq

structure SigAction where
  handler : Handler
  mask : Finset Nat
  /-- `SA_NODEFER`. -/
  nodefer : Bool

/-- What the threads of a process share: whether it is traced, and `rt_sig_handlers`. -/
structure Process where
  traced : Bool
  action : Nat → SigAction

/-- A thread; words of signal bits are sets. The frames of handlers are left out: `rt_sigreturn`
changes the mask. -/
structure Thread where
  pendingSignals : Finset Nat
  signalMask : Finset Nat
  signalPending : Bool
  /-- Whether `sigwait_mask` is set. -/
  sigwait : Bool

def sigkill : Nat := 9

def sigcont : Nat := 18

def sigstop : Nat := 19

namespace Thread

def pendingUnmaskedBits (t : Thread) : Finset Nat :=
  (t.pendingSignals \ t.signalMask) ∪ (t.pendingSignals ∩ {sigkill, sigstop})

def firstUnmasked (t : Thread) : Option Nat := (List.range' 1 64).find? (· ∈ t.pendingUnmaskedBits)

/-- Other signals are pending, and `refresh_signal_pending`. -/
def refresh (t : Thread) (pending : Finset Nat) : Thread :=
  { t with pendingSignals := pending, signalPending := pending ≠ ∅ }

/-- The thread afterwards, and the signal whose handler it enters. -/
def maybeDeliverSignal (t : Thread) (p : Process) : Thread × Option Nat :=
  if !t.signalPending then (t, none)
  else if t.sigwait ∧ t.pendingSignals ∩
    {sigkill, sigstop, sigcont} = ∅ then (t.refresh t.pendingSignals, none)
  else match t.firstUnmasked with
    | none => (t.refresh t.pendingSignals, none)
    | some signum =>
      let t := t.refresh (t.pendingSignals.erase signum)
      let action := p.action signum
      -- the process is stopped for its tracer or by the signal, ends, or ignores it
      if p.traced ∧ signum ≠ sigkill ∨ signum = sigstop ∨ action.handler ≠ .user then (t, none)
      else
        let mask := t.signalMask ∪ action.mask
        ({ t with signalMask := if action.nodefer then mask else insert signum mask }, some signum)

end Thread

/-- What happens to a thread. -/
inductive Act
  /-- `kill` comes to it. -/
  | mark (signum : Nat)
  /-- It returns to user mode. -/
  | check
  | setMask (mask : Finset Nat)
  | setSigwait (sigwait : Bool)
  /-- It takes signals without a handler: in `sigtimedwait`, or because they are ignored. -/
  | discard (signals : Finset Nat)
  deriving DecidableEq

def Thread.act (p : Process) (t : Thread) : Act → Thread × Option Nat
  | .mark signum => ({ t with pendingSignals := insert signum t.pendingSignals, signalPending := true }, none)
  | .check => t.maybeDeliverSignal p
  | .setMask mask => ({ t with signalMask := mask }, none)
  | .setSigwait sigwait => ({ t with sigwait := sigwait }, none)
  | .discard signals => (t.refresh (t.pendingSignals \ signals), none)

/-- The loop of `kill` over the threads of the process. -/
def kill (n signum : Nat) : List (Fin n × Act) := (List.finRange n).map (·, .mark signum)

/-- The threads that enter the handler of the signal, one after another. -/
def entries {n : Nat} (p : Process) (signum : Nat) (threads : Fin n → Thread) :
    List (Fin n × Act) → List (Fin n)
  | [] => []
  | (i, a) :: acts =>
    let r := (threads i).act p a
    let later := entries p signum (update threads i r.1) acts
    if r.2 = some signum then i :: later else later

variable {p : Process} {t : Thread} {signum : Nat}

/-- A delivery adds nothing to what is pending, and takes nothing from the mask. If it enters a
handler, the signal was ready, and is not pending any more. -/
theorem maybeDeliverSignal_spec :
    (t.maybeDeliverSignal p).1.pendingSignals ⊆ t.pendingSignals ∧
    t.signalMask ⊆ (t.maybeDeliverSignal p).1.signalMask ∧
    ∀ signum, (t.maybeDeliverSignal p).2 = some signum → signum ≠ sigstop ∧ signum ∈ t.pendingUnmaskedBits ∧
      signum ∉ (t.maybeDeliverSignal p).1.pendingSignals := by
  unfold Thread.maybeDeliverSignal
  iterate 3
    split
    · exact ⟨Subset.rfl, Subset.rfl, nofun⟩
  next signum hfirst =>
  dsimp only [Thread.refresh]
  split
  · exact ⟨erase_subset _ _, Subset.rfl, nofun⟩
  next huser =>
  refine ⟨erase_subset _ _, ?_, ?_⟩
  · split
    · exact subset_union_left
    · exact subset_union_left.trans (subset_insert _ _)
  · rintro _ ⟨⟩
    exact ⟨fun hstop => huser (.inr (.inl hstop)), by simpa using List.find?_some hfirst, notMem_erase _ _⟩

/-- One action of a thread. The handler is entered only if the signal is pending and not blocked,
and then it is not pending any more; it becomes pending only if it is marked, and stays blocked,
unless the thread sets its mask. -/
theorem act_spec (p : Process) (t : Thread) (a : Act) (hkill : signum ≠ sigkill) :
    ((t.act p a).2 = some signum → signum ∉ t.signalMask ∧ signum ∈ t.pendingSignals ∧
      signum ∉ (t.act p a).1.pendingSignals) ∧
    (signum ∈ (t.act p a).1.pendingSignals → signum ∈ t.pendingSignals ∨ a = .mark signum) ∧
    (signum ∈ t.signalMask → (∀ mask, a = .setMask mask → signum ∈ mask) →
      signum ∈ (t.act p a).1.signalMask) := by
  cases a with
  | mark signum' =>
    refine ⟨nofun, fun h => ?_, fun h _ => h⟩
    exact (mem_insert.mp h).symm.imp_right fun heq : signum = signum' => heq ▸ rfl
  | check =>
    obtain ⟨hpend, hmask, henter⟩ := maybeDeliverSignal_spec
    refine ⟨fun h => ?_, fun h => .inl (hpend h), fun h _ => hmask h⟩
    obtain ⟨hstop, hready, hgone⟩ := henter signum h
    simp only [Thread.pendingUnmaskedBits, mem_union, mem_sdiff, mem_inter, mem_insert,
      mem_singleton, hkill, hstop,
      or_self, and_false, or_false] at hready
    exact ⟨hready.2, hready.1, hgone⟩
  | setMask => exact ⟨nofun, .inl, fun _ h => h _ rfl⟩
  | setSigwait => exact ⟨nofun, .inl, fun h _ => h⟩
  | discard => exact ⟨nofun, fun h => .inl (mem_sdiff.mp h).1, fun h _ => h⟩

/-- **A signal is handled once**, if it is sent once and all threads but one keep it blocked. -/
theorem signal_handled_once {n : Nat} {threads : Fin n → Thread} {acts : List (Fin n × Act)} (i : Fin n)
    (hkill : signum ≠ sigkill) (hnew : signum ∉ (threads i).pendingSignals)
    (hone : acts.count (i, .mark signum) ≤ 1) (hblocked : ∀ j, j ≠ i → signum ∈ (threads j).signalMask)
    (hkept : ∀ j mask, j ≠ i → (j, .setMask mask) ∈ acts → signum ∈ mask) :
    (entries p signum threads acts).length ≤ 1 := by
  suffices hle : (entries p signum threads acts).length ≤
      (if signum ∈ (threads i).pendingSignals then 1 else 0) + acts.count (i, .mark signum) by
    rw [if_neg hnew] at hle
    omega
  clear hnew hone
  induction acts generalizing threads with
  | nil => exact Nat.zero_le _
  | cons head acts ih =>
    obtain ⟨j, a⟩ := head
    obtain ⟨henter, hpend, hmask⟩ := act_spec p (threads j) a hkill
    have hrest := @ih (update threads j ((threads j).act p a).1) (fun j' hj' => ?_)
      fun j' mask hj' hmem => hkept j' mask hj' (.tail _ hmem)
    · rw [entries, List.count_cons]
      by_cases hj : j = i
      · subst hj
        rw [update_self] at hrest
        by_cases henters : ((threads j).act p a).2 = some signum
        · -- an entry uses up the mark
          obtain ⟨-, hbefore, hafter⟩ := henter henters
          rw [if_neg hafter] at hrest
          rw [if_pos henters, if_pos hbefore, List.length_cons]
          omega
        rw [if_neg henters]
        by_cases hafter : signum ∈ ((threads j).act p a).1.pendingSignals
        · -- it was marked before this action, or by it
          rw [if_pos hafter] at hrest
          rcases hpend hafter with hbefore | rfl
          · rw [if_pos hbefore]
            omega
          · rw [beq_self_eq_true, if_pos rfl]
            omega
        · rw [if_neg hafter] at hrest
          omega
      · rw [update_of_ne (Ne.symm hj)] at hrest
        rw [if_neg fun h => (henter h).1 (hblocked j hj)]
        omega
    · rw [update_apply]
      split
      · next heq =>
        subst heq
        exact hmask (hblocked j' hj') fun mask ha => hkept j' mask hj' (ha ▸ .head _)
      · exact hblocked j' hj'

/-- Every signal has a handler. -/
def handles : Process := ⟨false, fun _ => ⟨.user, ∅, false⟩⟩

def idle (mask : Finset Nat) : Thread := ⟨∅, mask, false, false⟩

/-- The first thread handles `SIGUSR1`, and the second blocks it. -/
theorem signal_handled_once_blocked :
    (entries handles 10 (fun i => idle (if i = 0 then ∅ else {10}))
      (kill 2 10 ++ [(0, .check), (1, .check)])).length ≤ 1 := by
  refine signal_handled_once 0 (by decide) (by decide) (by decide) (by decide) ?_
  simp [kill]

/-- Both threads handle it. -/
theorem kill_enters_twice :
    entries handles 10 (fun _ => idle ∅) (kill 2 10 ++ [(0, .check), (1, .check)]) = [0, 1] := by
  decide

end HitOS.Signals
