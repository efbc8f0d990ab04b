import HitOS.Lib.Usize

/-!
# Contexts of nested signal handlers

`syscall/signal/deliver.rs` and `wait.rs`: the delivery of a signal to a handler saves the
interrupted context in `sig_saved_ctx`, and `rt_sigreturn` takes it from there. The stack is cleared
when it holds eight contexts, and by every `SIGSEGV` and `SIGBUS`; the handlers below then have
nothing to return to (`segv_loses_context`). If it is not, each `rt_sigreturn` restores what its
delivery interrupted, unless the handler has changed the floating-point registers or called
`sigaltstack` (`sigreturn_restores`): a saved context has neither.
-/

namespace HitOS.SignalContext

/-- The user registers; `x` by the numbers of the registers. -/
structure TrapContext where
  sepc : Nat
  x : Nat → Nat

/-- What a handler with `SA_SIGINFO` finds on its stack, as far as it is read again. -/
structure UContext where
  regs : TrapContext
  sigmask : Nat

structure SigSavedContext where
  trapCx : TrapContext
  mask : Nat
  /-- As it is in user memory. Handlers do not change it. -/
  ucontext : Option UContext
  signum : Nat
  wasOnSigaltstack : Bool

structure SigAction where
  handler : Nat
  mask : Nat
  nodefer : Bool
  onstack : Bool
  siginfo : Bool

structure Thread where
  trapCx : TrapContext
  /-- The floating-point registers; the last one is `fcsr`. -/
  fp : Fin 33 → BitVec 64
  signalMask : Nat
  sigsuspendOldMask : Option Nat
  onSigaltstack : Bool
  sigaltstackEnabled : Bool
  sigaltstackSp : Nat
  sigaltstackSize : Nat
  /-- The number and the arguments of the last system call. -/
  lastSyscall : Option (Nat × (Nat → Nat))
  /-- The last one first. -/
  sigSavedCtx : List SigSavedContext

def maxSignalDepth : Nat := 8

def sigbus : Nat := 7

def sigsegv : Nat := 11

def erestartsys : Nat := 2 ^ 64 - 512

/-- Room for a structure of the given size below a stack pointer. -/
def pushFrame (sp size : Nat) : Nat := (sp - 15) / 16 * 16 - size

namespace Thread

variable (t : Thread)

/-- What `sigaltstack` sets. -/
def altstack : Bool × Nat × Nat := (t.sigaltstackEnabled, t.sigaltstackSp, t.sigaltstackSize)

/-- A system call that is to be restarted is saved as it was called. -/
def savedTrap : TrapContext :=
  match t.lastSyscall with
  | some (id, args) =>
    if t.trapCx.x 10 = erestartsys then
      { sepc := (t.trapCx.sepc + (2 ^ 64 - 4)) % 2 ^ 64
        x := fun r => if r = 17 then id else if 10 ≤ r ∧ r ≤ 15 then args (r - 10) else t.trapCx.x r }
    else t.trapCx
  | none => t.trapCx

/-- What `maybe_deliver_signal` does before it looks for a signal. -/
def dropStale : Thread :=
  if maxSignalDepth ≤ t.sigSavedCtx.length then { t with sigSavedCtx := [], sigsuspendOldMask := none } else t

/-- What it does to enter a handler. -/
def enterHandler (trampoline signum : Nat) (action : SigAction) : Thread :=
  let savedMask := t.sigsuspendOldMask.getD t.signalMask
  let newMask := t.signalMask ||| action.mask
  let switches := action.onstack && t.sigaltstackEnabled && !t.onSigaltstack && t.sigaltstackSize ≠ 0
  let sp := if switches then satAdd t.sigaltstackSp t.sigaltstackSize else t.trapCx.x 2
  -- the sizes of `LinuxSigInfo` and `UContext`
  let siginfoPtr := pushFrame sp 128
  let ucontextPtr := pushFrame siginfoPtr 960
  { t with
    sigsuspendOldMask := none
    sigSavedCtx :=
      ⟨t.savedTrap, savedMask, if action.siginfo then some ⟨t.savedTrap, savedMask⟩ else none,
        signum, t.onSigaltstack⟩ ::
        if signum = sigsegv ∨ signum = sigbus then [] else t.sigSavedCtx
    signalMask := if action.nodefer then newMask else newMask ||| 1 <<< (signum - 1)
    onSigaltstack := t.onSigaltstack || switches
    trapCx :=
      { sepc := action.handler
        x := fun
          | 1 => trampoline
          | 2 => if action.siginfo then ucontextPtr else sp
          | 10 => signum
          | 11 => if action.siginfo then siginfoPtr else 0
          | 12 => if action.siginfo then ucontextPtr else 0
          | r => t.trapCx.x r } }

/-- `None` if the process exits. -/
def rtSigreturn : Option Thread :=
  match t.sigSavedCtx with
  | [] => none
  | saved :: below =>
    let uc := saved.ucontext.getD ⟨saved.trapCx, saved.mask⟩
    some { t with
      sigSavedCtx := below, trapCx := uc.regs, signalMask := uc.sigmask, onSigaltstack :=
        saved.wasOnSigaltstack }

/-- The delivery of a signal to a handler. -/
def deliver (trampoline signum : Nat) (action : SigAction) : Thread :=
  t.dropStale.enterHandler trampoline signum action

end Thread

variable {tr signum : Nat} {action : SigAction} {t t' : Thread}

/-- **What happens in a handler before it returns**: properly nested handlers, each with its own
`rt_sigreturn`. The condition is on signals that are found pending; those without a handler have no
number. -/
inductive Runs (cond : Thread → Option Nat → Prop) (tr : Nat) : Thread → Thread → Prop
  | refl {t : Thread} : Runs cond tr t t
  /-- User code and system calls. -/
  | user {t t₁ t₂ : Thread} : Runs cond tr t t₁ → t₂.sigSavedCtx = t₁.sigSavedCtx → Runs cond tr t t₂
  /-- A signal that enters no handler. -/
  | ignored {t t₁ : Thread} : Runs cond tr t t₁ → cond t₁ none → Runs cond tr t t₁.dropStale
  | handled {t t₁ t₂ t₃ : Thread} {signum : Nat} {action : SigAction} : Runs cond tr t t₁ →
    cond t₁ (some signum) →
      Runs cond tr (t₁.deliver tr signum action) t₂ → t₂.rtSigreturn = some t₃ → Runs cond tr t t₃

/-- Where no saved context is dropped. -/
def Careful (t : Thread) (signum : Option Nat) : Prop :=
  t.sigSavedCtx.length < maxSignalDepth ∧ (signum = some sigsegv ∨ signum = some sigbus → t.sigSavedCtx = [])

theorem Careful.dropStale {o : Option Nat} (h : Careful t o) : t.dropStale = t := if_neg (Nat.not_le_of_lt h.1)

theorem Careful.sigSavedCtx_deliver (h : Careful t (some signum)) :
    (t.deliver tr signum action).sigSavedCtx.tail = t.sigSavedCtx := by
  rw [Thread.deliver, h.dropStale]
  change (if signum = sigsegv ∨ signum = sigbus then [] else t.sigSavedCtx) = _
  split
  · next hfault => exact (h.2 (hfault.imp (congrArg some) (congrArg some))).symm
  · rfl

/-- Nested handlers leave the contexts below them. -/
theorem Runs.sigSavedCtx_eq (h : Runs Careful tr t t') : t'.sigSavedCtx = t.sigSavedCtx := by
  induction h with
  | refl => rfl
  | user _ hsame ih => exact hsame.trans ih
  | ignored _ hcare ih => rw [hcare.dropStale, ih]
  | handled _ hcare _ hret ih ihin =>
    -- the inner handler returns to the context that its own delivery has pushed
    rw [← ih, ← hcare.sigSavedCtx_deliver, ← ihin]
    unfold Thread.rtSigreturn at hret
    split at hret
    · cases hret
    · next heq =>
      cases hret
      rw [heq]
      rfl

namespace Thread

/-- A signal that ends a `sigsuspend` finds the mask to go back to. -/
def KeepsMask (t : Thread) : Prop := t.sigSavedCtx.length < maxSignalDepth ∨ t.sigsuspendOldMask = none

theorem KeepsMask.dropStale (h : t.KeepsMask) :
    t.dropStale = { t with sigSavedCtx := t.dropStale.sigSavedCtx } := by
  unfold Thread.dropStale
  split
  · next hfull => rw [h.resolve_left (Nat.not_lt_of_le hfull)]
  · rfl

/-- What `rt_sigreturn` is to restore: the registers that the delivery interrupted, or those of the
system call to restart, the mask, or the one before `sigsuspend`, and the state of the alternate
stack. -/
structure Resumes (r t : Thread) : Prop where
  restart : r.trapCx = t.savedTrap
  trapCx : t.trapCx.x 10 ≠ erestartsys → r.trapCx = t.trapCx
  fp : r.fp = t.fp
  signalMask : r.signalMask = t.sigsuspendOldMask.getD t.signalMask
  onSigaltstack : r.onSigaltstack = t.onSigaltstack
  altstack : r.altstack = t.altstack

theorem savedTrap_eq (h : t.trapCx.x 10 ≠ erestartsys) : t.savedTrap = t.trapCx := by
  unfold savedTrap
  split
  · exact if_neg h
  · rfl

end Thread

/-- **`rt_sigreturn` restores its own context**, if none is dropped meanwhile, exactly if the
handler has left what is not in it as it was. -/
theorem sigreturn_restores (hmask : t.KeepsMask) (hrun : Runs Careful tr (t.deliver tr signum action) t') :
    (∃ r, t'.rtSigreturn = some r ∧ r.Resumes t) ↔ t'.fp = t.fp ∧ t'.altstack = t.altstack := by
  have hctx := hrun.sigSavedCtx_eq
  rw [Thread.deliver, hmask.dropStale, Thread.enterHandler] at hctx
  rw [Thread.rtSigreturn, hctx]
  simp only [Option.some.injEq, exists_eq_left']
  constructor
  · intro h
    exact ⟨h.fp, h.altstack⟩
  · rintro ⟨hfp, halt⟩
    -- with `SA_SIGINFO` the registers and the mask come from user memory
    let uc : UContext := ⟨t.savedTrap, t.sigsuspendOldMask.getD t.signalMask⟩
    have huc : (if action.siginfo then some uc else none).getD uc = uc := by split <;> rfl
    exact
      { restart := congrArg UContext.regs huc
        trapCx := fun hrestart => (congrArg UContext.regs huc).trans (t.savedTrap_eq hrestart)
        fp := hfp
        signalMask := congrArg UContext.sigmask huc
        onSigaltstack := rfl
        altstack := halt }

/-- A thread in `sigsuspend`, with an alternate stack. -/
def suspended : Thread where
  trapCx := ⟨0x10000, fun r => 16 * r⟩
  fp := fun r => r
  signalMask := 0b100
  sigsuspendOldMask := some 0b11
  onSigaltstack := false
  sigaltstackEnabled := true
  sigaltstackSp := 0x8000
  sigaltstackSize := 0x2000
  lastSyscall := some (133, fun _ => 0)
  sigSavedCtx := []

/-- A handler that takes no `siginfo`, and one that does, on the alternate stack. -/
def plain : SigAction := ⟨4096, 0, false, false, false⟩

def informed : SigAction := ⟨8192, 0b1000, false, true, true⟩

/-- `SIGUSR2` comes in the handler of `SIGUSR1`, which has changed its registers. -/
theorem sigreturn_restores_nested : ∃ t', Runs Careful 0 (suspended.deliver 0 10 informed) t' ∧
    t'.sigSavedCtx.length = 1 ∧ t'.onSigaltstack = true ∧ ∃ r, t'.rtSigreturn = some r ∧
      r.Resumes suspended := by
  let inHandler := { suspended.deliver 0 10 informed with trapCx := ⟨8200, fun r => r⟩ }
  have hrun : Runs Careful 0 (suspended.deliver 0 10 informed) _ :=
    @Runs.handled _ 0 _ inHandler _ _ 12 plain (.user .refl rfl)
      ⟨by decide, fun h => absurd h (by decide)⟩ .refl rfl
  exact ⟨_, hrun, rfl, rfl, (sigreturn_restores (.inl (by decide)) hrun).mpr ⟨rfl, rfl⟩⟩

/-- **A lost context.** A `SIGSEGV` comes in the handler of `SIGUSR1`, and is handled. -/
theorem segv_loses_context :
    ∃ t, Runs (fun _ _ => True) 0 (suspended.deliver 0 10 plain) t ∧ t.rtSigreturn = none :=
  ⟨_, @Runs.handled _ 0 _ _ _ _ 11 plain .refl trivial .refl rfl, rfl⟩

end HitOS.SignalContext
