import HitOS.Lib.Reachable

/-!
# Tasks that block and are woken

A blocking call is a loop around a critical section: a round of it returns, or registers the task as
a waiter and releases the lock, after which the task is switched out until someone wakes it. A
wakeup that arrives between registering and switching out is recorded, and the task does not block.

Here are the phases of a task and the effect of wakeups, under the lock and after its release, over
an arbitrary shared state and arbitrary calls. `AllHeld` says what is to be known of the tasks that
wait; the critical sections, and the rule for lost wakeups, are in `Blocking`.
-/

namespace Parking

open List Function

universe u v

abbrev Task := Nat

/-- Where a task is with respect to the calls `κ`. -/
inductive Phase (κ : Type v) where
  /-- Outside of the calls. -/
  | idle
  /-- About to enter the critical section; `waited` says whether it has blocked before. -/
  | trying (c : κ) (waited : Bool)
  /-- Registered, and not switched out yet; `woken` says whether a wakeup is recorded. -/
  | parking (c : κ) (woken : Bool)
  /-- Switched out. -/
  | blocked (c : κ)
  /-- Woken, and waiting for a processor. -/
  | ready (c : κ)
  /-- Exited. -/
  | gone
  deriving DecidableEq

namespace Phase

variable {κ : Type v} {c : κ}

/-- A wakeup. -/
def wake : Phase κ → Phase κ
  | parking c _ => parking c true
  | blocked c => ready c
  | p => p

/-- The task has not exited. -/
def alive : Phase κ → Bool
  | gone => false
  | _ => true

/-- The task is switched out. -/
def isBlocked : Phase κ → Bool
  | blocked _ => true
  | _ => false

/-- The task waits for a wakeup with the call `c`, and none is recorded. -/
def Waits (c : κ) (p : Phase κ) : Prop := p = .blocked c ∨ p = .parking c false

theorem not_waits_wake {p : Phase κ} : ¬ Waits c p.wake := by
  rintro (h | h) <;> cases p <;> cases h

variable {p : Phase κ}

theorem Waits.alive (h : Waits c p) : p.alive = true := by
  rcases h with rfl | rfl <;> rfl

end Phase

/-- The shared state, the tasks, and the wakeups that are still to be delivered. -/
structure World (σ : Type u) (κ : Type v) where
  shared : σ
  phase : Task → Phase κ
  later : List Task

section Steps

variable {σ : Type u} {κ : Type v}
  {ts later : List Task} {phase : Task → Phase κ} {t : Task} {w : World σ κ} {s : σ} {c : κ}

/-- No task has made a call. -/
def World.boot (shared : σ) : World σ κ := ⟨shared, fun _ => .idle, []⟩

/-- The tasks of a list are woken. -/
def wakeAll (ts : List Task) (phase : Task → Phase κ) : Task → Phase κ :=
  fun t => if t ∈ ts then (phase t).wake else phase t

@[simp]
theorem wakeAll_nil : wakeAll [] phase = phase := by
  funext t
  exact if_neg not_mem_nil

/-- A task changes its phase. -/
def World.goto (w : World σ κ) (t : Task) (p : Phase κ) : World σ κ :=
  { w with phase := update w.phase t p }

variable {Held : σ → Task → κ → Prop} {woken : List Task}

/-- The tasks that wait, with no wakeup under way, are held. -/
def AllHeld (Held : σ → Task → κ → Prop) (w : World σ κ) : Prop :=
  ∀ t c, (w.phase t).Waits c → t ∉ w.later → Held w.shared t c

theorem not_waits_of_mem (h : t ∈ ts) : ¬ (wakeAll ts phase t).Waits c := by
  unfold wakeAll
  rw [if_pos h]
  exact Phase.not_waits_wake

theorem wakeAll_of_not_mem (h : t ∉ ts) : wakeAll ts phase t = phase t := if_neg h

/-- A task that changes its phase does not begin to wait. -/
theorem AllHeld.goto (h : AllHeld Held w)
    (hp : ∀ c, p.Waits c → (w.phase t).Waits c) : AllHeld Held (w.goto t p) := by
  intro t' c hw hl
  refine h t' c ?_ hl
  change (update w.phase t p t').Waits c at hw
  rw [update_apply] at hw
  split at hw
  · next ht => exact ht ▸ hp c hw
  · exact hw

/-- A task that has registered is switched out. -/
theorem AllHeld.switchOut (h : AllHeld Held w) {woken : Bool}
    (ht : w.phase t = .parking c woken) :
    AllHeld Held (w.goto t (if woken then .ready c else .blocked c)) := by
  refine h.goto fun c' hw => ?_
  rw [ht]
  cases woken with
  | true => rcases hw with hw | hw <;> cases hw
  | false =>
    rcases hw with hw | hw <;> cases hw
    exact .inr rfl

/-- Tasks that are woken do not wait any longer; the others have to be held. -/
theorem AllHeld.wake (h : ∀ t c, (phase t).Waits c → t ∉ ts → t ∉ later → Held s t c) :
    AllHeld Held ⟨s, wakeAll ts phase, later⟩ := by
  intro t c hw hl
  by_cases ht : t ∈ ts
  · exact absurd hw (not_waits_of_mem ht)
  · change (wakeAll ts phase t).Waits c at hw
    rw [wakeAll_of_not_mem ht] at hw
    exact h t c hw ht hl

/-- The task in the critical section changes its phase; the others are held as before. -/
theorem AllHeld.update (h : AllHeld Held w)
    (hself : ∀ c, p.Waits c → t ∉ woken → t ∉ later → t ∉ w.later → Held s t c)
    (hother : ∀ t' c, (w.phase t').Waits c → t' ∉ woken → t' ∉ later → Held w.shared t' c → Held s t' c) :
    AllHeld Held ⟨s, wakeAll woken (update w.phase t p), w.later ++ later⟩ := by
  refine .wake fun t' c hw hwoken hl => ?_
  rw [mem_append, not_or] at hl
  rw [update_apply] at hw
  split at hw
  · next ht =>
    subst ht
    exact hself c hw hwoken hl.2 hl.1
  · exact hother t' c hw hwoken hl.2 (h t' c hw hl.1)

/-- A critical section of no task. -/
theorem AllHeld.act (h : AllHeld Held w)
    (hother : ∀ t c, (w.phase t).Waits c → t ∉ woken → t ∉ later → Held w.shared t c → Held s t c) :
    AllHeld Held ⟨s, wakeAll woken w.phase, w.later ++ later⟩ := by
  refine .wake fun t c hw hwoken hl => ?_
  rw [mem_append, not_or] at hl
  exact hother t c hw hwoken hl.2 (h t c hw hl.1)

/-- A wakeup that was under way arrives. -/
theorem AllHeld.deliver (h : AllHeld Held w) {l₁ l₂ : List Task}
    (hl : w.later = l₁ ++ t :: l₂) : AllHeld Held ⟨w.shared, wakeAll [t] w.phase, l₁ ++ l₂⟩ := by
  refine .wake fun t' c hw ht hl' => h t' c hw ?_
  rw [mem_singleton] at ht
  rw [hl]
  simpa [ht] using hl'

end Steps

end Parking
