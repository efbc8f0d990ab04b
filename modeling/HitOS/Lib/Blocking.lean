import HitOS.Lib.Parking

/-!
# Systems of blocking calls

`System` has the critical sections as parameters; `Step` interleaves them with everything a
scheduler may do. A round of a call may leave the call in another state, in which it goes round
again or blocks, and every critical section may look at where the tasks are: a waker may pass over a
waiter that is not switched out yet, or whose task is gone. A task that has registered may also look
again before it blocks.

`held_of_reachable` is the rule for lost wakeups: what holds of a waiter when it registers, and is
kept by every critical section that does not wake it, holds of every task that is blocked with no
wakeup under way. The critical sections that meet a condition are a system again, so the rule also
serves for the runs in which all of them do.
-/

namespace Blocking

open Reachable Function Parking

open Parking (Task Phase World wakeAll AllHeld)

universe u v

/-- How a round ends for the call. -/
inductive Next (κ : Type v) where
  | finish
  /-- The loop goes round again. -/
  | again (c : κ)
  /-- The task has registered and goes on to block. -/
  | park (c : κ)

/-- What a critical section leaves behind. -/
structure Outcome (σ : Type u) where
  shared : σ
  /-- Woken under the lock. -/
  woken : List Task
  /-- To be woken after the lock is released. -/
  later : List Task

/-- Which calls there are, the rounds of them, and all other critical sections. -/
structure System (σ : Type u) (κ : Type v) where
  start : κ → Prop
  attempt : (Task → Phase κ) → σ → Task → κ → Outcome σ → Next κ → Prop
  act : (Task → Phase κ) → σ → Outcome σ → Prop
  /-- A second look, of a task that has registered. -/
  recheck : (Task → Phase κ) → σ → Task → κ → Outcome σ → Next κ → Prop := fun _ _ _ _ _ _ => False
  /-- The task may be switched out: no second look is to come. -/
  sleeps : κ → Prop := fun _ => True

section Steps

variable {σ : Type u} {κ : Type v} {s : σ}

/-- The phase of the task after a round. -/
def Next.phase (waited : Bool) : Next κ → Phase κ
  | .finish => .idle
  | .again c => .trying c waited
  | .park c => .parking c false

/-- The phase of a task that has registered, after a second look. -/
def Next.parkedPhase (woken : Bool) : Next κ → Phase κ
  | .finish => .idle
  | .again c => .trying c false
  | .park c => .parking c woken

/-- The effect of a critical section, with the phases the tasks have then. -/
def after (w : World σ κ) (o : Outcome σ) (phase : Task → Phase κ) : World σ κ :=
  ⟨o.shared, wakeAll o.woken phase, w.later ++ o.later⟩

/-- One step of a run. -/
inductive Step (S : System σ κ) (w : World σ κ) : World σ κ → Prop
  | call (t : Task) {c : κ} (h : w.phase t = .idle) (hc : S.start c) :
      Step S w (w.goto t (.trying c false))
  | round {t : Task} {c : κ} {waited : Bool} {o : Outcome σ} {n : Next κ}
      (h : w.phase t = .trying c waited) (ho : S.attempt w.phase w.shared t c o n) :
      Step S w (after w o (update w.phase t (n.phase waited)))
  | recheck {t : Task} {c : κ} {woken : Bool} {o : Outcome σ} {n : Next κ}
      (h : w.phase t = .parking c woken) (ho : S.recheck w.phase w.shared t c o n) :
      Step S w (after w o (update w.phase t (n.parkedPhase woken)))
  | switchOut {t : Task} {c : κ} {woken : Bool} (h : w.phase t = .parking c woken)
      (hc : S.sleeps c) : Step S w (w.goto t (if woken then .ready c else .blocked c))
  | resume {t : Task} {c : κ} (h : w.phase t = .ready c) :
      Step S w (w.goto t (.trying c true))
  /-- The call gives up after a wakeup, on a signal or a timeout. -/
  | interrupt {t : Task} {c : κ} (h : w.phase t = .ready c) : Step S w (w.goto t .idle)
  | act {o : Outcome σ} (ho : S.act w.phase w.shared o) : Step S w (after w o w.phase)
  | deliver {t : Task} {l₁ l₂ : List Task} (h : w.later = l₁ ++ t :: l₂) :
      Step S w ⟨w.shared, wakeAll [t] w.phase, l₁ ++ l₂⟩
  /-- A timer or a signal wakes the task. -/
  | disturb (t : Task) : Step S w { w with phase := wakeAll [t] w.phase }
  | exit (t : Task) : Step S w (w.goto t .gone)

/-- What a critical section has to preserve: an invariant of the shared state, and of the waiters it
does not wake what `Held` says. -/
structure Preserves (I : σ → Prop) (Held : σ → Task → κ → Prop) (phase : Task → Phase κ) (s : σ)
    (o : Outcome σ) : Prop where
  inv : I o.shared
  held : ∀ t c, (phase t).Waits c → t ∉ o.woken → t ∉ o.later → Held s t c → Held o.shared t c

variable {S : System σ κ} {I : σ → Prop} {Held : σ → Task → κ → Prop} {w : World σ κ} {c : κ} {n : Next κ}

theorem Next.waits_phase {waited : Bool} (h : (n.phase waited).Waits c) : n = .park c := by
  cases n <;> rcases h with h | h <;> cases h
  rfl

theorem Next.waits_parkedPhase {woken : Bool} (h : (n.parkedPhase woken).Waits c) :
    n = .park c ∧ woken = false := by
  cases n <;> rcases h with h | h <;> cases h
  exact ⟨rfl, rfl⟩

section Rule

variable (hattempt : ∀ phase s t c waited o n, I s → phase t = .trying c waited → S.attempt phase s t c o n →
    Preserves I Held phase s o ∧ ∀ c', n = .park c' → Held o.shared t c')
  (hact : ∀ phase s o, I s → S.act phase s o → Preserves I Held phase s o)
  (hrecheck : ∀ phase s t c woken o n, I s → phase t = .parking c woken → S.recheck phase s t c o n →
    Preserves I Held phase s o ∧ ∀ c', n = .park c' → t ∉ o.woken → t ∉ o.later → Held s t c →
      Held o.shared t c')

include hattempt hact hrecheck

/-- **One step** keeps the invariant and holds the waiters. -/
theorem step_held {w' : World σ κ} (hI : I w.shared) (h : AllHeld Held w) (hstep : Step S w w') :
    I w'.shared ∧ AllHeld Held w' := by
  cases hstep with
  | call | resume | interrupt | exit => exact ⟨hI, h.goto nofun⟩
  | round ht ho =>
    obtain ⟨hpres, hnew⟩ := hattempt _ _ _ _ _ _ _ hI ht ho
    exact ⟨hpres.inv, h.update (fun c' hw _ _ _ => hnew c' (Next.waits_phase hw)) hpres.held⟩
  | recheck ht ho =>
    obtain ⟨hpres, hnew⟩ := hrecheck _ _ _ _ _ _ _ hI ht ho
    refine ⟨hpres.inv, h.update (fun c' hw hwoken hlater hl => ?_) hpres.held⟩
    -- without a wakeup the task was held before
    obtain ⟨hpark, rfl⟩ := Next.waits_parkedPhase hw
    exact hnew c' hpark hwoken hlater (h _ _ (.inr ht) hl)
  | switchOut ht => exact ⟨hI, h.switchOut ht⟩
  | act ho =>
    have hpres := hact _ _ _ hI ho
    exact ⟨hpres.inv, h.act hpres.held⟩
  | deliver hl => exact ⟨hI, h.deliver hl⟩
  | disturb => exact ⟨hI, .wake fun t' c hw _ => h t' c hw⟩

/-- **The rule for lost wakeups.** -/
theorem held_of_reachable (hs : I s)
    (hr : Reachable (· = World.boot s) (Step S) w) : I w.shared ∧ AllHeld Held w := by
  refine invariant (I := fun w => I w.shared ∧ AllHeld Held w) ?_ ?_ hr
  · rintro w rfl
    exact ⟨hs, nofun⟩
  · intro _ _ hi hstep
    exact step_held hattempt hact hrecheck hi.1 hi.2 hstep

end Rule

/-- A call, and its first round. -/
theorem enter {init : World σ κ → Prop} (h : Reachable init (Step S) w) (t : Task) (ht : w.phase t = .idle)
    (hc : S.start c) {o : Outcome σ}
    (ho : S.attempt (update w.phase t (.trying c false)) w.shared t c o n) :
    Reachable init (Step S)
      (after w o (update (update w.phase t (.trying c false)) t (n.phase false))) :=
  (h.step (.call t ht hc)).step (.round (update_self ..) ho)

/-- A task that is blocked had no second look to come. -/
theorem sleeps_of_blocked (hr : Reachable (· = World.boot s) (Step S) w) {t : Task}
    (hb : w.phase t = .blocked c) : S.sleeps c := by
  suffices h : ∀ t c, w.phase t = .blocked c → S.sleeps c from h t c hb
  refine invariant (I := fun w : World σ κ => ∀ t c, w.phase t = .blocked c → S.sleeps c) ?_ ?_ hr
  · nofun
  intro w _ hi hstep
  -- only switching out makes a task blocked
  have hgoto t p (hp : (∀ c, p ≠ .blocked c)) t' c (h : update w.phase t p t' = .blocked c) : S.sleeps c := by
    rw [update_apply] at h
    split at h
    · exact absurd h (hp c)
    · exact hi t' c h
  have hwake : ∀ ts (phase : Task → Phase κ), (∀ t c, phase t = .blocked c → S.sleeps c) →
      ∀ t c, wakeAll ts phase t = .blocked c → S.sleeps c := by
    intro ts _ hphase t c h
    by_cases ht : t ∈ ts
    · exact absurd (.inl h) (not_waits_of_mem ht)
    · rw [wakeAll_of_not_mem ht] at h
      exact hphase t c h
  cases hstep with
  | call t => exact hgoto t _ fun _ => nofun
  | @round t c waited o n ht ho
  | @recheck t c woken o n ht ho => exact hwake _ _ (hgoto t _ fun _ => by cases n <;> exact nofun)
  | @switchOut t c woken ht hc =>
    intro t' c' h
    simp only [World.goto, update_apply] at h
    split at h
    · cases woken with
      | true => cases h
      | false => exact Phase.blocked.inj h ▸ hc
    · exact hi t' c' h
  | resume | interrupt | exit => exact hgoto _ _ fun _ => nofun
  | act | deliver | disturb => exact hwake _ _ hi

end Steps

end Blocking
