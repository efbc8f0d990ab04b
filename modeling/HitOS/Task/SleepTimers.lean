import HitOS.Lib.Reachable
import HitOS.Lib.Usize

/-!
# The published sleep deadline

`task/block_sleep.rs`: the heap `TIMERS` of sleeping tasks, and `SLEEP_TIMER_NEXT_DEADLINE_NS`, from
which a hart tells without the lock whether a sleeper is due. Who changes the heap reads its first
deadline under the lock and stores it after unlocking.

A store that comes late hides a timer that was pushed in between (`late_store_hides_timer`). If
timers are pushed only while nobody has a deadline to store, the published deadline is never after
the first of the heap (`published_deadline_not_late`).
-/

namespace HitOS.SleepTimers

/-- Where a hart is in `push_sleep_timer` or `check_timer`. -/
inductive Phase
  | idle
  /-- It looks for expired timers. -/
  | scanning
  /-- It has popped a timer, and not counted it off. -/
  | popped
  /-- It is at `rearm_next_sleep_timer_deadline`. -/
  | rearming
  /-- It has read the first deadline, unlocked, and not stored it. -/
  | storing (nextDeadline : Option Nat)
  deriving DecidableEq

/-- The deadlines of the heap, the two atomics, and the harts. -/
structure State where
  timers : List Nat
  activeCount : Nat
  nextDeadlineNs : Nat
  harts : List Phase

namespace State

variable (s : State)

def goto (h : Nat) (phase : Phase) : State := { s with harts := s.harts.set h phase }

/-- The critical section of `push_sleep_timer`. -/
def pushSleepTimer (h deadlineNs : Nat) : State :=
  { s with timers := deadlineNs :: s.timers, activeCount := s.activeCount + 1 }.goto h
    (.storing (deadlineNs :: s.timers).min?)

/-- The critical section in the loop of `check_timer`. -/
def popExpired (h currentNs : Nat) : State :=
  match s.timers.min? with
  | none => s.goto h .rearming
  | some expire =>
    if expire ≤ currentNs then { s with timers := s.timers.erase expire }.goto h .popped
    else s.goto h .rearming

def storeDeadline (h : Nat) (nextDeadline : Option Nat) : State :=
  { s with nextDeadlineNs := nextDeadline.getD usizeMax }.goto h .idle

def sleepTimerDueForUserReturn (nowNs : Nat) : Bool :=
  s.activeCount != 0 && decide (s.nextDeadlineNs ≤ nowNs)

/-- No hart is inside of a call. -/
def Quiescent : Prop := ∀ phase ∈ s.harts, phase = .idle

/-- Nobody has a deadline to store. -/
def NoneStoring : Prop := ∀ next, .storing next ∉ s.harts

end State

/-- A step of a hart. A timer may be pushed in the states that pass `mayPush`. -/
inductive Step (mayPush : State → Prop) : State → State → Prop
  | push {s} (h deadlineNs : Nat) (hh : s.harts[h]? = some .idle) (hd : deadlineNs ≤ usizeMax)
    (hmay : mayPush s) :
      Step mayPush s (s.pushSleepTimer h deadlineNs)
  | check {s} (h : Nat) (hh : s.harts[h]? = some .idle) : Step mayPush s (s.goto h .scanning)
  | pop {s} (h currentNs : Nat) (hh : s.harts[h]? = some .scanning) : Step mayPush s (s.popExpired h currentNs)
  | countOff {s} (h : Nat) (hh : s.harts[h]? = some .popped) :
      Step mayPush s ({ s with activeCount := s.activeCount - 1 }.goto h .scanning)
  | rearm {s} (h : Nat) (hh : s.harts[h]? = some .rearming) : Step mayPush s
    (s.goto h (.storing s.timers.min?))
  | store {s} (h : Nat) (next : Option Nat) (hh : s.harts[h]? = some (.storing next)) :
      Step mayPush s (s.storeDeadline h next)

def Boot (s : State) : Prop := s.timers = [] ∧ s.activeCount = 0 ∧ s.nextDeadlineNs = usizeMax ∧ s.Quiescent

/-- Not after any deadline of the heap. -/
def NotLate (published : Nat) (timers : List Nat) : Prop := ∀ deadline ∈ timers, published ≤ deadline

/-- What is to be stored is not late, and what is published is not late unless something is to be
stored. -/
structure Inv (s : State) : Prop where
  storing : ∀ next, .storing next ∈ s.harts → NotLate (next.getD usizeMax) s.timers
  published : s.NoneStoring → NotLate s.nextDeadlineNs s.timers

variable {s s' : State} {timers : List Nat}

theorem notLate_min? : NotLate (timers.min?.getD usizeMax) timers := by
  intro deadline hmem
  obtain ⟨first, hfirst⟩ : ∃ first, timers.min? = some first :=
    Option.isSome_iff_exists.mp (List.isSome_min?_of_mem hmem)
  rw [hfirst]
  exact (List.min?_eq_some_iff.mp hfirst).2 deadline hmem

/-- A hart with nothing to store moves on, with what it may have popped. -/
theorem Inv.move (hinv : Inv s) {h : Nat} {old phase : Phase} (activeCount : Nat)
    (hh : s.harts[h]? = some old) (hold : ∀ next, old ≠ .storing next) (hsub : timers ⊆ s.timers)
    (hphase : ∀ next, phase = .storing next → NotLate (next.getD usizeMax) timers) :
    Inv ({ s with timers := timers, activeCount := activeCount }.goto h phase) := by
  refine ⟨fun next hmem => ?_, fun hnone deadline hmem => ?_⟩
  · rcases List.mem_or_eq_of_mem_set hmem with hmem | heq
    · exact fun deadline hd => hinv.storing next hmem deadline (hsub hd)
    · exact hphase next heq.symm
  · refine hinv.published (fun next hst => hnone next ?_) deadline (hsub hmem)
    -- it is another hart that has something to store
    obtain ⟨j, hj⟩ := List.mem_iff_getElem?.mp hst
    have hne : h ≠ j := by
      rintro rfl
      exact hold next (Option.some.inj (hh.symm.trans hj))
    show Phase.storing next ∈ s.harts.set h phase
    exact List.mem_of_getElem? ((List.getElem?_set_ne hne).trans hj)

theorem Inv.step (hinv : Inv s) (hstep : Step State.NoneStoring s s') : Inv s' := by
  have hself : s.timers ⊆ s.timers := List.Subset.refl _
  cases hstep with
  | push h d hh _ hmay =>
    refine ⟨fun next hmem => ?_, fun hnone => ?_⟩
    · -- only the hart that pushed has something to store
      rcases List.mem_or_eq_of_mem_set hmem with hmem | heq
      · exact absurd hmem (hmay next)
      · rw [Phase.storing.inj heq]
        exact notLate_min?
    · exact absurd (List.mem_set (getElem?_eq_some_iff.mp hh).1 _) (hnone _)
  | check h hh | countOff h hh => exact hinv.move _ hh nofun hself nofun
  | pop h now hh =>
    unfold State.popExpired
    split
    · exact hinv.move _ hh nofun hself nofun
    split
    · exact hinv.move _ hh nofun List.erase_subset nofun
    · exact hinv.move _ hh nofun hself nofun
  | rearm h hh =>
    refine hinv.move _ hh nofun hself fun next heq => ?_
    rw [← Phase.storing.inj heq]
    exact notLate_min?
  | store h next hh =>
    have hnext := hinv.storing next (List.mem_of_getElem? hh)
    exact ⟨fun next' hmem => hinv.storing next' ((List.mem_or_eq_of_mem_set hmem).resolve_right nofun),
      fun _ => hnext⟩

theorem Inv.boot (h : Boot s) : Inv s := by
  obtain ⟨htimers, -, -, hq⟩ := h
  refine ⟨fun next hmem => (nomatch hq _ hmem), fun _ => ?_⟩
  rw [htimers]
  exact nofun

/-- **The published deadline is not late.** If timers are pushed only while nobody has a deadline to
store, then once all calls have returned no sleeper is due before the published deadline, and none
that is due is skipped for it. -/
theorem published_deadline_not_late (h : Reachable Boot (Step State.NoneStoring) s) (hq : s.Quiescent) :
    (∀ deadline ∈ s.timers, s.nextDeadlineNs ≤ deadline) ∧
    ∀ nowNs, ∀ deadline ∈ s.timers, deadline ≤ nowNs →
      s.sleepTimerDueForUserReturn nowNs = (s.activeCount != 0) := by
  have hinv : Inv s := Reachable.invariant (fun _ => .boot) (fun _ _ => .step) h
  have hpublished := hinv.published fun next hmem => nomatch hq _ hmem
  refine ⟨hpublished, fun nowNs deadline hmem hdue => ?_⟩
  have hle : s.nextDeadlineNs ≤ nowNs := le_trans (hpublished deadline hmem) hdue
  rw [State.sleepTimerDueForUserReturn, decide_eq_true hle, Bool.and_true]

/-- Two harts at boot. -/
def twoHarts : State := ⟨[], 0, usizeMax, [.idle, .idle]⟩

theorem twoHarts_boot : Boot twoHarts := ⟨rfl, rfl, rfl, by unfold State.Quiescent; decide⟩

/-- Each hart has a sleeper, and the second one sleeps for less. -/
theorem published_deadline_not_late_two_sleepers :
    ∃ s : State, s.timers = [30, 50] ∧ s.nextDeadlineNs ≤ 30 := by
  have h : Reachable Boot (Step State.NoneStoring) _ := .start twoHarts_boot
  have h := h.step (.push 0 50 rfl (by decide) fun next => by simp [twoHarts])
  have h := h.step (.store 0 _ rfl)
  have h := h.step (.push 1 30 rfl (by decide)
    fun next => by simp [State.pushSleepTimer, State.storeDeadline, State.goto, twoHarts])
  have h := h.step (.store 1 _ rfl)
  exact ⟨_, rfl, (published_deadline_not_late h (by unfold State.Quiescent; decide)).1 30 (.head _)⟩

/-- Hart 0 pushes a timer for 100 and unlocks. Hart 1 pushes one for 50 and stores 50; then hart 0
stores 100. -/
theorem late_store_hides_timer : ∃ s : State, Reachable Boot (Step fun _ => True) s ∧ s.Quiescent ∧
    s.timers = [50, 100] ∧ s.nextDeadlineNs = 100 ∧ s.sleepTimerDueForUserReturn 60 = false := by
  have h : Reachable Boot (Step fun _ => True) _ := .start twoHarts_boot
  have h := h.step (.push 0 100 rfl (by decide) trivial)
  have h := h.step (.push 1 50 rfl (by decide) trivial)
  have h := h.step (.store 1 _ rfl)
  exact ⟨_, h.step (.store 0 _ rfl), by unfold State.Quiescent; decide, rfl, rfl, rfl⟩

end HitOS.SleepTimers
