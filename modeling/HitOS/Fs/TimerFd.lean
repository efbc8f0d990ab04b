import HitOS.Fs.Waiters
import HitOS.Lib.Usize
import HitOS.Syscall.Error

/-!
# Timers

`fs/timerfd.rs`: one `TimerFdFile`, and its entries in the heap of `TIMERFD_SCHEDULE`. Times are
numbers of nanoseconds of the clock of the timer.

Expirations are counted by whoever looks at the timer first (`flushExpirations`), or by the timer
interrupt, which takes the entries that are due from the heap (`popDue`, `handleEntry`). Whenever
the deadline changes, a new entry is pushed with a new sequence number, and the entries with other
numbers are stale. `Scheduled` says that an armed timer has its entry, on the heap or in the hands
of the interrupt.
-/

namespace HitOS.TimerFd

open HitOS.Waiters Option List Nat
open Parking (Task)

/-! ### The file -/

/-- `TimerFdScheduleEntry`, of this file. -/
structure ScheduleEntry where
  deadlineNs : Nat
  sequence : Nat
  deriving DecidableEq

/-- `TimerFdFile` with its `TimerFdInner`, and its entries in the heap of its clock. -/
structure TimerFdFile where
  clockId : Nat
  deadlineNs : Option Nat
  intervalNs : Nat
  expirations : Nat
  cancelOnSet : Bool
  canceled : Bool
  scheduleSeq : Nat
  readWaiters : List Task
  pollWaiters : List Task
  heap : List ScheduleEntry

namespace TimerFdFile

def new (clockId : Nat) : TimerFdFile := ⟨clockId, none, 0, 0, false, false, 0, [], [], []⟩

variable (f : TimerFdFile)

/-- `CLOCK_REALTIME` and `CLOCK_MONOTONIC`. -/
def hasClock : Bool := f.clockId == 0 || f.clockId == 1

/-- `is_armed_locked`. -/
def isArmed : Bool := f.hasClock && f.deadlineNs.isSome && !f.canceled

/-- `update_schedule_locked`. -/
def updateSchedule (wasArmed : Bool) (oldDeadlineNs : Option Nat) : TimerFdFile :=
  let newDeadlineNs := if f.isArmed then f.deadlineNs else none
  if wasArmed = f.isArmed ∧ oldDeadlineNs = newDeadlineNs then f
  else
    let seq := wrapAdd f.scheduleSeq 1
    match newDeadlineNs with
    | none => { f with scheduleSeq := seq }
    | some deadlineNs => { f with scheduleSeq := seq, heap := ⟨deadlineNs, seq⟩ :: f.heap }

/-- `update_expirations_locked`: whether the timer has become readable. -/
def updateExpirations (nowNs : Nat) : TimerFdFile × Bool :=
  if f.canceled then (f, false)
  else match f.deadlineNs with
    | none => (f, false)
    | some deadlineNs =>
      if nowNs < deadlineNs then (f, false)
      else
        let f' :=
          if f.intervalNs = 0 then
            { f with expirations := satAdd f.expirations 1, deadlineNs := none }
          else
            let expirations := wrapAdd ((nowNs - deadlineNs) / f.intervalNs) 1
            { f with
              expirations := satAdd f.expirations expirations
              deadlineNs := some (satAdd deadlineNs (satMul expirations f.intervalNs)) }
        (f', decide (¬ f.expirations > 0 ∧ f'.expirations > 0))

/-- `advance_to_ns_locked`. -/
def advanceTo (nowNs : Nat) : TimerFdFile × Bool :=
  let (f', becameReady) := f.updateExpirations nowNs
  (if f'.deadlineNs ≠ f.deadlineNs then f'.updateSchedule f.isArmed f.deadlineNs else f', becameReady)

def flushExpirations (nowNs : Nat) : TimerFdFile × Bool :=
  if f.hasClock then f.advanceTo nowNs else (f, false)

/-- Whether `poll_mask_locked` reports `POLLIN`, once the expirations are counted. -/
def readable : Bool := f.canceled || decide (f.expirations > 0)

/-- `poll_mask` and `poll_readable`. -/
def pollMask (nowNs : Nat) : TimerFdFile × Bool :=
  ((f.flushExpirations nowNs).1, (f.flushExpirations nowNs).1.readable)

/-- The time left, for `get_time` and `set_time`. -/
def remainNs (nowNs : Nat) : Except SyscallError Nat :=
  if f.canceled then .ok 0
  else match f.deadlineNs with
    | none => .ok 0
    | some deadlineNs => if f.hasClock then .ok (deadlineNs - nowNs) else .error .einval

/-- `get_time`; the clock is read twice. -/
def getTime (nowNs nowNs' : Nat) : TimerFdFile × Except SyscallError (Nat × Nat) :=
  let f := (f.flushExpirations nowNs).1
  (f, (f.remainNs nowNs').map fun remain => (remain, f.intervalNs))

/-- All readers and pollers are taken off their lists. -/
def wakeWaiters (view : TaskView) : TimerFdFile × List Task :=
  ({ f with readWaiters := [], pollWaiters := [] },
    drainWaiters view f.readWaiters ++ takeWakeups view f.pollWaiters)

/-- They are, if the timer has become readable. -/
def wakeIf (becameReady : Bool) (view : TaskView) : TimerFdFile × List Task :=
  if becameReady then f.wakeWaiters view else (f, [])

/-- `set_time`; the clock is read three times. -/
def setTime (deadlineNs : Option Nat) (intervalNs : Nat) (cancelOnSet : Bool)
    (nowNs nowNs' nowNs'' : Nat) (view : TaskView) :
    (TimerFdFile × List Task) × Except SyscallError (Nat × Nat × Bool) :=
  let f := (f.flushExpirations nowNs).1
  match f.remainNs nowNs' with
  | .error e => ((f, []), .error e)
  | .ok remain =>
    let set := { f with
      deadlineNs := deadlineNs
      intervalNs := intervalNs
      expirations := 0
      cancelOnSet := cancelOnSet
      canceled := false }
    let set := set.updateSchedule f.isArmed (if f.isArmed then f.deadlineNs else none)
    let (set, becameReady) := set.flushExpirations nowNs''
    (set.wakeIf becameReady view, .ok (remain, f.intervalNs, f.canceled))

def cancelOnRealtimeSet (view : TaskView) : TimerFdFile × List Task :=
  if f.clockId ≠ 0 ∨ f.cancelOnSet = false ∨ f.canceled then (f, [])
  else
    let cancelled := { f with canceled := true, deadlineNs := none, expirations := 0 }
    (cancelled.updateSchedule f.isArmed (if f.isArmed then f.deadlineNs else none)).wakeWaiters view

/-- How a round of a read ends. -/
inductive ReadEnd where
  | returned (result : Except SyscallError Nat)
  | parks
  deriving DecidableEq

/-- A round of `read_counter`. -/
def readCounter (task : Task) (nonblock : Bool) (nowNs : Nat) (view : TaskView) :
    TimerFdFile × ReadEnd :=
  let f := (f.flushExpirations nowNs).1
  if f.canceled then (f, .returned (.error .ecanceled))
  else if f.expirations > 0 then ({ f with expirations := 0 }, .returned (.ok f.expirations))
  else if nonblock then (f, .returned (.error .eagain))
  else ({ f with readWaiters := pushWaiter view task f.readWaiters }, .parks)

/-- `register_poll_waiter`: whether it found the timer readable, and then did not register the
task. -/
def registerPollWaiter (task : Task) (nowNs : Nat) (view : TaskView) : TimerFdFile × Bool :=
  let (f, found) := f.pollMask nowNs
  if found then (f, true) else ({ f with pollWaiters := addPollWaiterOnce view task f.pollWaiters }, false)

/-- What `process_timerfd_expirations` does with an entry that it has taken from the heap. -/
def handleEntry (entry : ScheduleEntry) (nowNs : Nat) (view : TaskView) :
    TimerFdFile × List Task :=
  if f.scheduleSeq ≠ entry.sequence ∨ f.canceled ∨ f.deadlineNs = none then (f, [])
  else
    let (f, becameReady) := f.advanceTo nowNs
    f.wakeIf becameReady view

end TimerFdFile

/-! ### The heap -/

variable {heap : List ScheduleEntry} {entry : ScheduleEntry} {nowNs : Nat}

/-- The entries that the interrupt has taken from the heap and not handled yet, with the time it has
read. -/
abbrev InHand := List (ScheduleEntry × Nat)

/-- `a` is not after `b` in the heap. -/
def ScheduleEntry.before (a b : ScheduleEntry) : Bool :=
  decide (a.deadlineNs < b.deadlineNs) || (a.deadlineNs == b.deadlineNs && decide (a.sequence ≤ b.sequence))

/-- `BinaryHeap::peek`. -/
def peek : List ScheduleEntry → Option ScheduleEntry
  | [] => none
  | entry :: heap =>
    match peek heap with
    | none => some entry
    | some first => if entry.before first then some entry else some first

/-- `process_timerfd_expirations` takes an entry from the heap, if one is due. -/
def popDue (heap : List ScheduleEntry) (nowNs : Nat) : Option (ScheduleEntry × List ScheduleEntry) :=
  match peek heap with
  | none => none
  | some entry => if entry.deadlineNs ≤ nowNs then some (entry, heap.erase entry) else none

/-- No entry is due before the first. -/
theorem exists_peek (h : entry ∈ heap) :
    ∃ first, peek heap = some first ∧ first.deadlineNs ≤ entry.deadlineNs := by
  induction heap with
  | nil => cases h
  | cons e heap ih =>
    unfold peek
    cases hp : peek heap with
    | none =>
      rcases mem_cons.mp h with rfl | hmem
      · exact ⟨entry, rfl, Nat.le_refl _⟩
      · obtain ⟨first, hfirst, -⟩ := ih hmem
        rw [hp] at hfirst
        cases hfirst
    | some first =>
      dsimp only
      split_ifs with hb
      · -- `e` comes before the first of the others
        refine ⟨e, rfl, ?_⟩
        rcases mem_cons.mp h with rfl | hmem
        · exact Nat.le_refl _
        obtain ⟨first', hfirst', hle⟩ := ih hmem
        obtain rfl : first = first' := some.inj (hp.symm.trans hfirst')
        simp only [ScheduleEntry.before, Bool.or_eq_true, decide_eq_true_eq, Bool.and_eq_true,
          beq_iff_eq] at hb
        omega
      · refine ⟨first, rfl, ?_⟩
        rcases mem_cons.mp h with rfl | hmem
        · simp only [ScheduleEntry.before, Bool.or_eq_true, decide_eq_true_eq, not_or, Nat.not_lt] at hb
          exact hb.1
        · obtain ⟨first', hfirst', hle⟩ := ih hmem
          obtain rfl : first = first' := some.inj (hp.symm.trans hfirst')
          exact hle

theorem popDue_eq_some {rest : List ScheduleEntry}
    (h : popDue heap nowNs = some (entry, rest)) : entry.deadlineNs ≤ nowNs ∧ rest = heap.erase entry := by
  unfold popDue at h
  split at h
  · cases h
  split at h
  · next hdue =>
    obtain ⟨rfl, rfl⟩ := h
    exact ⟨hdue, rfl⟩
  · cases h

/-- Once no entry is taken, none is due. -/
theorem lt_of_popDue_eq_none (h : popDue heap nowNs = none) (hmem : entry ∈ heap) :
    nowNs < entry.deadlineNs := by
  obtain ⟨_, hfirst, hle⟩ := exists_peek hmem
  unfold popDue at h
  simp only [hfirst] at h
  split at h
  · cases h
  · next hdue => exact Nat.lt_of_lt_of_le (Nat.not_le.mp hdue) hle

/-! ### What counting expirations changes -/

section Counting

variable {f f' : TimerFdFile} {nowNs : Nat} {inHand : InHand}

/-- Only the count, the deadline and the schedule are changed. -/
def Counted (f f' : TimerFdFile) : Prop :=
  ∃ expirations deadlineNs scheduleSeq heap, f' = { f with
      expirations := expirations, deadlineNs := deadlineNs, scheduleSeq := scheduleSeq, heap := heap }

theorem Counted.refl (f : TimerFdFile) : Counted f f := ⟨_, _, _, _, rfl⟩

theorem Counted.canceled (h : Counted f f') : f'.canceled = f.canceled := by
  obtain ⟨_, _, _, _, rfl⟩ := h
  rfl

theorem Counted.readWaiters (h : Counted f f') : f'.readWaiters = f.readWaiters := by
  obtain ⟨_, _, _, _, rfl⟩ := h
  rfl

theorem Counted.pollWaiters (h : Counted f f') : f'.pollWaiters = f.pollWaiters := by
  obtain ⟨_, _, _, _, rfl⟩ := h
  rfl

variable (f)

/-- `update_schedule_locked` changes the schedule only. -/
theorem updateSchedule_eq (wasArmed : Bool) (oldDeadlineNs : Option Nat) : ∃ scheduleSeq heap,
      f.updateSchedule wasArmed oldDeadlineNs = { f with scheduleSeq := scheduleSeq, heap := heap } := by
  unfold TimerFdFile.updateSchedule
  dsimp only
  generalize (if f.isArmed = true then f.deadlineNs else none) = newDeadlineNs
  split
  · exact ⟨_, _, rfl⟩
  · cases newDeadlineNs <;> exact ⟨_, _, rfl⟩

variable (nowNs)

/-- `update_expirations_locked` changes the count and the deadline only. -/
theorem updateExpirations_eq : ∃ expirations deadlineNs,
      (f.updateExpirations nowNs).1 = { f with expirations := expirations, deadlineNs := deadlineNs } := by
  unfold TimerFdFile.updateExpirations
  iterate 3
    split
    · exact ⟨_, _, rfl⟩
  · split <;> exact ⟨_, _, rfl⟩

/-- The timer becomes readable if its count was zero and is not any more. -/
theorem updateExpirations_becameReady : (f.updateExpirations nowNs).2 =
      decide (f.expirations = 0 ∧ 0 < (f.updateExpirations nowNs).1.expirations) := by
  have hself : ¬ (f.expirations = 0 ∧ 0 < f.expirations) := fun h => absurd h.1 (Nat.ne_of_gt h.2)
  unfold TimerFdFile.updateExpirations
  iterate 3
    split
    · exact (decide_eq_false hself).symm
  · simp only [Nat.not_lt, le_zero]

/-- Besides counting, the schedule is brought up to date. -/
theorem advanceTo_eq : ∃ scheduleSeq heap, (f.advanceTo nowNs).1 =
      { (f.updateExpirations nowNs).1 with scheduleSeq := scheduleSeq, heap := heap } := by
  unfold TimerFdFile.advanceTo
  dsimp only
  split
  · exact updateSchedule_eq _ _ _
  · exact ⟨_, _, rfl⟩

theorem counted_advanceTo : Counted f (f.advanceTo nowNs).1 := by
  obtain ⟨expirations, deadlineNs, hexp⟩ := updateExpirations_eq f nowNs
  obtain ⟨seq, heap, hadv⟩ := advanceTo_eq f nowNs
  exact ⟨expirations, deadlineNs, seq, heap, by rw [hadv, hexp]⟩

theorem advanceTo_becameReady :
    (f.advanceTo nowNs).2 = decide (f.expirations = 0 ∧ 0 < (f.advanceTo nowNs).1.expirations) := by
  obtain ⟨_, _, hadv⟩ := advanceTo_eq f nowNs
  rw [hadv]
  exact updateExpirations_becameReady f nowNs

theorem counted_flushExpirations : Counted f (f.flushExpirations nowNs).1 := by
  unfold TimerFdFile.flushExpirations
  split
  · exact counted_advanceTo f nowNs
  · exact Counted.refl f

theorem flushExpirations_becameReady : (f.flushExpirations nowNs).2 =
      decide (f.expirations = 0 ∧ 0 < (f.flushExpirations nowNs).1.expirations) := by
  unfold TimerFdFile.flushExpirations
  split
  · exact advanceTo_becameReady f nowNs
  · exact (decide_eq_false fun h => absurd h.1 (Nat.ne_of_gt h.2)).symm

end Counting

/-! ### The entries -/

section Entries

variable {f : TimerFdFile} {nowNs : Nat} {inHand : InHand}

/-- **An armed timer has its entry**, on the heap or in the hands of the interrupt. The latest time
of the clock is left out: there the deadline of a periodic timer cannot move on. -/
def Scheduled (f : TimerFdFile) (inHand : InHand) : Prop :=
  ∀ deadlineNs, f.isArmed = true → f.deadlineNs = some deadlineNs → deadlineNs ≠ usizeMax →
    ⟨deadlineNs, f.scheduleSeq⟩ ∈ f.heap ∨ ∃ nowNs, (⟨deadlineNs, f.scheduleSeq⟩, nowNs) ∈ inHand

/-- No deadline is at time zero: `timerfd_settime` disarms the timer instead. -/
def Positive (f : TimerFdFile) : Prop := ∀ deadlineNs, f.deadlineNs = some deadlineNs → 0 < deadlineNs

theorem canceled_of_isArmed (h : f.isArmed = true) : f.canceled = false := by
  simp [TimerFdFile.isArmed] at h
  exact h.2

/-- A new entry is pushed, or the one there is still holds. -/
theorem scheduled_updateSchedule {wasArmed : Bool} {oldDeadlineNs : Option Nat}
    (h : wasArmed = true → f.isArmed = true → oldDeadlineNs = f.deadlineNs → Scheduled f inHand) :
    Scheduled (f.updateSchedule wasArmed oldDeadlineNs) inHand := by
  intro d harmed hd hmax
  unfold TimerFdFile.updateSchedule at harmed hd ⊢
  by_cases hsame : wasArmed = f.isArmed ∧ oldDeadlineNs = if f.isArmed = true then f.deadlineNs else none
  · rw [if_pos hsame] at harmed hd ⊢
    rw [if_pos harmed] at hsame
    exact h (hsame.1.trans harmed) harmed hsame.2 d harmed hd hmax
  rw [if_neg hsame] at harmed hd ⊢
  by_cases ha : f.isArmed = true
  · -- the new entry is for the deadline of the timer
    rw [if_pos ha] at harmed hd ⊢
    cases hdl : f.deadlineNs with
    | none => simp [hdl] at hd
    | some =>
      simp only [hdl, some.injEq] at hd ⊢
      subst hd
      exact .inl (.head _)
  · rw [if_neg ha] at harmed
    exact absurd harmed ha

theorem pos_satAdd {a : Nat} {b : Nat} (h : 0 < a) : 0 < satAdd a b := by
  have hmax : 0 < usizeMax := by decide
  exact Nat.lt_min.mpr ⟨Nat.add_pos_left h b, hmax⟩

/-- The deadline after a number of whole intervals is later, or the latest there is. -/
theorem lt_nextDeadline {d i : Nat} (hd : 0 < d) (hi : i ≠ 0) (hdue : d ≤ nowNs) (hnow : nowNs ≤ usizeMax)
    (hmax : satAdd d (satMul (wrapAdd ((nowNs - d) / i) 1) i) ≠ usizeMax) :
    nowNs < satAdd d (satMul (wrapAdd ((nowNs - d) / i) 1) i) := by
  have hquot : (nowNs - d) / i + 1 ≤ usizeMax := by
    have := div_le_self (nowNs - d) i
    omega
  rw [wrapAdd_of_le hquot] at hmax ⊢
  have hpast : nowNs - d < ((nowNs - d) / i + 1) * i :=
    (div_lt_iff_lt_mul (Nat.pos_of_ne_zero hi)).mp (Nat.lt_succ_self _)
  unfold satAdd satMul at hmax ⊢
  omega

variable (hpos : Positive f) (hnow : nowNs ≤ usizeMax)

include hpos hnow

/-- Nothing is due, or there is no deadline any more, or it has moved past the time. -/
theorem updateExpirations_deadline :
    ((f.updateExpirations nowNs).1 = f ∧ ∀ d, f.canceled = false → f.deadlineNs = some d → nowNs < d) ∨
    ∀ d', (f.updateExpirations nowNs).1.deadlineNs = some d' →
      0 < d' ∧ (d' ≠ usizeMax → ∃ d, f.deadlineNs = some d ∧ d ≤ nowNs ∧ nowNs < d') := by
  unfold TimerFdFile.updateExpirations
  split
  · next hc =>
    exact .inl ⟨rfl, fun d hc' => absurd hc (by simp [hc'])⟩
  cases hd : f.deadlineNs with
  | none => exact .inl ⟨rfl, nofun⟩
  | some d =>
  dsimp only
  split
  · refine .inl ⟨rfl, fun d' _ h => ?_⟩
    rwa [← some.inj h]
  next hlt =>
  right
  intro _ hd'
  by_cases hi : f.intervalNs = 0
  · simp [hi] at hd'
  simp only [hi, if_false, some.injEq] at hd'
  have hdpos := hpos d hd
  have hdue : d ≤ nowNs := Nat.not_lt.mp hlt
  subst hd'
  exact ⟨pos_satAdd hdpos, fun hmax => ⟨d, rfl, hdue, lt_nextDeadline hdpos hi hdue hnow hmax⟩⟩

/-- The timer needs its entry only if it is not due. -/
theorem timed_advanceTo (h : (∀ d, f.canceled = false → f.deadlineNs = some d → nowNs < d) →
    Scheduled f inHand) :
    Scheduled (f.advanceTo nowNs).1 inHand ∧ Positive (f.advanceTo nowNs).1 := by
  unfold TimerFdFile.advanceTo
  dsimp only
  rcases updateExpirations_deadline hpos hnow with ⟨heq, hlt⟩ | hlater
  · rw [heq, if_neg (not_not.mpr rfl)]
    exact ⟨h hlt, hpos⟩
  have hpos' : Positive (f.updateExpirations nowNs).1 := fun d' hd' => (hlater d' hd').1
  split
  · next hne =>
    -- the deadline has changed, so the schedule has
    refine ⟨scheduled_updateSchedule fun _ _ heq => absurd heq.symm hne, ?_⟩
    obtain ⟨seq, heap, hsched⟩ := updateSchedule_eq (f.updateExpirations nowNs).1 f.isArmed f.deadlineNs
    rwa [hsched]
  next heq =>
  refine ⟨fun d' _ hd' hmax => ?_, hpos'⟩
  obtain ⟨d, hd, hdue, hlt⟩ := (hlater d' hd').2 hmax
  rw [not_not.mp heq, hd] at hd'
  exact absurd (some.inj hd') (by omega)

theorem timed_flushExpirations (h : Scheduled f inHand) :
    Scheduled (f.flushExpirations nowNs).1 inHand ∧ Positive (f.flushExpirations nowNs).1 := by
  unfold TimerFdFile.flushExpirations
  split
  · exact timed_advanceTo hpos hnow fun _ => h
  · exact ⟨h, hpos⟩

end Entries

end HitOS.TimerFd
