import HitOS.Fs.TimerFd
import HitOS.Lib.Blocking

/-!
# Wakeups of timers

Readers and pollers of one timer, interleaved with the scheduler, the timer interrupt and every
other operation on the timer (`Blocking.Step`), at times that do not go back.

Who counts the first expiration has the duty to wake the tasks that wait. `set_time` and the
interrupt do it; a read takes the count away again. `poll_mask`, `get_time` and
`register_poll_waiter` do not wake anyone, and the entry of the interrupt is stale afterwards. Also,
a task whose registration finds the timer readable is not registered, and blocks all the same if it
does not find it readable once more. `Careful` excludes both, and `timerfd_no_lost_wakeup` says that
then no task sleeps while the count is not zero.
-/

namespace HitOS.TimerFd

open HitOS.Waiters List TimerFdFile Parking.World Option
open Parking (Task Phase)
open Blocking (Outcome Next System)

/-! ### The calls and the critical sections -/

/-- Where a poll is in its loop: the first look, registering, the second look, asleep. -/
inductive PollStage where
  | scan
  | register
  /-- `found` says whether the timer was readable when the task registered. -/
  | rescan (found : Bool)
  | wait
  deriving DecidableEq

/-- A call on a timer; a poll is for `POLLIN`. -/
inductive TimerCall where
  | read (nonblock : Bool)
  | poll (stage : PollStage)
  deriving DecidableEq

/-- The calls as they begin. -/
def TimerCall.Starts : TimerCall → Prop
  | .read _ => True
  | .poll stage => stage = .scan

/-- The calls as their tasks sleep. -/
def TimerCall.Sleeps : TimerCall → Prop
  | .read _ => True
  | .poll stage => stage = .wait

/-- The timer, the entries that are being handled, and the clock. -/
structure TimerState where
  file : TimerFdFile
  inHand : InHand
  nowNs : Nat

def TimerState.new (clockId : Nat) : TimerState := ⟨.new clockId, [], 0⟩

/-- How a round of a read ends, for the scheduler. -/
def TimerFdFile.ReadEnd.next (nonblock : Bool) : TimerFdFile.ReadEnd → Next TimerCall
  | .returned _ => .finish
  | .parks => .park (.read nonblock)

/-- A look of a poll. `other` says that another descriptor is ready, a signal pending or the time
over. -/
def pollLook (f : TimerFdFile) (nowNs : Nat) (other : Bool) (next : Next TimerCall) :
    TimerFdFile × Next TimerCall :=
  ((f.pollMask nowNs).1, if (f.pollMask nowNs).2 || other then .finish else next)

/-- A round of a call. After a wakeup a poll begins with its first look. -/
def timerRound (f : TimerFdFile) (task : Task) (call : TimerCall) (nowNs : Nat) (other : Bool)
    (view : TaskView) : TimerFdFile × Next TimerCall :=
  match call with
  | .read nonblock =>
    ((f.readCounter task nonblock nowNs view).1, (f.readCounter task nonblock nowNs view).2.next nonblock)
  | .poll .register =>
    ((f.registerPollWaiter task nowNs view).1,
      .park (.poll (.rescan (f.registerPollWaiter task nowNs view).2)))
  | .poll _ => pollLook f nowNs other (.again (.poll .register))

/-- The other things that are done to a timer. -/
inductive TimerAct where
  /-- The clock goes on. -/
  | tick (nowNs : Nat)
  | getTime (nowNs nowNs' : Nat)
  /-- Any other look, as of `epoll_wait`. -/
  | pollMask (nowNs : Nat)
  | setTime (deadlineNs : Option Nat) (intervalNs : Nat) (cancelOnSet : Bool) (nowNs nowNs' nowNs'' : Nat)
  | cancelOnRealtimeSet
  /-- The interrupt, which has read this time before, takes an entry. -/
  | popDue (nowNs : Nat)
  /-- The interrupt handles an entry that it has taken. -/
  | handle (entry : ScheduleEntry) (nowNs : Nat)
  deriving DecidableEq

/-- What they do; `none` if they are not possible. -/
def timerAct (s : TimerState) (view : TaskView) : TimerAct → Option (TimerState × List Task)
  | .tick nowNs => if s.nowNs ≤ nowNs ∧ nowNs ≤ usizeMax then some ({ s with nowNs := nowNs }, []) else none
  | .getTime nowNs nowNs' =>
    if s.nowNs ≤ nowNs ∧ nowNs ≤ nowNs' ∧ nowNs' ≤ usizeMax then
      some (⟨(s.file.getTime nowNs nowNs').1, s.inHand, nowNs'⟩, [])
    else none
  | .pollMask nowNs =>
    if s.nowNs ≤ nowNs ∧ nowNs ≤ usizeMax then some (⟨(s.file.pollMask nowNs).1, s.inHand, nowNs⟩, [])
    else none
  | .setTime deadlineNs intervalNs cancelOnSet nowNs nowNs' nowNs'' =>
    -- `timerfd_settime` never passes a deadline of zero
    if deadlineNs ≠ some 0 ∧ s.nowNs ≤ nowNs ∧ nowNs ≤ nowNs' ∧ nowNs' ≤ nowNs'' ∧ nowNs'' ≤ usizeMax then
      let r := (s.file.setTime deadlineNs intervalNs cancelOnSet nowNs nowNs' nowNs'' view).1
      some (⟨r.1, s.inHand, nowNs''⟩, r.2)
    else none
  | .cancelOnRealtimeSet =>
    some ({ s with file := (s.file.cancelOnRealtimeSet view).1 }, (s.file.cancelOnRealtimeSet view).2)
  | .popDue nowNs =>
    if nowNs ≤ s.nowNs then
      (popDue s.file.heap nowNs).map fun (entry, heap) =>
        ({ s with file := { s.file with heap := heap }, inHand := (entry, nowNs) :: s.inHand }, [])
    else none
  | .handle entry nowNs =>
    if (entry, nowNs) ∈ s.inHand then
      let r := s.file.handleEntry entry nowNs view
      some ({ s with file := r.1, inHand := s.inHand.erase (entry, nowNs) }, r.2)
    else none

/-- The timer is looked at by someone who does not wake anyone. -/
def TimerAct.looks : TimerAct → Bool
  | .getTime .. | .pollMask _ => true
  | _ => false

/-- A look at the timer, with the tasks at the time and the timer before and after. -/
structure Look where
  phase : Task → Phase TimerCall
  before : TimerFdFile
  after : TimerFdFile
  /-- The task goes to sleep without being registered. -/
  unregistered : Bool

/-- The critical sections of a timer whose looks meet a condition. -/
def timerSystem (cond : Look → Prop) : System TimerState TimerCall where
  start := TimerCall.Starts
  attempt phase s task call o next :=
    ∃ nowNs other view, ViewOf phase view ∧ s.nowNs ≤ nowNs ∧ nowNs ≤ usizeMax ∧
      o = ⟨⟨(timerRound s.file task call nowNs other view).1, s.inHand, nowNs⟩, [], []⟩ ∧
      next = (timerRound s.file task call nowNs other view).2 ∧ cond ⟨phase, s.file, o.shared.file, false⟩
  act phase s o :=
    ∃ act view ws, ViewOf phase view ∧ timerAct s view act = some (o.shared, ws) ∧ o.woken = [] ∧
      o.later = ws ∧ (act.looks = true → cond ⟨phase, s.file, o.shared.file, false⟩)
  recheck phase s _ call o next :=
    ∃ found nowNs other, call = .poll (.rescan found) ∧ s.nowNs ≤ nowNs ∧ nowNs ≤ usizeMax ∧
      o = ⟨⟨(pollLook s.file nowNs other (.park (.poll .wait))).1, s.inHand, nowNs⟩, [], []⟩ ∧
      next = (pollLook s.file nowNs other (.park (.poll .wait))).2 ∧
      cond ⟨phase, s.file, o.shared.file, found && next matches .park _⟩
  sleeps := TimerCall.Sleeps

/-- What can happen to a new timer. -/
def TimerReachable (cond : Look → Prop) (clockId : Nat) (w : Parking.World TimerState TimerCall) : Prop :=
  Reachable (· = boot (.new clockId)) (Blocking.Step (timerSystem cond)) w

/-- **Where a wakeup cannot be lost.** -/
structure Careful (l : Look) : Prop where
  /-- Nobody sleeps, or goes to sleep, when a look counts the first expiration. -/
  noticed : l.before.expirations = 0 → 0 < l.after.expirations → ∀ t c, (l.phase t).Waits c → ¬ c.Sleeps
  /-- A task that goes to sleep is registered. -/
  registered : l.unregistered = false

/-! ### Why a task sleeps -/

/-- **Why a task sleeps**: it is on its list, and there is nothing for it. -/
def TimerHeld (s : TimerState) (t : Task) : TimerCall → Prop
  | .read _ => t ∈ s.file.readWaiters ∧ s.file.readable = false
  | .poll (.rescan false) => t ∈ s.file.pollWaiters
  | .poll .wait => t ∈ s.file.pollWaiters ∧ s.file.readable = false
  | .poll _ => True

variable {f f' : TimerFdFile} {entry : ScheduleEntry} {becameReady : Bool} {clockId nowNs' nowNs : Nat}
  {phase : Task → Phase TimerCall} {view : TaskView} {ws : List Task} {task : Task}

theorem readable_eq_false : f.readable = false ↔ f.canceled = false ∧ f.expirations = 0 := by
  simp [readable]

/-- A critical section that passes the waiters over: it keeps them on their lists, and offers
nothing to those that sleep. -/
structure Passes (phase : Task → Phase TimerCall) (f f' : TimerFdFile) : Prop where
  readers : ∀ t c, (phase t).Waits c → t ∈ f.readWaiters → t ∈ f'.readWaiters
  pollers : ∀ t c, (phase t).Waits c → t ∈ f.pollWaiters → t ∈ f'.pollWaiters
  unreadable : ∀ t c, (phase t).Waits c → c.Sleeps → f.readable = false → f'.readable = false

/-- A critical section that takes all waiters from their lists, to be woken. -/
def WakesAll (view : TaskView) (f : TimerFdFile) (ws : List Task) : Prop :=
  ws = drainWaiters view f.readWaiters ++ takeWakeups view f.pollWaiters

/-- What a critical section does for the waiters. -/
def Kept (phase : Task → Phase TimerCall) (view : TaskView) (f f' : TimerFdFile) (ws : List Task) : Prop :=
  Passes phase f f' ∨ WakesAll view f ws

section Held

variable {s s' : TimerState} {t : Task} {c : TimerCall}

theorem Passes.held (h : Passes phase s.file s'.file) (hw : (phase t).Waits c) (hheld : TimerHeld s t c) :
    TimerHeld s' t c := by
  match c, hw, hheld with
  | .read nonblock, hw, hheld => exact ⟨h.readers t _ hw hheld.1, h.unreadable t _ hw trivial hheld.2⟩
  | .poll .scan, _, _ | .poll .register, _, _ | .poll (.rescan true), _, _ => trivial
  | .poll (.rescan false), hw, hheld => exact h.pollers t _ hw hheld
  | .poll .wait, hw, hheld => exact ⟨h.pollers t _ hw hheld.1, h.unreadable t _ hw rfl hheld.2⟩

theorem WakesAll.held (h : WakesAll view s.file ws) (hview : ViewOf phase view) (hw : (phase t).Waits c)
    (hl : t ∉ ws) (hheld : TimerHeld s t c) : TimerHeld s' t c := by
  -- a waiter on one of the lists is woken
  have hreader : t ∉ s.file.readWaiters := fun hmem =>
    hl (h ▸ mem_append_left _ (mem_filter.mpr ⟨hmem, hview.upgrade t hw.alive⟩))
  have hpoller : t ∉ s.file.pollWaiters := fun hmem =>
    hl (h ▸ mem_append_right _ (mem_filter.mpr ⟨hmem, hview.waitable t c hw⟩))
  match c, hheld with
  | .read nonblock, hheld => exact absurd hheld.1 hreader
  | .poll .scan, _ | .poll .register, _ | .poll (.rescan true), _ => trivial
  | .poll (.rescan false), hheld => exact absurd hheld hpoller
  | .poll .wait, hheld => exact absurd hheld.1 hpoller

theorem Kept.held (h : Kept phase view s.file s'.file ws) (hview : ViewOf phase view)
    (hw : (phase t).Waits c) (hl : t ∉ ws) (hheld : TimerHeld s t c) : TimerHeld s' t c := by
  rcases h with h | h
  · exact h.held hw hheld
  · exact h.held hview hw hl hheld

/-- Counting passes the waiters over, if it does not count the first expiration for a task that
sleeps. -/
theorem Counted.passes (h : Counted f f')
    (hnotice : f.expirations = 0 → 0 < f'.expirations → ∀ t c, (phase t).Waits c → ¬ c.Sleeps) :
    Passes phase f f' := by
  refine ⟨fun t c _ hmem => h.readWaiters ▸ hmem, fun t c _ hmem => h.pollWaiters ▸ hmem, ?_⟩
  intro t c hw hc hf
  rw [readable_eq_false] at hf ⊢
  refine ⟨h.canceled ▸ hf.1, ?_⟩
  by_contra hne
  exact hnotice hf.2 (Nat.pos_of_ne_zero hne) t c hw hc

/-- Whoever counts the first expiration and then wakes the tasks keeps them. -/
theorem Counted.kept_wakeIf (h : Counted f f')
    (hready : becameReady = decide (f.expirations = 0 ∧ 0 < f'.expirations)) :
    Kept phase view f (f'.wakeIf becameReady view).1 (f'.wakeIf becameReady view).2 := by
  unfold wakeIf
  cases becameReady with
  | true =>
    right
    simp only [if_true, wakeWaiters, WakesAll, h.readWaiters, h.pollWaiters]
  | false =>
    left
    refine h.passes fun hzero hpos => ?_
    exact absurd ⟨hzero, hpos⟩ (of_decide_eq_false hready.symm)

theorem Passes.refl : Passes phase f f :=
  ⟨fun _ _ _ h => h, fun _ _ _ h => h, fun _ _ _ _ h => h⟩

end Held

/-! ### The invariant -/

/-- What holds of the entries and the clock. -/
structure TimerInv (s : TimerState) : Prop where
  scheduled : Scheduled s.file s.inHand
  positive : Positive s.file
  inHand : ∀ entry nowNs, (entry, nowNs) ∈ s.inHand → entry.deadlineNs ≤ nowNs ∧ nowNs ≤ s.nowNs
  clock : s.nowNs ≤ usizeMax

section Invariant

variable {s : TimerState} {inHand : InHand}

theorem TimerInv.later (h : TimerInv s) (hle : s.nowNs ≤ nowNs) (hmax : nowNs ≤ usizeMax)
    (htimed : Scheduled f' s.inHand ∧ Positive f') : TimerInv ⟨f', s.inHand, nowNs⟩ :=
  ⟨htimed.1, htimed.2, fun entry n hmem => (h.inHand entry n hmem).imp_right fun hn =>
    Nat.le_trans hn hle, hmax⟩

theorem TimerInv.flush (h : TimerInv s) (hle : s.nowNs ≤ nowNs) (hmax : nowNs ≤ usizeMax) :
    TimerInv ⟨(s.file.flushExpirations nowNs).1, s.inHand, nowNs⟩ :=
  h.later hle hmax (timed_flushExpirations h.positive hmax h.scheduled)

/-- A timer without a clock is not looked at. -/
theorem flushExpirations_of_remainNs_error {e : SyscallError}
    (h : (f.flushExpirations nowNs).1.remainNs nowNs' = .error e) : (f.flushExpirations nowNs).1 = f := by
  by_cases hclock : f.hasClock = true
  · obtain ⟨_, _, _, _, heq⟩ := counted_flushExpirations f nowNs
    have hclock' : (f.flushExpirations nowNs).1.hasClock = true := by rwa [heq]
    unfold remainNs at h
    split at h
    · cases h
    · split at h <;> cases h
  · unfold flushExpirations
    rw [if_neg hclock]

/-- The timer as `set_time` has set it, before it looks at the clock for the last time. -/
structure Armed (f set : TimerFdFile) (inHand : InHand) : Prop where
  readWaiters : set.readWaiters = f.readWaiters
  pollWaiters : set.pollWaiters = f.pollWaiters
  expirations : set.expirations = 0
  canceled : set.canceled = false
  scheduled : Scheduled set inHand
  positive : Positive set

/-- `set_time` fails, or sets the timer and then counts its expirations. -/
theorem setTime_cases {deadlineNs : Option Nat} {intervalNs : Nat} {nowNs'' : Nat} {cancelOnSet : Bool}
    (hpos : Positive f) (hsched : Scheduled f inHand) (hmax : nowNs ≤ usizeMax) (hzero : deadlineNs ≠ some 0) :
    (f.setTime deadlineNs intervalNs cancelOnSet nowNs nowNs' nowNs'' view).1 = (f, []) ∨
    ∃ set, Armed f set inHand ∧ (f.setTime deadlineNs intervalNs cancelOnSet nowNs nowNs' nowNs'' view).1 =
        (set.flushExpirations nowNs'').1.wakeIf (set.flushExpirations nowNs'').2 view := by
  have hcounted := counted_flushExpirations f nowNs
  have hsched' := (timed_flushExpirations hpos hmax hsched).1
  unfold setTime
  dsimp only
  cases hremain : (f.flushExpirations nowNs).1.remainNs nowNs' with
  | error =>
    left
    simp only [flushExpirations_of_remainNs_error hremain]
  | ok =>
    right
    generalize (f.flushExpirations nowNs).1 = old at hcounted hsched' ⊢
    refine ⟨_, ?_, rfl⟩
    obtain ⟨seq, heap, heq⟩ := updateSchedule_eq { old with
      deadlineNs := deadlineNs, intervalNs := intervalNs, expirations := 0, cancelOnSet := cancelOnSet,
      canceled := false } old.isArmed (if old.isArmed = true then old.deadlineNs else none)
    refine ⟨?_, ?_, ?_, ?_, scheduled_updateSchedule ?_, ?_⟩
    · rw [heq]; exact hcounted.readWaiters
    · rw [heq]; exact hcounted.pollWaiters
    · rw [heq]
    · rw [heq]
    · -- armed before and after, for the same deadline: the entry is still the right one
      intro hwas _ hsame d _ hd hne
      rw [if_pos hwas] at hsame
      exact hsched' d hwas (hsame.trans hd) hne
    · rw [heq]
      exact fun d hd => Nat.pos_of_ne_zero fun h0 => hzero (h0 ▸ hd)

theorem kept_setTime {set : TimerFdFile} {ws : List Task} (h : Armed f set inHand)
    (heq : (f', ws) = (set.flushExpirations nowNs).1.wakeIf (set.flushExpirations nowNs).2 view) :
    Kept phase view f f' ws := by
  have hcounted := counted_flushExpirations set nowNs
  obtain ⟨rfl, rfl⟩ := Prod.mk.inj heq
  rcases @Counted.kept_wakeIf _ _ _ phase view hcounted
    (flushExpirations_becameReady set nowNs) with hpass | hwake
  · -- the count has been reset, so there is nothing for anyone
    refine .inl ⟨fun t c hw hmem => ?_, fun t c hw hmem => ?_, fun t c hw hc _ => ?_⟩
    · exact hpass.readers t c hw (h.readWaiters ▸ hmem)
    · exact hpass.pollers t c hw (h.pollWaiters ▸ hmem)
    · exact hpass.unreadable t c hw hc (readable_eq_false.mpr ⟨h.canceled, h.expirations⟩)
  · right
    rwa [WakesAll, h.readWaiters, h.pollWaiters] at hwake

theorem timed_wakeIf (h : Scheduled f inHand ∧ Positive f) :
    Scheduled (f.wakeIf becameReady view).1 inHand ∧ Positive (f.wakeIf becameReady view).1 := by
  unfold wakeIf
  split <;> exact h

/-- Handling an entry uses it up, unless it is for another deadline. -/
theorem timed_handleEntry (hpos : Positive f)
    (hsched : Scheduled f inHand) (hdue : entry.deadlineNs ≤ nowNs) (hmax : nowNs ≤ usizeMax) :
    Scheduled (f.handleEntry entry nowNs view).1 (inHand.erase (entry, nowNs)) ∧
      Positive (f.handleEntry entry nowNs view).1 := by
  -- what keeps the entry of the timer, if it is another one
  have hother : (∀ d, f.isArmed = true → f.deadlineNs = some d → ⟨d, f.scheduleSeq⟩ ≠ entry) →
      Scheduled f (inHand.erase (entry, nowNs)) := by
    intro hne d harmed hd hdmax
    refine (hsched d harmed hd hdmax).imp_right fun ⟨n, hmem⟩ => ⟨n, ?_⟩
    exact (mem_erase_of_ne fun heq => hne d harmed hd (Prod.mk.inj heq).1).mpr hmem
  unfold handleEntry
  split
  · next hskip =>
    refine ⟨hother fun d harmed hd heq => ?_, hpos⟩
    rcases hskip with hseq | hcan | hnone
    · exact hseq (congrArg ScheduleEntry.sequence heq)
    · rw [(canceled_of_isArmed harmed)] at hcan
      cases hcan
    · rw [hd] at hnone
      cases hnone
  · refine timed_wakeIf (timed_advanceTo hpos hmax fun hlater => hother fun d harmed hd heq => ?_)
    -- the entry is due, and the timer is not
    have hlt := hlater d (canceled_of_isArmed harmed) hd
    rw [← heq] at hdue
    exact absurd hlt (Nat.not_lt.mpr hdue)

/-- A cancelled timer is not armed. -/
theorem cancelOnRealtimeSet_cases : f.cancelOnRealtimeSet view = (f, []) ∨
    WakesAll view f (f.cancelOnRealtimeSet view).2 ∧ (f.cancelOnRealtimeSet view).1.deadlineNs = none := by
  unfold cancelOnRealtimeSet
  split
  · exact .inl rfl
  right
  obtain ⟨seq, heap, heq⟩ := updateSchedule_eq
    { f with canceled := true, deadlineNs := none, expirations := 0 } f.isArmed
    (if f.isArmed = true then f.deadlineNs else none)
  dsimp only
  rw [heq]
  exact ⟨rfl, rfl⟩

end Invariant

/-! ### The critical sections keep the waiters -/

section Sections

variable {s s' : TimerState} {call : TimerCall} {other : Bool}

/-- What is done to a timer keeps the invariant, and the waiters: only looks need care. -/
theorem timerAct_spec {act : TimerAct} (hI : TimerInv s) (h : timerAct s view act = some (s', ws)) :
    TimerInv s' ∧ ((act.looks = true → Careful ⟨phase, s.file, s'.file, false⟩) →
      Kept phase view s.file s'.file ws) := by
  cases act <;> simp only [timerAct, ite_none_right_eq_some, map_eq_some_iff, Prod.exists] at h
  case tick nowNs =>
    obtain ⟨⟨hle, hmax⟩, rfl, -⟩ := h
    exact ⟨hI.later hle hmax ⟨hI.scheduled, hI.positive⟩, fun _ => .inl .refl⟩
  case getTime nowNs nowNs' =>
    obtain ⟨⟨hle, hle', hmax⟩, rfl, -⟩ := h
    have hflush := hI.flush hle (Nat.le_trans hle' hmax)
    refine ⟨hI.later (Nat.le_trans hle hle') hmax ⟨hflush.scheduled, hflush.positive⟩, fun hcare => ?_⟩
    exact .inl ((counted_flushExpirations s.file nowNs).passes (hcare rfl).noticed)
  case pollMask nowNs =>
    obtain ⟨⟨hle, hmax⟩, rfl, -⟩ := h
    refine ⟨hI.flush hle hmax, fun hcare => ?_⟩
    exact .inl ((counted_flushExpirations s.file nowNs).passes (hcare rfl).noticed)
  case setTime deadlineNs intervalNs cancelOnSet nowNs nowNs' nowNs'' =>
    obtain ⟨⟨hzero, hle, hle', hle'', hmax⟩, rfl, rfl⟩ := h
    have hmax₁ : nowNs ≤ usizeMax := Nat.le_trans hle' (Nat.le_trans hle'' hmax)
    have hclock : s.nowNs ≤ nowNs'' := Nat.le_trans hle (Nat.le_trans hle' hle'')
    rcases setTime_cases hI.positive hI.scheduled hmax₁ hzero with
      heq | ⟨set, hset, heq⟩
    · rw [heq]
      exact ⟨hI.later hclock hmax ⟨hI.scheduled, hI.positive⟩, fun _ => .inl .refl⟩
    refine ⟨?_, fun _ => kept_setTime hset (by rw [heq])⟩
    rw [heq]
    exact hI.later hclock hmax (timed_wakeIf (timed_flushExpirations hset.positive hmax hset.scheduled))
  case cancelOnRealtimeSet =>
    obtain ⟨rfl, rfl⟩ := h
    rcases @cancelOnRealtimeSet_cases s.file view with heq | ⟨hwake, hnone⟩
    · rw [heq]
      exact ⟨hI, fun _ => .inl .refl⟩
    refine ⟨⟨fun d _ hd => ?_, fun d hd => ?_, hI.inHand, hI.clock⟩, fun _ => .inr hwake⟩
    · rw [hnone] at hd
      cases hd
    · rw [hnone] at hd
      cases hd
  case popDue nowNs =>
    obtain ⟨hle, entry, heap, hpop, rfl, -⟩ := h
    obtain ⟨hdue, rfl⟩ := popDue_eq_some hpop
    refine ⟨⟨fun d harmed hd hmax => ?_, hI.positive, fun e n hmem => ?_, hI.clock⟩,
      fun _ => .inl ⟨fun _ _ _ h => h, fun _ _ _ h => h, fun _ _ _ _ h => h⟩⟩
    · -- the entry goes from the heap to the hands of the interrupt
      by_cases heq : (⟨d, s.file.scheduleSeq⟩ : ScheduleEntry) = entry
      · exact .inr ⟨nowNs, heq ▸ (.head _)⟩
      · refine (hI.scheduled d harmed hd hmax).imp (fun hmem => ?_) fun ⟨n, hmem⟩ => ?_
        · exact (mem_erase_of_ne heq).mpr hmem
        · exact ⟨n, .tail _ hmem⟩
    · rcases mem_cons.mp hmem with heq | hmem
      · cases heq
        exact ⟨hdue, hle⟩
      · exact hI.inHand e n hmem
  case handle entry nowNs =>
    obtain ⟨hmem, rfl, rfl⟩ := h
    obtain ⟨hdue, hle⟩ := hI.inHand entry nowNs hmem
    have hmax : nowNs ≤ usizeMax := Nat.le_trans hle hI.clock
    obtain ⟨hsched, hpos⟩ : Scheduled (s.file.handleEntry entry nowNs view).1 _ ∧ _ :=
      timed_handleEntry hI.positive hI.scheduled hdue hmax
    refine ⟨⟨hsched, hpos, fun e n h => hI.inHand e n (mem_of_mem_erase h), hI.clock⟩, fun _ => ?_⟩
    unfold handleEntry
    split
    · exact .inl .refl
    · exact (counted_advanceTo ..).kept_wakeIf (advanceTo_becameReady ..)

/-- A read takes what it counts, and a reader that waits is on its list and offered nothing. -/
theorem readCounter_spec {nonblock : Bool} (hview : ViewOf phase view) :
    Passes phase f (f.readCounter task nonblock nowNs view).1 ∧
      ((f.readCounter task nonblock nowNs view).2 = .parks →
        task ∈ (f.readCounter task nonblock nowNs view).1.readWaiters ∧
          (f.readCounter task nonblock nowNs view).1.readable = false) := by
  have hcounted := counted_flushExpirations f nowNs
  unfold readCounter
  generalize (f.flushExpirations nowNs).1 = f₁ at hcounted ⊢
  by_cases hcan : f₁.canceled = true
  · -- a cancelled timer was readable before
    rw [if_pos hcan]
    refine ⟨⟨fun _ _ _ h => hcounted.readWaiters ▸ h, fun _ _ _ h => hcounted.pollWaiters ▸ h,
      fun _ _ _ _ hf => ?_⟩, nofun⟩
    rw [hcounted.canceled, (readable_eq_false.mp hf).1] at hcan
    cases hcan
  rw [if_neg hcan]
  split
  · exact ⟨⟨fun _ _ _ h => hcounted.readWaiters ▸ h, fun _ _ _ h => hcounted.pollWaiters ▸ h,
      fun _ _ _ _ _ => readable_eq_false.mpr ⟨Bool.eq_false_iff.mpr hcan, rfl⟩⟩, nofun⟩
  next hexp =>
  have hunreadable : f₁.readable = false :=
    readable_eq_false.mpr ⟨Bool.eq_false_iff.mpr hcan, Nat.eq_zero_of_not_pos hexp⟩
  cases nonblock with
  | true =>
    exact ⟨⟨fun _ _ _ h => hcounted.readWaiters ▸ h, fun _ _ _ h => hcounted.pollWaiters ▸ h,
      fun _ _ _ _ _ => hunreadable⟩, nofun⟩
  | false =>
    refine ⟨⟨fun t c hw h => ?_, fun _ _ _ h => hcounted.pollWaiters ▸ h, fun _ _ _ _ _ => hunreadable⟩,
      fun _ => ⟨mem_pushWaiter_self, hunreadable⟩⟩
    exact mem_pushWaiter (hcounted.readWaiters.symm ▸ h) (hview.upgrade t hw.alive)

theorem passes_registerPollWaiter (hview : ViewOf phase view)
    (hcare : Careful ⟨phase, f, (f.registerPollWaiter task nowNs view).1, false⟩) :
    Passes phase f (f.registerPollWaiter task nowNs view).1 := by
  have hcounted := counted_flushExpirations f nowNs
  unfold registerPollWaiter pollMask at hcare ⊢
  dsimp only at hcare ⊢
  generalize (f.flushExpirations nowNs).1 = f₁ at hcounted hcare ⊢
  by_cases hr : f₁.readable = true
  · rw [if_pos hr] at hcare ⊢
    exact hcounted.passes hcare.noticed
  · rw [if_neg hr] at hcare ⊢
    refine ⟨fun _ _ _ h => hcounted.readWaiters ▸ h, fun t c hw h => ?_, fun _ _ _ _ _ => ?_⟩
    · exact mem_addPollWaiterOnce (hcounted.pollWaiters.symm ▸ h) (hview.waitable t c hw)
    · exact Bool.eq_false_iff.mpr hr

/-- A round changes the lists of waiters and the count only, apart from what it counts. -/
theorem timerRound_inv (hI : TimerInv s) (hle : s.nowNs ≤ nowNs) (hmax : nowNs ≤ usizeMax) :
    TimerInv ⟨(timerRound s.file task call nowNs other view).1, s.inHand, nowNs⟩ := by
  have hflush := timed_flushExpirations hI.positive hmax hI.scheduled
  refine hI.later hle hmax ?_
  unfold timerRound
  split
  · unfold readCounter
    dsimp only
    split
    · exact hflush
    split
    · exact hflush
    split <;> exact hflush
  · unfold registerPollWaiter pollMask
    dsimp only
    split <;> exact hflush
  · exact hflush

theorem passes_timerRound (hview : ViewOf phase view)
    (hcare : Careful ⟨phase, s.file, (timerRound s.file task call nowNs other view).1, false⟩) :
    Passes phase s.file (timerRound s.file task call nowNs other view).1 := by
  unfold timerRound at hcare ⊢
  split at hcare
  · exact (readCounter_spec hview).1
  · exact passes_registerPollWaiter hview hcare
  · exact (counted_flushExpirations s.file nowNs).passes hcare.noticed

/-- A task that has registered is on its list, and a reader is offered nothing. -/
theorem timerRound_parks {c' : TimerCall} (hview : ViewOf phase view)
    (h : (timerRound s.file task call nowNs other view).2 = .park c') :
    TimerHeld ⟨(timerRound s.file task call nowNs other view).1, s.inHand, nowNs⟩ task c' := by
  unfold timerRound at h ⊢
  split at h
  · next nonblock =>
    cases hend : (s.file.readCounter task nonblock nowNs view).2 with
    | returned =>
      rw [hend] at h
      cases h
    | parks =>
      rw [hend] at h
      cases h
      exact (readCounter_spec hview).2 hend
  · cases h
    unfold registerPollWaiter pollMask
    dsimp only
    split
    · trivial
    · exact mem_addPollWaiterOnce_self
  · unfold pollLook at h
    split at h <;> cases h

end Sections

/-! ### No wakeup is lost -/

theorem timerInv_new : TimerInv (.new clockId) := by
  refine ⟨fun d _ hd => ?_, fun d hd => ?_, fun entry n hmem => ?_, Nat.zero_le _⟩
  · cases hd
  · cases hd
  · cases hmem

/-- **In careful runs the timer keeps its waiters.** -/
theorem timer_held {w : Parking.World TimerState TimerCall}
    (hr : TimerReachable Careful clockId w) : TimerInv w.shared ∧ Parking.AllHeld TimerHeld w := by
  refine Blocking.held_of_reachable ?_ ?_ ?_ timerInv_new hr
  · -- a round
    rintro phase s t c waited o n hI - ⟨nowNs, other, view, hview, hle, hmax, rfl, rfl, hcare⟩
    refine ⟨⟨timerRound_inv hI hle hmax, fun t' c' hw _ _ hheld => ?_⟩,
      fun c' hpark => timerRound_parks hview hpark⟩
    exact (passes_timerRound hview hcare).held hw hheld
  · -- another critical section
    rintro phase s ⟨s', woken, later⟩ hI ⟨act, view, ws, hview, hact, hwoken, hlater, hcare⟩
    obtain rfl : later = ws := hlater
    obtain ⟨hI', hkept⟩ := timerAct_spec hI hact
    exact ⟨hI', fun t c hw _ hl hheld => (hkept hcare).held hview hw hl hheld⟩
  · -- the second look of a poll
    rintro phase s t c woken o n hI - ⟨found, nowNs, other, rfl, hle, hmax, rfl, rfl, hcare⟩
    have hcounted := counted_flushExpirations s.file nowNs
    have hpass : Passes phase s.file (s.file.flushExpirations nowNs).1 := hcounted.passes hcare.noticed
    refine ⟨⟨hI.flush hle hmax, fun _ _ hw _ _ hheld => hpass.held hw hheld⟩, ?_⟩
    intro _ hpark _ _ hheld
    have hreg := hcare.registered
    rw [hpark, Bool.and_true] at hreg
    obtain rfl : found = false := hreg
    -- it goes to sleep because the timer is not readable
    unfold pollLook at hpark
    split at hpark
    · cases hpark
    · next hnot =>
      cases hpark
      have hr : (s.file.pollMask nowNs).2 = false := (Bool.or_eq_false_iff.mp (eq_false_of_ne_true hnot)).1
      exact ⟨hcounted.pollWaiters.symm ▸ hheld, hr⟩

section OneReader

/-- All tasks exist, and can wait. -/
def everyone : TaskView := ⟨fun _ => true, fun _ => true⟩

theorem viewOf_everyone {phase : Task → Phase TimerCall} : ViewOf phase everyone :=
  ⟨fun _ _ => rfl, fun _ _ _ => rfl⟩

/-- The monotonic timer with a reader, set to expire at 5. -/
def armedTimer : TimerState := ⟨⟨1, some 5, 0, 0, false, false, 1, [1], [], [⟨5, 1⟩]⟩, [], 0⟩

/-- A reader blocks, and the timer is set. -/
theorem reachable_armedTimer {cond : Look → Prop}
    (hcond : ∀ l, l.after.expirations = 0 → l.unregistered = false → cond l) :
    TimerReachable cond 1 ⟨armedTimer, fun t => if t = 1 then .blocked (.read false) else .idle, []⟩ := by
  have hboot : TimerReachable cond 1 (boot (.new 1)) := .start rfl
  have hstart : (timerSystem cond).start (.read false) := trivial
  have hcall := hboot.step (.call 1 rfl hstart)
  have hround := hcall.step (.round (t := 1) rfl
    ⟨0, false, everyone, viewOf_everyone, Nat.le_refl _, Nat.zero_le _, rfl, rfl, hcond _ rfl rfl⟩)
  have hblocked := hround.step (.switchOut (t := 1) rfl trivial)
  have hset := hblocked.step (.act (o := ⟨armedTimer, [], []⟩)
    ⟨.setTime (some 5) 0 false 0 0 0, everyone, [], viewOf_everyone, rfl, rfl, rfl, nofun⟩)
  refine cast (congrArg (TimerReachable cond 1) ?_) hset
  refine congrArg (fun phase => (⟨armedTimer, phase, []⟩ : Parking.World TimerState TimerCall)) ?_
  funext t
  by_cases ht : t = 1
  · subst ht
    rfl
  · simp [goto, boot, Blocking.after, ht]

end OneReader

/-- **No wakeup is lost.** In every run whose looks are careful, a reader or poller that is blocked,
with no wakeup on its way to it, is blocked on a timer whose count is zero; and once the interrupt
has handled all entries that are due at a time, every expiration up to that time has been
counted. -/
theorem timerfd_no_lost_wakeup {clockId : Nat} {w : Parking.World TimerState TimerCall}
    (hr : TimerReachable Careful clockId w) {t : Task} {call : TimerCall}
    (hblocked : w.phase t = .blocked call) (hlater : t ∉ w.later) :
    w.shared.file.expirations = 0 ∧ w.shared.file.canceled = false ∧
      ∀ nowNs, popDue w.shared.file.heap nowNs = none → w.shared.inHand = [] → w.shared.file.isArmed = true →
        ∀ deadlineNs, w.shared.file.deadlineNs = some deadlineNs → deadlineNs ≠ usizeMax → nowNs <
          deadlineNs := by
  obtain ⟨hI, hheld⟩ := timer_held hr
  have hsleeps : call.Sleeps := Blocking.sleeps_of_blocked hr hblocked
  have hunreadable : w.shared.file.readable = false := by
    have h := hheld t call (.inl hblocked) hlater
    match call, hsleeps, h with
    | .read _, _, h | .poll .wait, _, h => exact h.2
  obtain ⟨hcanceled, hexp⟩ := readable_eq_false.mp hunreadable
  refine ⟨hexp, hcanceled, fun nowNs hpop hhand harmed d hd hmax => ?_⟩
  rcases hI.scheduled d harmed hd hmax with hmem | ⟨n, hmem⟩
  · exact lt_of_popDue_eq_none hpop hmem
  · rw [hhand] at hmem
    cases hmem

/-- A reader is blocked, and the timer is set to expire at 5: at 4 nothing is due. -/
theorem timerfd_no_lost_wakeup_reader : ∃ w : Parking.World TimerState TimerCall,
    TimerReachable Careful 1 w ∧ w.phase 1 = .blocked (.read false) ∧ (1 : Task) ∉ w.later ∧
      w.shared.file.expirations = 0 ∧ w.shared.file.deadlineNs = some 5 ∧ 4 < 5 := by
  have hrun : TimerReachable Careful 1 _ := reachable_armedTimer fun l hafter hreg =>
    ⟨fun _ hpos => absurd hafter (Nat.ne_of_gt hpos), hreg⟩
  obtain ⟨hexp, -, hdue⟩ := timerfd_no_lost_wakeup hrun (t := 1) rfl not_mem_nil
  exact ⟨_, hrun, rfl, not_mem_nil, hexp, rfl, hdue 4 rfl rfl rfl 5 rfl (by decide)⟩

/-- **A lost wakeup.** A reader is blocked when `get_time` counts the expiration. The interrupt then
finds its entry stale, and the reader stays blocked on a timer that has expired. -/
theorem timerfd_loses_wakeup : ∃ w : Parking.World TimerState TimerCall,
    TimerReachable (fun _ => True) 1 w ∧ w.phase 1 = .blocked (.read false) ∧ w.later = [] ∧
      popDue w.shared.file.heap 5 = none ∧ w.shared.inHand = [] ∧ w.shared.file.expirations = 1 := by
  have hrun : TimerReachable (fun _ => True) 1 _ := reachable_armedTimer fun _ _ _ => trivial
  have hget := hrun.step (.act (o := ⟨⟨⟨1, none, 0, 1, false, false, 2, [1], [], [⟨5, 1⟩]⟩, [], 5⟩, [], []⟩)
    ⟨.getTime 5 5, everyone, [], viewOf_everyone, rfl, rfl, rfl, fun _ => trivial⟩)
  have hpop := hget.step
    (.act (o := ⟨⟨⟨1, none, 0, 1, false, false, 2, [1], [], []⟩, [(⟨5, 1⟩, 5)], 5⟩, [], []⟩)
    ⟨.popDue 5, everyone, [], viewOf_everyone, rfl, rfl, rfl, nofun⟩)
  have hskip := hpop.step (.act (o := ⟨⟨⟨1, none, 0, 1, false, false, 2, [1], [], []⟩, [], 5⟩, [], []⟩)
    ⟨.handle ⟨5, 1⟩ 5, everyone, [], viewOf_everyone, rfl, rfl, rfl, nofun⟩)
  exact ⟨_, hskip, rfl, rfl, rfl, rfl, rfl⟩

end HitOS.TimerFd
