import HitOS.Syscall.FutexQueues

/-!
# Futex words

The interleavings of `FutexQueues`, with the words in user memory. A system call reads its word,
takes the lock of the queues and does its critical section in steps of their own, and the word may
change between any two of them, also while the lock is held.

* `FUTEX_WAIT` compares the word, takes the lock, compares it again and only then queues its waiter.
  So when a wake runs, every wait has queued its waiter or has yet to compare under the lock
  (`EntryInv.holds`); the latter returns if the word has changed (`GivesUp.step`).
* `FUTEX_CMP_REQUEUE` compares before it takes the lock, and not again. What it moves may have been
  queued after the word changed.

The queues of every run are those of a run of `FutexQueues` (`EntryInv.queues`), so what is known of
them holds here.
-/

namespace HitOS.Futex

open List Function Option FutexWaitCall

open HitOS.Ipc (TaskId)

/-! ### The stages of a wait -/

variable (call : FutexWaitCall)

/-- The checks of `FUTEX_WAIT` on its arguments. -/
def FutexWaitCall.valid : Bool :=
  decide (call.uaddr ≠ 0) && decide (call.bitset ≠ some 0)

/-- The checks after the word has been compared under the lock. -/
def FutexWaitCall.limit (signal : Bool) (timeout : Option (Option Nat)) (now : Nat) :
    Except SyscallError Unit :=
  if signal then .error .eintr
  else
    match timeout with
    | none => .ok ()
    | some none => .error .einval
    | some (some ns) =>
      let deadline := if call.bitset.isSome then ns else min (now + ns) (2 ^ 64 - 1)
      if deadline ≤ now then .error .etimedout else .ok ()

/-- The stages together are the checks of a wait. -/
theorem FutexWaitCall.check_eq_limit {call : FutexWaitCall} (h : call.valid = true) {signal : Bool}
    {timeout : Option (Option Nat)} {now : Nat} :
    call.check ⟨call.val, call.val, false, false, signal, timeout, now⟩ = call.limit signal timeout now := by
  obtain ⟨haddr, hbits⟩ : call.uaddr ≠ 0 ∧ call.bitset ≠ some 0 := by simpa [valid] using h
  exact (if_neg haddr).trans <| (if_neg hbits).trans <|
    (if_neg (not_not.mpr rfl)).trans (if_neg (not_not.mpr rfl))

/-- Where a task is in `FUTEX_WAIT` before its waiter is queued. -/
inductive FutexEntry where
  | out
  /-- The word was the expected one. -/
  | compared (call : FutexWaitCall)
  /-- The word was another one; the task is about to look for signals. -/
  | mismatch
  /-- The word was the expected one also under the lock, which the task holds. -/
  | matched (call : FutexWaitCall)
  /-- The call has returned. -/
  | failed (error : SyscallError)

/-- The first comparison. -/
def FutexWaitCall.compare (cur : BitVec 32) : FutexEntry :=
  if call.valid = false then .failed .einval else if cur ≠ call.val then .mismatch else .compared call

/-- The comparison under the lock. -/
def FutexWaitCall.recheck (cur : BitVec 32) : FutexEntry :=
  if cur ≠ call.val then .mismatch else .matched call

/-- The error of a wait that has found another word. -/
def mismatchError (signal : Bool) : SyscallError := if signal then .eintr else .eagain

/-! ### Interleavings -/

/-- The queues with the words in memory, by address space and address. -/
structure FutexWorld where
  st : FutexState
  mem : Nat → Nat → BitVec 32
  /-- `pending_unmasked_signal`. -/
  signal : TaskId → Bool
  /-- Who holds the lock of the queues from one step to the next. -/
  lock : Option TaskId
  entry : TaskId → FutexEntry
  /-- The requeues that have read their word, with what they have read. -/
  requeues : List (FutexRequeueCall × BitVec 32)

namespace FutexWorld

/-- No one waits; the memory is arbitrary. -/
def IsBoot (w : FutexWorld) : Prop := w.st = .boot ∧ w.lock = none ∧ (∀ t, w.entry t = .out) ∧ w.requeues = []

/-- A task goes on in `FUTEX_WAIT`. -/
def goto (w : FutexWorld) (t : TaskId) (e : FutexEntry) : FutexWorld :=
  { w with entry := update w.entry t e }

/-- A wake unlocks the queues. -/
def woken (w : FutexWorld) (r : Waking) : FutexWorld :=
  { w with st := { w.st with
      qs := r.qs
      jobs := w.st.jobs ++ r.wakeList.map fun v => .clearWait v.task v.inQueue } }

end FutexWorld

/-- The queues are changed by removing waiters only, or not at all. -/
inductive Removes (qs : FutexQueues) : FutexQueues → Prop
  | none : Removes qs qs
  | tracked (handle : FutexWaitHandle) : Removes qs (removeTracked qs handle).1
  | waiter (flag : Nat) : Removes qs (removeWaiter qs flag).1
  | task (t : TaskId) : Removes qs (removeTask qs t)

/-- **One step**: an access to user memory, or a critical section. -/
inductive FutexWorldStep (w : FutexWorld) : FutexWorld → Prop
  /-- User code writes to memory, or the mappings change. -/
  | store (mem : Nat → Nat → BitVec 32) : FutexWorldStep w { w with mem := mem }
  /-- Signals arrive, or are taken. -/
  | signals (signal : TaskId → Bool) : FutexWorldStep w { w with signal := signal }
  | compare (t : TaskId) (call : FutexWaitCall) (hidle : w.st.phase t = .idle)
      (hentry : w.entry t = .out ∨ ∃ e, w.entry t = .failed e) :
      FutexWorldStep w (w.goto t (call.compare (w.mem call.token call.uaddr)))
  | recheck (t : TaskId) (call : FutexWaitCall) (hentry : w.entry t = .compared call)
      (hlock : w.lock = none) :
      FutexWorldStep w { w.goto t (call.recheck (w.mem call.token call.uaddr)) with lock := some t }
  | report (t : TaskId) (hentry : w.entry t = .mismatch) : FutexWorldStep w
        { w.goto t (.failed (mismatchError (w.signal t))) with
          lock := if w.lock = some t then none else w.lock }
  /-- A signal or the time limit ends the wait before its waiter is queued. -/
  | refuse (t : TaskId) (call : FutexWaitCall) (timeout : Option (Option Nat)) (now : Nat)
      (e : SyscallError) (hentry : w.entry t = .matched call)
      (hlimit : call.limit (w.signal t) timeout now = .error e) :
      FutexWorldStep w { w.goto t (.failed e) with lock := none }
  | enqueue (t : TaskId) (call : FutexWaitCall) (timeout : Option (Option Nat)) (now : Nat)
      (hentry : w.entry t = .matched call) (hlimit : call.limit (w.signal t) timeout now = .ok ()) :
      FutexWorldStep w { w.goto t .out with
          lock := none
          st := { w.st with
            qs := enqueue w.st.qs t call
            futexWait := update w.st.futexWait t (some ⟨call.key, w.st.qs.nextFlag⟩)
            phase := update w.st.phase t (.waiting w.st.qs.nextFlag) } }
  | wake (call : FutexWakeCall) (r : Waking) (hlock : w.lock = none)
      (hr : futexWakeWithMask w.st.qs call = .ok r) : FutexWorldStep w (w.woken r)
  | readRequeue (call : FutexRequeueCall) :
      FutexWorldStep w { w with requeues := (call, w.mem call.token call.uaddr) :: w.requeues }
  | requeue {call : FutexRequeueCall} {cur : BitVec 32} {r : Requeued}
      {l₁ l₂ : List (FutexRequeueCall × BitVec 32)} (hread : w.requeues = l₁ ++ (call, cur) :: l₂)
      (hlock : w.lock = none) (hr : futexRequeue w.st.qs call cur = .ok r) :
      FutexWorldStep w { w with
          requeues := l₁ ++ l₂
          st := { w.st with
            qs := r.qs
            jobs := w.st.jobs ++ (r.moved.map fun v => .updateKey v.task v.inQueue call.key2) ++
              r.wakeList.map fun v => .clearWait v.task v.inQueue } }
  /-- The arguments are not valid, or the word was not the expected one. -/
  | requeueFails {call : FutexRequeueCall} {cur : BitVec 32} {e : SyscallError}
      {l₁ l₂ : List (FutexRequeueCall × BitVec 32)} (hread : w.requeues = l₁ ++ (call, cur) :: l₂)
      (hr : futexRequeue w.st.qs call cur = .error e) : FutexWorldStep w { w with requeues := l₁ ++ l₂ }
  /-- Everything else that is done to the queues and the records; the lock is needed for the
  queues. -/
  | other (st : FutexState) (hstep : FutexStep w.st st) (hqs : Removes w.st.qs st.qs)
      (hlock : w.lock = none ∨ st.qs = w.st.qs) : FutexWorldStep w { w with st := st }

section Runs

variable {w w' : FutexWorld} {t : TaskId} {call : FutexWaitCall} {qs : FutexQueues} {cur : BitVec 32}
  {v : FutexWaiter} {key : FutexKey} {e : FutexEntry}

/-! ### The lock -/

theorem Removes.nextFlag {qs' : FutexQueues} (h : Removes qs qs') : qs'.nextFlag = qs.nextFlag := by
  cases h with
  | none | tracked | task => rfl
  | waiter =>
    unfold removeWaiter
    split <;> rfl

/-- A task that is not in `FUTEX_WAIT` gets there by its own steps only. -/
theorem FutexStep.idle {st st' : FutexState} (h : FutexStep st st') (hqs : st'.qs.nextFlag = st.qs.nextFlag)
    (hidle : st.phase t = .idle) : st'.phase t = .idle := by
  have hupdate t' p (hbusy : st.phase t' ≠ .idle) : update st.phase t' p t = .idle := by
    have hne : t ≠ t' := by
      rintro rfl
      exact hbusy hidle
    rwa [update_of_ne hne]
  cases h with
  | wait => exact absurd hqs (Nat.succ_ne_self _)
  | wake | requeue => exact hidle
  | resume t' n hphase | detach t' n hphase
  | removeTracked t' _ _ hphase | removeWaiter t' n hphase
  | detached t' n hphase => exact hupdate t' _ (by rw [hphase]; exact nofun)
  | exit | updateKey | clearWait | exitTracked | exitScan => exact hidle

/-- The call of a task that has found the expected word. -/
def FutexEntry.call? : FutexEntry → Option FutexWaitCall
  | .compared call => some call
  | .matched call => some call
  | _ => none

/-- The task holds the lock of the queues from one step to the next. -/
def FutexEntry.isMatched : FutexEntry → Bool
  | .matched _ => true
  | _ => false

/-- What holds of the tasks that have not queued their waiter yet. -/
structure EntryInv (w : FutexWorld) : Prop where
  inside : ∀ t call, (w.entry t).call? = some call → call.valid = true ∧ w.st.phase t = .idle
  holds : ∀ t, (w.entry t).isMatched = true → w.lock = some t
  /-- The queues have come to be as they are by critical sections. -/
  queues : Reachable (· = .boot) FutexStep w.st

/-- A task goes on to a stage that needs nothing. -/
theorem EntryInv.goto {lock : Option TaskId} (h : EntryInv w)
    (hinside : ∀ call, e.call? = some call → call.valid = true ∧ w.st.phase t = .idle)
    (hmatched : e.isMatched = true → lock = some t)
    (hlock : ∀ t', t' ≠ t → (w.entry t').isMatched = true → lock = some t') :
    EntryInv { w.goto t e with lock := lock } := by
  refine ⟨fun t' call hcall => ?_, fun t' hm => ?_, h.queues⟩
  · simp only [FutexWorld.goto, update_apply] at hcall
    split at hcall
    · next ht => exact ht ▸ hinside call hcall
    · exact h.inside t' call hcall
  · simp only [FutexWorld.goto, update_apply] at hm
    split at hm
    · next ht => exact ht ▸ hmatched hm
    · next ht => exact hlock t' ht hm

theorem FutexWaitCall.compare_call {call' : FutexWaitCall}
    (h : (call.compare cur).call? = some call') : call' = call ∧ call.valid = true := by
  unfold compare at h
  split at h
  · cases h
  · next hvalid =>
    split at h
    · cases h
    · exact ⟨(some.inj h).symm, by simpa using hvalid⟩

/-- **One step** keeps the stages of the waits in order. -/
theorem EntryInv.step (h : EntryInv w) (hstep : FutexWorldStep w w') : EntryInv w' := by
  cases hstep with
  | store | signals | readRequeue | requeueFails => exact ⟨h.inside, h.holds, h.queues⟩
  | compare _ _ hidle =>
    refine h.goto (fun call' hcall => ?_) (fun hm => ?_) fun t' _ => h.holds t'
    · obtain ⟨rfl, hvalid⟩ := compare_call hcall
      exact ⟨hvalid, hidle⟩
    · unfold FutexWaitCall.compare at hm
      split at hm
      · cases hm
      · split at hm <;> cases hm
  | recheck t call hentry hlock =>
    have hcall : (w.entry t).call? = some call := by rw [hentry]; rfl
    refine h.goto (fun call' hcall' => ?_) (fun _ => rfl) fun t' _ hm => ?_
    · unfold FutexWaitCall.recheck at hcall'
      split at hcall'
      · cases hcall'
      · obtain rfl := some.inj hcall'
        exact h.inside t _ hcall
    · -- the lock was free
      have hheld := h.holds t' hm
      rw [hlock] at hheld
      cases hheld
  | report =>
    refine h.goto nofun nofun fun t' ht hm => ?_
    have hheld := h.holds t' hm
    rwa [if_neg fun heq => ht (some.inj (hheld.symm.trans heq))]
  | refuse t _ _ _ _ hentry =>
    refine h.goto nofun nofun fun t' ht hm => ?_
    have hheld := h.holds t (by rw [hentry]; rfl)
    exact absurd (some.inj ((h.holds t' hm).symm.trans hheld)) ht
  | enqueue t call timeout now hentry hlimit =>
    have hcall : (w.entry t).call? = some call := by rw [hentry]; rfl
    obtain ⟨hvalid, hidle⟩ := h.inside t call hcall
    have hheld := h.holds t (by rw [hentry]; rfl)
    refine ⟨fun t' call' hcall' => ?_, fun t' hm => ?_, ?_⟩
    · by_cases ht : t' = t
      · subst ht
        simp only [FutexWorld.goto, update_self] at hcall'
        cases hcall'
      · simp only [FutexWorld.goto, update_of_ne ht] at hcall' ⊢
        exact h.inside t' call' hcall'
    · simp only [FutexWorld.goto, update_apply] at hm
      split at hm
      · cases hm
      · next ht => exact absurd (some.inj ((h.holds t' hm).symm.trans hheld)) ht
    · -- the two comparisons and the checks are those of one critical section
      refine h.queues.step (.wait t call ⟨call.val, call.val, false, false, w.signal t, timeout, now⟩ hidle ?_)
      rwa [check_eq_limit hvalid]
  | wake call r _ hr => exact ⟨h.inside, h.holds, h.queues.step (.wake call r hr)⟩
  | @requeue call cur r l₁ l₂ hread hlock hr =>
    exact ⟨h.inside, h.holds, h.queues.step (.requeue call cur r hr)⟩
  | other _ hst hqs =>
    refine ⟨fun t call hcall => ?_, h.holds, h.queues.step hst⟩
    obtain ⟨hvalid, hidle⟩ := h.inside t call hcall
    exact ⟨hvalid, hst.idle hqs.nextFlag hidle⟩

theorem entryInv_of_reachable (hr : Reachable FutexWorld.IsBoot FutexWorldStep w) : EntryInv w := by
  refine Reachable.invariant (fun w hboot => ?_) (fun _ _ h hstep => h.step hstep) hr
  obtain ⟨hst, -, hentry, -⟩ := hboot
  refine ⟨fun t call hcall => ?_, fun t hm => ?_, .start hst⟩
  · rw [hentry t] at hcall
    cases hcall
  · rw [hentry t] at hm
    cases hm

/-- **The runs of the queues**, of which these runs are the finer ones. -/
theorem futexInv_of_reachable (hr : Reachable FutexWorld.IsBoot FutexWorldStep w) : FutexInv w.st :=
  Reachable.invariant (fun _ hs => hs ▸ futexInv_boot) (fun _ _ hi hs => hi.step hs)
    (entryInv_of_reachable hr).queues

/-! ### Waiters that are queued -/

/-- The wake is for the futex of this waiter, which is in the queue of the key. -/
def FutexWakeCall.Addresses (call : FutexWakeCall) (key : FutexKey) (v : FutexWaiter) : Prop :=
  (key = call.key ∨ call.fallback = some (v.token, v.uaddr)) ∧ v.hasBit call.mask = true

theorem mem_candidates {call : FutexWakeCall} (hv : v ∈ qs.queue key) (hflag : qs.flag v.inQueue = true)
    (ha : call.Addresses key v) : v ∈ candidates qs call := by
  obtain ⟨hkey, hbit⟩ := ha
  unfold candidates
  rw [mem_append]
  by_cases hsame : key = call.key
  · left
    subst hsame
    exact mem_filter.mpr ⟨hv, by simp [hflag, hbit]⟩
  right
  rw [hkey.resolve_left hsame]
  refine mem_flatMap.mpr ⟨key, mem_filter.mpr ⟨?_, decide_eq_true hsame⟩, ?_⟩
  · obtain ⟨queue, hget, -⟩ := FutexQueues.mem_queue_iff.mp hv
    exact mem_map.mpr ⟨(key, queue), OrdMap.get?_eq_some_iff.mp hget, rfl⟩
  · exact mem_filter.mpr ⟨hv, by simp [hflag, hbit, FutexWaiter.isAt]⟩

/-- **Who is queued is woken**, unless the wake has woken as many as it was asked for. -/
theorem woken_or_used_up {call : FutexWakeCall} {r : Waking} (hd : Distinct qs)
    (hr : futexWakeWithMask qs call = .ok r) (hv : v ∈ qs.queue key) (hflag : qs.flag v.inQueue = true)
    (ha : call.Addresses key v) : (v ∈ r.wakeList ∧ r.qs.flag v.inQueue = false) ∨ r.woke = call.nrWake := by
  obtain ⟨hlist, hwoke, heffect⟩ := futexWake_spec hd hr
  have hmem := mem_candidates hv hflag ha
  by_cases hlen : (candidates qs call).length ≤ call.nrWake
  · left
    rw [take_of_length_le hlen] at hlist
    have hin : v ∈ r.wakeList := hlist ▸ hmem
    refine ⟨hin, Bool.eq_false_iff.mpr fun hset => ?_⟩
    exact ((heffect.flag _).mp hset).2 (mem_flags.mpr ⟨v, hin, rfl⟩)
  · right
    rw [hwoke, hlist, length_take]
    exact min_eq_left (le_of_lt (not_le.mp hlen))

/-! ### Waits that are not queued -/

/-- A step that is made while a wait has not compared its word under the lock, and the word is not
the one it expects, or while it is about to report that. -/
def StepsChanged (t : TaskId) (call : FutexWaitCall) (w w' : FutexWorld) : Prop :=
  FutexWorldStep w w' ∧ (w.entry t = .compared call ∧ w.mem call.token call.uaddr ≠ call.val ∨
    w.entry t = .mismatch)

/-- Where such a wait can be: it goes on, or has returned, with `EAGAIN` unless a signal is
pending. -/
def GivesUp (t : TaskId) (call : FutexWaitCall) (w : FutexWorld) : Prop :=
  w.entry t = .compared call ∨ w.entry t = .mismatch ∨ w.entry t = .failed (mismatchError (w.signal t))

theorem FutexWorld.goto_entry_self (w : FutexWorld) (t : TaskId) (e : FutexEntry) : (w.goto t e).entry t = e :=
  update_self ..

theorem FutexWorld.goto_entry_of_ne (w : FutexWorld) {t t' : TaskId} (h : t' ≠ t) :
    (w.goto t e).entry t' = w.entry t' := update_of_ne h ..

/-- Only the second comparison and the report move the task on. -/
theorem GivesUp.step (hstep : StepsChanged t call w w') : GivesUp t call w' := by
  obtain ⟨hstep, hwhere⟩ := hstep
  have hstays (heq : w'.entry t = w.entry t) : GivesUp t call w' := by
    rcases hwhere with ⟨hentry, -⟩ | hentry
    · exact .inl (heq.trans hentry)
    · exact .inr (.inl (heq.trans hentry))
  cases hstep with
  | store | signals | wake | readRequeue | requeue | requeueFails | other => exact hstays rfl
  | compare _ _ _ hentry' =>
    refine hstays (w.goto_entry_of_ne fun ht => ?_)
    -- the task is in a call already
    subst ht
    rcases hwhere with ⟨hentry, -⟩ | hentry <;> rw [hentry] at hentry' <;>
      rcases hentry' with h | ⟨e, h⟩ <;> cases h
  | recheck t' call' hentry' =>
    by_cases ht : t = t'
    · subst ht
      rcases hwhere with ⟨hentry, hne⟩ | hentry
      · obtain rfl : call = call' := FutexEntry.compared.inj (hentry.symm.trans hentry')
        refine .inr (.inl ?_)
        have hrecheck : call.recheck (w.mem call.token call.uaddr) = .mismatch := if_pos hne
        rw [hrecheck]
        exact w.goto_entry_self t .mismatch
      · rw [hentry] at hentry'
        cases hentry'
    · exact hstays (w.goto_entry_of_ne ht)
  | report t' =>
    by_cases ht : t = t'
    · subst ht
      exact .inr (.inr (w.goto_entry_self t _))
    · exact hstays (w.goto_entry_of_ne ht)
  | refuse _ _ _ _ _ hentry' | enqueue _ _ _ _ hentry' =>
    refine hstays (w.goto_entry_of_ne fun ht => ?_)
    subst ht
    rcases hwhere with ⟨hentry, -⟩ | hentry <;> rw [hentry] at hentry' <;> cases hentry'

/-- If the lock is free, the task needs two steps to return. -/
theorem exists_gives_up (hentry : w.entry t = .compared call) (hlock : w.lock = none)
    (hne : w.mem call.token call.uaddr ≠ call.val) :
    ∃ v, Reachable (· = w) (StepsChanged t call) v ∧ v.entry t = .failed (mismatchError (v.signal t)) := by
  have hstart : Reachable (· = w) (StepsChanged t call) w := .start rfl
  have hcheck := hstart.step ⟨.recheck t call hentry hlock, .inl ⟨hentry, hne⟩⟩
  have hrecheck : call.recheck (w.mem call.token call.uaddr) = .mismatch := if_pos hne
  rw [hrecheck] at hcheck
  have hmis := w.goto_entry_self t .mismatch
  exact ⟨_, hcheck.step ⟨.report t hmis, .inr hmis⟩, FutexWorld.goto_entry_self _ t _⟩

/-! ### Waits and wakes -/

/-- **No wakeup is lost**, in every interleaving, over any number of tasks and addresses. A task
whose waiter has not been taken out is in a queue. When a wake runs, a waiter that is queued for its
futex is woken, unless the wake has woken as many as it was asked for. No wait is between its
comparison under the lock and its queue. A wait that has compared before, and whose word has changed
since, is not queued as long as the word is not changed back: it returns `EAGAIN`, or `EINTR` if a
signal is pending. -/
theorem futex_wake_finds_waits (hr : Reachable FutexWorld.IsBoot FutexWorldStep w) :
    (∀ t n, w.st.phase t = .waiting n → w.st.qs.flag n = true → ∃ key, ∃ v ∈ w.st.qs.queue key,
      v.inQueue = n) ∧
    ∀ wake r, w.lock = none → futexWakeWithMask w.st.qs wake = .ok r →
      (∀ key, ∀ v ∈ w.st.qs.queue key, w.st.qs.flag v.inQueue = true → wake.Addresses key v →
        (v ∈ r.wakeList ∧ r.qs.flag v.inQueue = false) ∨ r.woke = wake.nrWake) ∧
      (∀ t call, w.entry t ≠ .matched call) ∧
      ∀ t call, w.entry t = .compared call → w.mem call.token call.uaddr ≠ call.val →
        (∀ v, Reachable (· = w.woken r) (StepsChanged t call) v → GivesUp t call v) ∧
        ∃ v, Reachable (· = w.woken r) (StepsChanged t call) v ∧
          v.entry t = .failed (mismatchError (v.signal t)) := by
  refine ⟨fun t n _ hflag => (futexInv_of_reachable hr).queued n hflag,
    fun wake r hlock hwake => ⟨fun key v hv hflag ha => ?_, fun t call hentry => ?_,
    fun t call hentry hne => ⟨fun v hv => ?_, ?_⟩⟩⟩
  · exact woken_or_used_up (futexInv_of_reachable hr).distinct hwake hv hflag ha
  · -- it would hold the lock
    have hheld := (entryInv_of_reachable hr).holds t (by rw [hentry]; rfl)
    rw [hlock] at hheld
    cases hheld
  · cases hv with
    | start hv => exact .inl (hv ▸ hentry)
    | step _ hstep => exact GivesUp.step hstep
  · exact exists_gives_up hentry hlock hne

/-- The memory in which every word has one value. -/
def allWords (val : BitVec 32) : Nat → Nat → BitVec 32 := fun _ _ => val

/-- No one waits, and all words are zero. -/
def quietBoot : FutexWorld := ⟨.boot, allWords 0, fun _ => false, none, fun _ => .out, []⟩

/-- The private futex at `0x1000` of process 2. -/
def privateWait (val : BitVec 32) : FutexWaitCall := ⟨0x1000, val, none, toLex (2, 0x1000), 9⟩

/-- A wake of one waiter of that futex. -/
def privateWake : FutexWakeCall := ⟨toLex (2, 0x1000), 0x1000, 1, futexBitsetMatchAny, none⟩

/-- Task 1 has compared its word, and then the words have changed. -/
def changedWord : FutexWorld :=
  { quietBoot with
    mem := allWords 1
    entry := update (fun _ => .out) 1 (.compared (privateWait 0)) }

theorem reachable_quietBoot : Reachable FutexWorld.IsBoot FutexWorldStep quietBoot :=
  .start ⟨rfl, rfl, fun _ => rfl, rfl⟩

theorem reachable_changedWord : Reachable FutexWorld.IsBoot FutexWorldStep changedWord :=
  (reachable_quietBoot.step (.compare 1 (privateWait 0) rfl (.inl rfl))).step (.store (allWords 1))

/-- Task 1 has compared its word when it changes and task 2 wakes: task 1 finds the other word under
the lock, and returns. -/
theorem futex_wake_finds_waits_changed : Reachable FutexWorld.IsBoot FutexWorldStep changedWord ∧ ∃ r,
      futexWakeWithMask changedWord.st.qs privateWake = .ok r ∧
      ∃ v, Reachable (· = changedWord.woken r) (StepsChanged 1 (privateWait 0)) v ∧
        v.entry 1 = .failed (mismatchError (v.signal 1)) := by
  obtain ⟨-, hwake⟩ := futex_wake_finds_waits reachable_changedWord
  obtain ⟨-, -, hchanged⟩ := hwake privateWake _ rfl rfl
  exact ⟨reachable_changedWord, _, rfl, (hchanged 1 (privateWait 0) rfl (by decide)).2⟩

/-- A requeue of one waiter of that futex, if its word is zero. -/
def cmpRequeue : FutexRequeueCall := ⟨toLex (2, 0x1000), toLex (2, 0x2000), 0x1000, 0x2000, 9, 0, 1, some 0⟩

/-- **Two things that do not hold.** A requeue compares its word, the word changes, and a task waits
for the new value: the requeue moves it, while the word is not the expected one. And a wait whose
word has changed since it compared returns `EINTR` if a signal is pending. -/
theorem requeue_moves_later_waiter :
    (∃ w r, Reachable FutexWorld.IsBoot FutexWorldStep w ∧ w.lock = none ∧ (cmpRequeue, 0) ∈ w.requeues ∧
      w.mem 9 0x1000 = 1 ∧ futexRequeue w.st.qs cmpRequeue 0 = .ok r ∧ flags r.moved = [0]) ∧
    Reachable FutexWorld.IsBoot FutexWorldStep changedWord ∧
      ∃ v, Reachable (· = changedWord) FutexWorldStep v ∧ v.entry 1 = .failed .eintr := by
  constructor
  · have hread := reachable_quietBoot.step (.readRequeue cmpRequeue)
    have hstore := hread.step (.store (allWords 1))
    have hcompare := hstore.step (.compare 1 (privateWait 1) rfl (.inl rfl))
    have hrecheck := hcompare.step (.recheck 1 (privateWait 1) rfl rfl)
    have henqueue := hrecheck.step (.enqueue 1 (privateWait 1) none 0 rfl rfl)
    exact ⟨_, _, henqueue, rfl, mem_singleton_self _, rfl, rfl, by decide +kernel⟩
  · have hstart : Reachable (· = changedWord) FutexWorldStep changedWord := .start rfl
    have hsignal := hstart.step (.signals fun _ => true)
    have hrecheck := hsignal.step (.recheck 1 (privateWait 0) rfl rfl)
    exact ⟨reachable_changedWord, _, hrecheck.step (.report 1 rfl), rfl⟩

end Runs

end HitOS.Futex
