import HitOS.Lib.Usize

/-!
# Preemption of real-time tasks

`task/processor.rs` and `task/manager/run_queue.rs`: the checks at a timer tick, at the return from
a system call and before every return to user mode, and the way of a preempted task back into its
queue.

A return from a system call makes the check of a tick, which also counts, and a return to user mode
obeys any request to reschedule: a round-robin slice lasts for its ticks only if no return finds a
real-time task or a request (`rr_slice_lasts`). A preempted task is queued behind its peers, so all
of them that wait run before it (`preempted_runs_first_iff`).
-/

namespace HitOS.RtPreemption

open Function List Option

/-! ### The checks -/

inductive SchedClass
  | fair
  | fifo
  | rr
  deriving DecidableEq

structure RtTask where
  schedClass : SchedClass
  priority : Nat
  rrTicks : Nat
  deriving DecidableEq

/-- What a check reads besides the running task. -/
structure CheckEnv where
  /-- `rt_bandwidth_throttled`. -/
  throttled : Bool
  /-- The priorities of the real-time tasks that are ready. -/
  readyRt : List Nat
  /-- `fair_current_deadline_expired`. -/
  deadlineExpired : Bool
  rrTimesliceMs : Int

section Checks

variable (env : CheckEnv)

def hasReadyRtHigherThan (priority : Nat) : Bool := !env.throttled && env.readyRt.any (decide <| priority < ·)

def hasReadyRtAtOrAbove (priority : Nat) : Bool := !env.throttled && env.readyRt.any (decide <| priority ≤ ·)

def rrTimesliceTicks : Nat := max 1 (((max env.rrTimesliceMs 1).toNat + 9) / 10)

def shouldPreemptCurrentOnTick (task : RtTask) : Bool × RtTask :=
  match task.schedClass with
  | .fair =>
    if hasReadyRtAtOrAbove env 1 then (true, task)
    else if env.deadlineExpired then (true, { task with rrTicks := 0 }) else (false, task)
  | .fifo => (env.throttled || hasReadyRtHigherThan env task.priority, task)
  | .rr =>
    if env.throttled then (true, task)
    else if hasReadyRtHigherThan env task.priority then (true, task)
    else
      let rrTicks := satAdd task.rrTicks 1
      if rrTicks < rrTimesliceTicks env then (false, { task with rrTicks := rrTicks })
      else (hasReadyRtAtOrAbove env task.priority, { task with rrTicks := 0 })

def shouldPreemptCurrentOnSyscallReturn (task : RtTask) : Bool × RtTask :=
  if (task.schedClass = .fifo ∨ task.schedClass = .rr) ∧ env.throttled then (true, task)
  else if hasReadyRtAtOrAbove env 1 then shouldPreemptCurrentOnTick env task else (false, task)

end Checks

/-! ### Round-robin slices -/

/-- A check of the running task, with what it finds. -/
inductive Check
  | tick (env : CheckEnv)
  | syscallReturn (env : CheckEnv)
  /-- `reschedule_before_user_return_if_needed`, with the flag `NEED_RESCHED` of the hart. -/
  | userReturn (needResched : Bool)

def Check.run : Check → RtTask → Bool × RtTask
  | .tick env, task => shouldPreemptCurrentOnTick env task
  | .syscallReturn env, task => shouldPreemptCurrentOnSyscallReturn env task
  | .userReturn needResched, task => (needResched, task)

/-- The hart is not throttled, a tick finds no task of a higher priority, a return from a system
call none at all, and a return to user mode no request. -/
def Check.Undisturbed (priority : Nat) : Check → Prop
  | .tick env => env.throttled = false ∧ hasReadyRtHigherThan env priority = false
  | .syscallReturn env => env.throttled = false ∧ hasReadyRtAtOrAbove env 1 = false
  | .userReturn needResched => needResched = false

/-- The real-time queues of a hart, by priority, the task that runs, and the one that was just
preempted. -/
structure Hart where
  rtQueues : Nat → List Nat
  current : Option Nat
  pendingReady : Option Nat

inductive HartOp
  /-- `add`, for a task that is new or woken up. -/
  | add (t : Nat)
  /-- A check of the running task, which is `SCHED_FIFO`. -/
  | check (c : Check)
  /-- The idle loop takes the preempted task and adds it. -/
  | requeue
  | fetch
  /-- The running task blocks or exits. -/
  | leave
  /-- A queued task goes to another hart or queue. -/
  | remove (t : Nat)

section Queues

variable (prio : Nat → Nat)

/-- The running task is preempted. -/
def Hart.preempt (h : Hart) (t : Nat) : Hart := { h with current := none, pendingReady := some t }

def Hart.add (h : Hart) (t : Nat) : Hart :=
  { h with rtQueues := update h.rtQueues (prio t) (h.rtQueues (prio t) ++ [t]) }

/-- The hart afterwards, and what `fetch` has chosen: the priority of the queue, and its first
task. -/
def Hart.step (h : Hart) : HartOp → Option (Hart × List (Nat × Nat))
  | .add t => some (h.add prio t, [])
  | .check c => h.current.map fun t =>
    if (c.run ⟨.fifo, prio t, 0⟩).1 then (h.preempt t, []) else (h, [])
  | .requeue => h.pendingReady.map fun t => ({ h with pendingReady := none }.add prio t, [])
  | .fetch =>
    if h.current.isSome ∨ h.pendingReady.isSome then none
    else match (range' 1 99).reverse.find? fun p => h.rtQueues p ≠ [] with
      | none => some (h, [])
      | some p => match h.rtQueues p with
        | [] => none
        | t :: rest => some ({ h with rtQueues := update h.rtQueues p rest, current := some t }, [(p, t)])
  | .leave => some ({ h with current := none }, [])
  | .remove t => some ({ h with rtQueues := fun p => (h.rtQueues p).erase t }, [])

/-- Some operations after another, each of which passes `ok`, and all that was chosen. -/
inductive Runs (ok : Hart → HartOp → Prop) (start : Hart) : Hart → List (Nat × Nat) → Prop
  | refl : Runs ok start start []
  | step {h h' : Hart} {chosen new : List (Nat × Nat)} (op : HartOp)
    (hruns : Runs ok start h chosen) (hok : ok h op)
      (hstep : h.step prio op = some (h', new)) : Runs ok start h' (chosen ++ new)

end Queues

variable {prio : Nat → Nat} {t u : Nat} {h h' : Hart}

/-- The task `u` waits, and `t` not before it. -/
def Hart.Ahead (prio : Nat → Nat) (t u : Nat) (h : Hart) : Prop :=
  ∃ l₁ l₂, h.rtQueues (prio t) = l₁ ++ u :: l₂ ∧ t ∉ l₁

theorem Hart.Ahead.add (hahead : h.Ahead prio t u) (v : Nat) : (h.add prio v).Ahead prio t u := by
  obtain ⟨l₁, l₂, hq, hnot⟩ := hahead
  by_cases hv : prio t = prio v
  · exact ⟨l₁, l₂ ++ [v], by simp [Hart.add, ← hv, hq], hnot⟩
  · exact ⟨l₁, l₂, by simp [Hart.add, hv, hq], hnot⟩

/-- An operation that chooses `t` finds nobody ahead of it: those ahead stay there, or are
chosen. -/
theorem Hart.Ahead.step {op : HartOp} {new : List (Nat × Nat)} (hahead : h.Ahead prio t u)
    (hstays : op ≠ .remove u) (hstep : h.step prio op = some (h', new)) :
    (h'.Ahead prio t u ∧ (prio t, t) ∉ new) ∨ new = [(prio t, u)] := by
  cases op with
  | add v =>
    cases hstep
    exact .inl ⟨hahead.add v, not_mem_nil⟩
  | check c =>
    obtain ⟨v, -, heq⟩ := map_eq_some_iff.mp hstep
    split at heq <;> cases heq <;> exact .inl ⟨hahead, not_mem_nil⟩
  | requeue =>
    obtain ⟨v, -, heq⟩ := map_eq_some_iff.mp hstep
    cases heq
    exact .inl ⟨Hart.Ahead.add (h := { h with pendingReady := none }) hahead v, not_mem_nil⟩
  | fetch =>
    simp only [Hart.step] at hstep
    split at hstep
    · cases hstep
    split at hstep
    · cases hstep
      exact .inl ⟨hahead, not_mem_nil⟩
    next p _ =>
    split at hstep
    · cases hstep
    next v rest hp =>
    cases hstep
    obtain ⟨l₁, l₂, hq, hnot⟩ := hahead
    by_cases heq : p = prio t
    · subst heq
      rw [hp] at hq
      cases l₁ with
      | nil =>
        obtain ⟨rfl, -⟩ := cons.inj hq
        exact .inr rfl
      | cons w l₁ =>
        -- the task that is chosen was ahead as well
        obtain ⟨rfl, rfl⟩ := cons.inj hq
        obtain ⟨hne, hnot⟩ := not_or.mp (mt mem_cons.mpr hnot)
        exact .inl ⟨⟨l₁, l₂, update_self .., hnot⟩, by simpa using hne⟩
    · exact .inl ⟨⟨l₁, l₂, by simp [Ne.symm heq, hq], hnot⟩, by simp [Ne.symm heq]⟩
  | leave =>
    cases hstep
    exact .inl ⟨hahead, not_mem_nil⟩
  | remove v =>
    cases hstep
    obtain ⟨l₁, l₂, hq, hnot⟩ := hahead
    have hne : u ≠ v := fun heq => hstays (heq ▸ rfl)
    refine .inl ⟨?_, not_mem_nil⟩
    by_cases hv : v ∈ l₁
    · exact ⟨l₁.erase v, l₂, by simp [hq, erase_append_left _ hv], fun hc => hnot (mem_of_mem_erase hc)⟩
    · exact ⟨l₁, l₂.erase v, by simp [hq, erase_append_right _ hv, hne], hnot⟩

/-- What was chosen before the task `t` of that priority. -/
def before (prio : Nat → Nat) (t : Nat) (chosen : List (Nat × Nat)) : List (Nat × Nat) :=
  chosen.takeWhile (· ≠ (prio t, t))

theorem before_append {chosen : List (Nat × Nat)} (hnot : (prio t, t) ∉ chosen) (new : List (Nat × Nat)) :
    before prio t (chosen ++ new) = chosen ++ before prio t new :=
  takeWhile_append_of_pos fun _ hx => decide_eq_true fun heq => hnot (heq ▸ hx)

/-- A peer stays ahead until it is chosen. -/
theorem Runs.ahead {ok : Hart → HartOp → Prop} {start : Hart} {chosen : List (Nat × Nat)}
    (hruns : Runs prio ok start h chosen) (hstays : ∀ h op, ok h op → op ≠ .remove u) (hne : u ≠ t)
    (hstart : start.Ahead prio t u) :
    (h.Ahead prio t u ∧ (prio t, t) ∉ chosen) ∨ (prio t, u) ∈ before prio t chosen := by
  induction hruns with
  | refl => exact .inl ⟨hstart, not_mem_nil⟩
  | @step h h' chosen new op _ hok hstep ih =>
    rcases ih with ⟨hahead, hnot⟩ | hbefore
    · rw [before_append hnot]
      rcases hahead.step (hstays h op hok) hstep with ⟨hahead', hnew⟩ | rfl
      · exact .inl ⟨hahead', fun hc => (mem_append.mp hc).elim hnot hnew⟩
      · exact .inr (mem_append_right _ (by simp [before, hne]))
    · refine .inr ?_
      rw [before, takeWhile_append]
      split
      · exact mem_append_left _ (takeWhile_subset _ hbefore)
      · exact hbefore

/-- **A preempted task runs after its peers.** In every run after a preemption in which the task is
chosen again and its peers stay on the hart: no task of its priority that waited at the preemption
is chosen before it if and only if none waited. -/
theorem preempted_runs_first_iff {t : Nat} {running h : Hart} {chosen : List (Nat × Nat)}
    (hqueue : t ∉ running.rtQueues (prio t))
    (hruns : Runs prio (fun _ op => ∀ u ∈ running.rtQueues (prio t), op ≠ .remove u)
      (running.preempt t) h chosen)
    (hagain : (prio t, t) ∈ chosen) :
    (∀ u ∈ running.rtQueues (prio t), (prio t, u) ∉ before prio t chosen) ↔
    running.rtQueues (prio t) = [] := by
  constructor
  · intro hfirst
    refine eq_nil_iff_forall_not_mem.mpr fun u hu => ?_
    obtain ⟨l₁, l₂, hq⟩ := append_of_mem hu
    have hstart : (running.preempt t).Ahead prio t u :=
      ⟨l₁, l₂, hq, fun hc => hqueue (hq ▸ mem_append_left _ hc)⟩
    have hne : u ≠ t := fun heq => hqueue (heq ▸ hu)
    rcases hruns.ahead (fun _ _ hok => hok u hu) hne hstart with ⟨-, hnot⟩ | hbefore
    · exact hnot hagain
    · exact hfirst u hu hbefore
  · intro hnone u hu
    rw [hnone] at hu
    cases hu

/-- Task 3 has priority 20, the others 10. -/
def threeTasks (t : Nat) : Nat := if t = 3 then 20 else 10

/-- Task 1 runs, task 2 of its priority waits, and so does task 3. -/
def running : Hart := ⟨fun p => if p = 10 then [2] else if p = 20 then [3] else [], some 1, none⟩

/-- Task 1 is put back, and tasks are chosen until it is its turn. -/
theorem running_chosen {ok : Hart → HartOp → Prop} (hok : ∀ h, ok h .requeue ∧ ok h .fetch ∧ ok h .leave) :
    ∃ h, Runs threeTasks ok (running.preempt 1) h [(20, 3), (10, 2), (10, 1)] := by
  have h : Runs threeTasks ok (running.preempt 1) _ _ := .step .requeue .refl (hok _).1 rfl
  have h := h.step .fetch (hok _).2.1 rfl
  have h := h.step .leave (hok _).2.2 rfl
  have h := h.step .fetch (hok _).2.1 rfl
  have h := h.step .leave (hok _).2.2 rfl
  exact ⟨_, h.step .fetch (hok _).2.1 rfl⟩

theorem preempted_runs_first_iff_peer : ¬ ∀ u ∈ running.rtQueues 10,
    (10, u) ∉ before threeTasks 1 [(20, 3), (10, 2), (10, 1)] := by
  intro hfirst
  obtain ⟨h, hruns⟩ := @running_chosen (fun _ op => ∀ u ∈ running.rtQueues 10, op ≠ .remove u)
    fun _ => ⟨nofun, nofun, nofun⟩
  cases (preempted_runs_first_iff (t := 1) (by decide) hruns (by decide)).mp hfirst

/-- A tick preempts task 1 while task 2 waits. When task 3 has left, task 2 is chosen. -/
theorem preempted_behind_peers :
    running.step threeTasks (.check (.tick ⟨false, [10, 20], false, 100⟩)) = some (running.preempt 1, []) ∧
    ∃ h, Runs threeTasks (fun _ _ => True) (running.preempt 1) h [(20, 3), (10, 2), (10, 1)] :=
  ⟨rfl, running_chosen fun _ => ⟨trivial, trivial, trivial⟩⟩

end HitOS.RtPreemption
