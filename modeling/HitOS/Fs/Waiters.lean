import HitOS.Lib.Parking

/-!
# Waiting tasks of a file

`fs/mod.rs`: the `PollWaitQueue`, and the lists of waiting readers and writers as pipes and timers
have them. Both hold weak references to tasks. A list of readers or writers keeps the tasks that
still exist; the queue of pollers also drops those whose status is `Ready`.
-/

namespace HitOS.Waiters

open List

open Parking (Task Phase)

universe v

/-- What the lists of waiters depend on: the tasks whose weak references can be upgraded, and those
that `retain_waitable` keeps. -/
structure TaskView where
  upgrade : Task → Bool
  waitable : Task → Bool

variable (view : TaskView)

/-- A task is put on a list of readers or writers, once. -/
def pushWaiter (task : Task) (waiters : List Task) : List Task :=
  let waiters := waiters.filter view.upgrade
  if task ∈ waiters then waiters else waiters ++ [task]

/-- All tasks of a list of readers or writers. -/
def drainWaiters (waiters : List Task) : List Task := waiters.filter view.upgrade

/-- `add_waiter_once` of the queue of pollers. -/
def addPollWaiterOnce (task : Task) (waiters : List Task) : List Task :=
  let waiters := waiters.filter view.waitable
  if task ∈ waiters then waiters else waiters ++ [task]

def takeWakeups (waiters : List Task) : List Task := waiters.filter view.waitable

/-- What is seen of the tasks. A task that has not exited exists, and one that is blocked, or goes
on to block, is kept by `retain_waitable`; an exited task may exist for a while. -/
structure ViewOf {κ : Type v} (phase : Task → Phase κ) (view : TaskView) : Prop where
  upgrade : ∀ t, (phase t).alive = true → view.upgrade t = true
  waitable : ∀ t c, (phase t).Waits c → view.waitable t = true

section Lists

variable {view : TaskView} {task t : Task} {ws : List Task}

theorem mem_pushWaiter_self : task ∈ pushWaiter view task ws := by
  unfold pushWaiter
  dsimp only
  split
  · assumption
  · exact mem_append_right _ (mem_singleton_self _)

theorem mem_pushWaiter (ht : t ∈ ws) (hup : view.upgrade t = true) : t ∈ pushWaiter view task ws := by
  have hmem : t ∈ ws.filter view.upgrade := mem_filter.mpr ⟨ht, hup⟩
  unfold pushWaiter
  dsimp only
  split
  · exact hmem
  · exact mem_append_left _ hmem

theorem not_mem_of_drain_nil (h : drainWaiters view ws = []) (hup : view.upgrade t = true) : t ∉ ws := by
  intro ht
  have hmem : t ∈ drainWaiters view ws := mem_filter.mpr ⟨ht, hup⟩
  rw [h] at hmem
  cases hmem

theorem mem_addPollWaiterOnce_self : task ∈ addPollWaiterOnce view task ws :=
  @mem_pushWaiter_self ⟨view.waitable, view.waitable⟩ task ws

theorem mem_addPollWaiterOnce (ht : t ∈ ws) (hwait : view.waitable t = true) :
    t ∈ addPollWaiterOnce view task ws :=
  @mem_pushWaiter ⟨view.waitable, view.waitable⟩ task t ws ht hwait

end Lists

end HitOS.Waiters
