import HitOS.Lib.Blocking

/-!
# Receiving from a netlink socket

`syscall/net/netlink.rs`: a receiver that finds no message registers in `recv_waiters` and goes on
to block. A delivery wakes only the waiters that are `Blocked` already, and takes all others off the
list as well. A receiver that is between the two then blocks with a message in the queue
(`netlink_loses_wakeup`); if no delivery comes in between, none does (`netlink_no_lost_wakeup`).
-/

namespace HitOS.Netlink

open Function Blocking
open Parking (Task Phase)

structure QueuedNetlinkMessage where
  data : List UInt8

/-- `NetlinkSocketState`, as far as messages go. Tasks that poll are left out. -/
structure NetlinkSocketState where
  messages : List QueuedNetlinkMessage
  recvWaiters : List Task
  rcvbuf : Nat
  noEnobufs : Bool
  pendingError : Nat

def eintr : Nat := 4

def eagain : Nat := 11

def enobufs : Nat := 105

/-- A call of `recv_packet_with_nsid`, by its flags. -/
structure RecvCall where
  peek : Bool
  nonblock : Bool

/-- What ends the wait: a signal, or the deadline. -/
structure RecvEnv where
  interrupted : Bool
  expired : Bool

namespace NetlinkSocketState

variable (st : NetlinkSocketState)

def canEnqueuePacket (packetLen : Nat) : Bool :=
  let queued := (st.messages.map (·.data.length)).sum
  queued == 0 || queued + packetLen ≤ st.rcvbuf

/-- One packet of `enqueue_packets_with_metadata`. -/
def enqueuePacket (packet : QueuedNetlinkMessage) : NetlinkSocketState :=
  if st.canEnqueuePacket packet.data.length then { st with messages := st.messages ++ [packet] }
  else if st.noEnobufs then st
  else { st with pendingError := enobufs }

/-- The tasks of `wake_readers`: those that `retain_blocked_waiters` leaves. -/
def wakeReaders (phase : Task → Phase RecvCall) : List Task :=
  st.recvWaiters.filter fun t => (phase t).isBlocked

def addWaiterOnce (task : Task) : NetlinkSocketState :=
  if task ∈ st.recvWaiters then st else { st with recvWaiters := st.recvWaiters ++ [task] }

def removeWaiter (task : Task) : NetlinkSocketState :=
  { st with recvWaiters := st.recvWaiters.filter (· ≠ task) }

/-- A round of `recv_packet_with_nsid`, with its result; `none` if the task goes on to block. -/
def recvRound (task : Task) (call : RecvCall) (env : RecvEnv) :
    NetlinkSocketState × Option (Except Nat QueuedNetlinkMessage) :=
  if st.pendingError ≠ 0 then ({ st with pendingError := 0 }, some (.error st.pendingError))
  else match st.messages with
    | msg :: rest => (if call.peek then st else { st with messages := rest }, some (.ok msg))
    | [] =>
      if call.nonblock then (st, some (.error eagain))
      else if env.interrupted then (st.removeWaiter task, some (.error eintr))
      else if env.expired then (st.removeWaiter task, some (.error eagain))
      else (st.addWaiterOnce task, none)

end NetlinkSocketState

/-- The other critical sections. -/
inductive NetlinkAct
  /-- `enqueue_packets_with_metadata`. -/
  | enqueue (packets : List QueuedNetlinkMessage)
  /-- `enqueue_mq_notify`, which does not look at `rcvbuf`. -/
  | mqNotify (message : QueuedNetlinkMessage)
  /-- `SO_RCVBUF`, `NETLINK_NO_ENOBUFS`. -/
  | setOptions (rcvbuf : Nat) (noEnobufs : Bool)
  /-- `SO_ERROR`. -/
  | takeError

/-- The state afterwards, and the tasks to wake. -/
def NetlinkAct.apply (st : NetlinkSocketState) (phase : Task → Phase RecvCall) :
    NetlinkAct → NetlinkSocketState × List Task
  | .enqueue [] => (st, [])
  | .enqueue packets => ({ packets.foldl .enqueuePacket st with recvWaiters := [] }, st.wakeReaders phase)
  | .mqNotify message =>
    ({ st with messages := st.messages ++ [message], recvWaiters := [] }, st.wakeReaders phase)
  | .setOptions rcvbuf noEnobufs => ({ st with rcvbuf := rcvbuf, noEnobufs := noEnobufs }, [])
  | .takeError => ({ st with pendingError := 0 }, [])

/-- A condition on the critical sections that are not rounds. -/
abbrev NetlinkCondition := (Task → Phase RecvCall) → NetlinkSocketState → NetlinkAct → Prop

def netlinkSystem (cond : NetlinkCondition) : Blocking.System NetlinkSocketState RecvCall where
  start _ := True
  attempt _ st task call o n := ∃ env, o = ⟨(st.recvRound task call env).1, [], []⟩ ∧
    n = if (st.recvRound task call env).2.isSome then .finish else .park call
  act phase st o := ∃ act : NetlinkAct, cond phase st act ∧
    o = ⟨(act.apply st phase).1, [], (act.apply st phase).2⟩

/-- A socket without messages. -/
def NetlinkSocketState.new (rcvbuf : Nat) : NetlinkSocketState := ⟨[], [], rcvbuf, false, 0⟩

abbrev NetlinkWorld := Parking.World NetlinkSocketState RecvCall

abbrev NetlinkReachable (cond : NetlinkCondition) (rcvbuf : Nat) : NetlinkWorld → Prop :=
  Reachable (· = .boot (.new rcvbuf)) (Blocking.Step (netlinkSystem cond))

/-- **Where no wakeup is lost**: no receiver is between registering and blocking when a message
comes. -/
def Careful (phase : Task → Phase RecvCall) (st : NetlinkSocketState) : NetlinkAct → Prop
  | .enqueue _ | .mqNotify _ => ∀ t ∈ st.recvWaiters, ∀ call, phase t ≠ .parking call false
  | .setOptions .. | .takeError => True

/-- What holds of a receiver that waits. -/
structure RecvHeld (st : NetlinkSocketState) (t : Task) (_ : RecvCall) : Prop where
  empty : st.messages = []
  quiet : st.pendingError = 0
  waiter : t ∈ st.recvWaiters

section Wakeups

open List NetlinkSocketState

variable {st : NetlinkSocketState} {phase : Task → Phase RecvCall} {t task : Task} {call c : RecvCall} {env : RecvEnv}
  {rcvbuf : Nat} {w : NetlinkWorld}

/-- A round of another receiver finds nothing either. -/
theorem RecvHeld.round (h : RecvHeld st t c) (hne : t ≠ task) :
    RecvHeld (st.recvRound task call env).1 t c := by
  obtain ⟨hempty, hquiet, hmem⟩ := h
  have hrest : t ∈ (st.removeWaiter task).recvWaiters := mem_filter.mpr ⟨hmem, decide_eq_true hne⟩
  simp only [recvRound, hquiet, hempty]
  split_ifs
  · contradiction
  · exact ⟨hempty, hquiet, hmem⟩
  · exact ⟨hempty, hquiet, hrest⟩
  · exact ⟨hempty, hquiet, hrest⟩
  · unfold addWaiterOnce
    split
    · exact ⟨hempty, hquiet, hmem⟩
    · exact ⟨hempty, hquiet, mem_append_left _ hmem⟩

/-- A receiver blocks on an empty queue. -/
theorem recvHeld_of_round (h : (st.recvRound task call env).2 = none) :
    RecvHeld (st.recvRound task call env).1 task call := by
  unfold recvRound at h ⊢
  split at h
  · cases h
  next hquiet =>
  split at h
  · cases h
  next hempty =>
  split_ifs at h with h1 h2 h3
  rw [if_neg hquiet, if_neg h1, if_neg h2, if_neg h3]
  unfold addWaiterOnce
  split
  · next hmem => exact ⟨hempty, not_not.mp hquiet, hmem⟩
  · exact ⟨hempty, not_not.mp hquiet, mem_append_right _ (mem_singleton_self _)⟩

/-- A delivery wakes all receivers that wait, if they are blocked. -/
theorem RecvHeld.act {act : NetlinkAct} (h : RecvHeld st t c) (hwaits : (phase t).Waits c)
    (hcare : Careful phase st act)
    (hwoken : t ∉ (act.apply st phase).2) : RecvHeld (act.apply st phase).1 t c := by
  have hwake (hcare : ∀ t ∈ st.recvWaiters, ∀ call, phase t ≠ .parking call false) :
    t ∈ st.wakeReaders phase := by
    have hblocked := hwaits.resolve_right (hcare t h.waiter c)
    exact mem_filter.mpr ⟨h.waiter, by rw [hblocked]; rfl⟩
  cases act with
  | enqueue packets =>
    cases packets with
    | nil => exact h
    | cons => exact absurd (hwake hcare) hwoken
  | mqNotify => exact absurd (hwake hcare) hwoken
  | setOptions => exact ⟨h.empty, h.quiet, h.waiter⟩
  | takeError => exact ⟨h.empty, rfl, h.waiter⟩

/-- **Netlink loses no wakeup** while no delivery comes between registering and blocking. -/
theorem netlink_no_lost_wakeup (hr : NetlinkReachable Careful rcvbuf w) (hl : t ∉ w.later)
    (hblocked : w.phase t = .blocked c) : w.shared.messages = [] ∧ w.shared.pendingError = 0 := by
  have hheld : Parking.AllHeld RecvHeld w := by
    refine (held_of_reachable (I := fun _ => True) ?_ ?_ nofun trivial hr).2
    · rintro phase st task call waited _ _ - ht ⟨env, rfl, rfl⟩
      refine ⟨⟨trivial, fun t c hwaits _ _ h => h.round ?_⟩, fun c' hpark => ?_⟩
      · rintro rfl
        rw [ht] at hwaits
        rcases hwaits with h | h <;> cases h
      · split at hpark
        · cases hpark
        · next hnone =>
          cases hpark
          exact recvHeld_of_round (by simpa using hnone)
    · rintro phase st _ - ⟨act, hcare, rfl⟩
      exact ⟨trivial, fun t c hwaits _ hwoken h => h.act hwaits hcare hwoken⟩
  obtain ⟨hempty, hquiet, -⟩ := hheld t c (.inl hblocked) hl
  exact ⟨hempty, hquiet⟩

/-- A call with no flag. -/
def blockingRecv : RecvCall := ⟨false, false⟩

/-- A receiver has found nothing and registered. -/
def registered : NetlinkWorld :=
  after (.boot (.new 1000)) ⟨⟨[], [1], 1000, false, 0⟩, [], []⟩
    (update (update (fun _ => .idle) 1 (.trying blockingRecv false)) 1 (.parking blockingRecv false))

theorem registered_reachable {cond : NetlinkCondition} : NetlinkReachable cond 1000 registered := by
  have hboot : NetlinkReachable cond 1000 (.boot (.new 1000)) := .start rfl
  exact enter (c := blockingRecv) (n := .park blockingRecv) hboot 1 rfl trivial ⟨⟨false, false⟩, rfl, rfl⟩

/-- It blocks on the empty queue, is woken by a message and receives it, and blocks again. -/
theorem netlink_no_lost_wakeup_empty : ∃ w : NetlinkWorld, NetlinkReachable Careful 1000 w ∧
    w.phase 1 = .blocked blockingRecv ∧ w.shared.messages = [] ∧ w.shared.pendingError = 0 := by
  have hparked : NetlinkReachable Careful 1000 registered := registered_reachable
  have hblocked := hparked.step (.switchOut (t := 1) rfl trivial)
  have hsent := hblocked.step (.act ⟨.enqueue [⟨[1]⟩], fun t ht call => by
    obtain rfl := mem_singleton.mp ht
    exact nofun, rfl⟩)
  have hlater : [1] = [] ++ 1 :: ([] : List Task) := rfl
  have hready := (hsent.step (.deliver hlater)).step (.resume (t := 1) rfl)
  have hreceived := hready.step (.round (t := 1) (n := .finish) rfl ⟨⟨false, false⟩, rfl, rfl⟩)
  have hagain := enter (c := blockingRecv) (n := .park blockingRecv) hreceived 1 rfl trivial
    ⟨⟨false, false⟩, rfl, rfl⟩
  have hout := hagain.step (.switchOut (t := 1) rfl trivial)
  exact ⟨_, hout, rfl, netlink_no_lost_wakeup hout (t := 1) not_mem_nil rfl⟩

/-- **A lost wakeup.** The message comes before it blocks. -/
theorem netlink_loses_wakeup : ∃ w, NetlinkReachable (fun _ _ _ => True) 1000 w ∧ w.later = [] ∧
    w.phase 1 = .blocked blockingRecv ∧ w.shared.messages = [⟨[1]⟩] :=
  ⟨_, (registered_reachable.step (.act ⟨.enqueue [⟨[1]⟩], trivial, rfl⟩)).step
    (.switchOut (t := 1) rfl trivial), rfl, rfl, rfl⟩

end Wakeups

end HitOS.Netlink
