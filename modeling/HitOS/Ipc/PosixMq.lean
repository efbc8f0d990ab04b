import HitOS.Ipc.Common
import HitOS.Lib.Blocking
import HitOS.Lib.KeepsOrder

/-!
# POSIX message queues

`syscall/posix_mq`: the loops of `mq_timedsend` and `mq_timedreceive` on one queue. A round of such
a loop is one critical section of the queue. It sends or receives, returns an error, or registers
the task, which then blocks.

A message that is sent wakes the tasks in `recv_waiters`, one that is received those in
`send_waiters`. Before that, `retain_blocked_waiters` removes the tasks whose status is not
`Blocked`. A task that has registered and is not `Blocked` yet is removed without being woken, and
then blocks on a queue that has what it waits for (`mq_loses_wakeup`). This is the only way to lose
a wakeup: `mq_no_lost_wakeup`.
-/

namespace HitOS.PosixMq

open Function Nat List Blocking Ipc

open Parking (Task Phase)
open Blocking (Outcome Next System)

/-! ### Queues -/

def mqPrioMax : Nat := 32768

structure MqMessage where
  prio : Nat
  data : List UInt8
  deriving DecidableEq

/-- `MqQueueState`. Of the registration for a notification only its owner is read here. -/
structure MqQueueState where
  maxmsg : Nat
  msgsize : Nat
  messages : List MqMessage
  recvWaiters : List Task
  sendWaiters : List Task
  pollWaiters : List Task
  notify : Option Nat

/-- The queue that `mq_open` creates. -/
def mqOpen (maxmsg msgsize : Nat) : MqQueueState := ⟨maxmsg, msgsize, [], [], [], [], none⟩

/-- What is seen of the tasks: whose status is `Blocked`, and which `retain_waitable` keeps. -/
structure MqView where
  blocked : Task → Bool
  waitable : Task → Bool

/-- `wake_all_waiters`: the tasks that are woken; the list is empty afterwards. -/
def wakeAllWaiters (view : MqView) (waiters : List Task) : List Task := waiters.filter view.blocked

/-- The place of a message: before the first one of lower priority. -/
def insertMessage (msg : MqMessage) : List MqMessage → List MqMessage
  | [] => [msg]
  | m :: rest => if m.prio < msg.prio then msg :: m :: rest else m :: insertMessage msg rest

/-- A call, with the arguments that its loop reads. -/
inductive MqCall where
  | send (prio : Nat) (data : List UInt8)
  | receive (msgLen : Nat)
  deriving DecidableEq

/-- What a round finds outside of the queue. -/
structure MqEnv where
  nonblock : Bool
  timedOut : Bool
  pendingSignal : Bool

/-- How a round ends: the call returns, with a message or without, or the task has registered. -/
inductive MqEnd where
  | returned (result : Except SyscallError (Option MqMessage))
  | parks

structure MqRound where
  state : MqQueueState
  woken : List Task
  ends : MqEnd

variable (s : MqQueueState)

/-- The loop goes on to block unless something forbids it. -/
def mqWait (registered : MqQueueState) (env : MqEnv) : MqRound :=
  if env.nonblock then ⟨s, [], .returned (.error .eagain)⟩
  else if env.timedOut then ⟨s, [], .returned (.error .etimedout)⟩
  else if env.pendingSignal then ⟨s, [], .returned (.error .eintr)⟩
  else ⟨registered, [], .parks⟩

/-- A round of `mq_timedsend`. The two checks stand before the loop; what they look at does not
change. -/
def mqTimedsend (task : Task) (prio : Nat) (data : List UInt8) (env : MqEnv)
    (view : MqView) : MqRound :=
  if prio ≥ mqPrioMax then ⟨s, [], .returned (.error .einval)⟩
  else if data.length > s.msgsize then ⟨s, [], .returned (.error .emsgsize)⟩
  else if s.messages.length < s.maxmsg then
    ⟨{ s with
        messages := insertMessage ⟨prio, data⟩ s.messages
        recvWaiters := []
        pollWaiters := []
        notify := if s.messages.isEmpty then none else s.notify },
      wakeAllWaiters view s.recvWaiters ++ s.pollWaiters.filter view.waitable, .returned (.ok none)⟩
  else mqWait s { s with sendWaiters := addWaiterOnce s.sendWaiters task } env

def mqTimedreceive (task : Task) (msgLen : Nat) (env : MqEnv) (view : MqView) : MqRound :=
  match s.messages with
  | front :: rest =>
    if msgLen < front.data.length then ⟨s, [], .returned (.error .emsgsize)⟩
    else
      ⟨{ s with messages := rest, sendWaiters := [], pollWaiters := [] },
        wakeAllWaiters view s.sendWaiters ++ s.pollWaiters.filter view.waitable, .returned (.ok (some front))⟩
  | [] => mqWait s { s with recvWaiters := addWaiterOnce s.recvWaiters task } env

def mqRound (task : Task) (call : MqCall) (env : MqEnv) (view : MqView) : MqRound :=
  match call with
  | .send prio data => mqTimedsend s task prio data env view
  | .receive msgLen => mqTimedreceive s task msgLen env view

/-! ### Runs -/

/-- What the other critical sections do: `mq_notify`, the close of a descriptor, which may remove
the registration, and the registration of a poller. -/
inductive MqAct where
  | notify (registration : Option Nat)
  | registerPollWaiter (task : Task)

/-- The queue after such a critical section. -/
def mqAct (view : MqView) : MqAct → MqQueueState
  | .notify registration => { s with notify := registration }
  | .registerPollWaiter task =>
    { s with pollWaiters := addWaiterOnce (s.pollWaiters.filter view.waitable) task }

/-- The status of the tasks. A task inside a call is `Blocked` exactly if it is switched out; one
outside may be blocked for other reasons. -/
structure ViewOf (phase : Task → Phase MqCall) (view : MqView) : Prop where
  blocked : ∀ t, (phase t).isBlocked = true → view.blocked t = true
  running : ∀ t c woken, phase t = .parking c woken → view.blocked t = false

/-- A condition on a round: the tasks and the queue before it, and its call. -/
abbrev MqCondition := (Task → Phase MqCall) → MqQueueState → MqCall → Prop

/-- How a round ends, for the scheduler. -/
def MqEnd.next (call : MqCall) : MqEnd → Next MqCall
  | .returned _ => .finish
  | .parks => .park call

/-- The critical sections of a queue that meet a condition. -/
def mqSystem (cond : MqCondition) : System MqQueueState MqCall where
  start _ := True
  attempt phase s task call o next :=
    ∃ env view, ViewOf phase view ∧ o.shared = (mqRound s task call env view).state ∧
      o.woken = (mqRound s task call env view).woken ∧ o.later = [] ∧
      next = (mqRound s task call env view).ends.next call ∧ cond phase s call
  act phase s o := ∃ act view, ViewOf phase view ∧ o = ⟨mqAct s view act, [], []⟩

/-- The states of a queue and its tasks that are reached by critical sections that meet a
condition. -/
abbrev MqReachable (cond : MqCondition) (maxmsg msgsize : Nat) : Parking.World MqQueueState MqCall → Prop :=
  Reachable (· = Parking.World.boot (mqOpen maxmsg msgsize)) (Blocking.Step (mqSystem cond))

/-- The call puts a message into the queue, or takes one out of it. -/
def MqCall.Moves : MqCall → Prop
  | .send prio data => prio < mqPrioMax ∧ data.length ≤ s.msgsize ∧ s.messages.length < s.maxmsg
  | .receive msgLen => ∃ front ∈ s.messages.head?, front.data.length ≤ msgLen

/-- **Where a wakeup cannot be lost**: no receiver is between registering and blocking when a
message is sent, and no sender when one is received. -/
def Careful (phase : Task → Phase MqCall) (s : MqQueueState) (call : MqCall) : Prop :=
  call.Moves s → match call with
    | .send _ _ => ∀ t ∈ s.recvWaiters, ∀ msgLen, phase t ≠ .parking (.receive msgLen) false
    | .receive _ => ∀ t ∈ s.sendWaiters, ∀ prio data, phase t ≠ .parking (.send prio data) false

/-! ### Why a task waits -/

/-- A task waits on its list, for a message or for room. -/
def MqHeld (t : Task) : MqCall → Prop
  | .receive _ => t ∈ s.recvWaiters ∧ s.messages = []
  | .send _ _ => t ∈ s.sendWaiters ∧ s.maxmsg ≤ s.messages.length

theorem length_insertMessage {msg : MqMessage} {messages : List MqMessage} :
    (insertMessage msg messages).length = messages.length + 1 := by
  induction messages with
  | nil => rfl
  | cons _ _ ih =>
    unfold insertMessage
    split
    · rfl
    · rw [length_cons, ih, length_cons]

/-- What a round does, by the way it ends. -/
inductive RoundCases (s : MqQueueState) (task : Task) (view : MqView) : MqCall → MqRound → Prop
  | unchanged {call : MqCall} {result : Except SyscallError (Option MqMessage)} :
      RoundCases s task view call ⟨s, [], .returned result⟩
  | sent {prio : Nat} {data : List UInt8} {s' : MqQueueState} {woken : List Task}
      (hmoves : (MqCall.send prio data).Moves s) (hsenders : s'.sendWaiters = s.sendWaiters)
      (hwoken : ∀ t ∈ s.recvWaiters, view.blocked t = true → t ∈ woken) :
      RoundCases s task view (.send prio data) ⟨s', woken, .returned (.ok none)⟩
  | received {msgLen : Nat} {front : MqMessage} {s' : MqQueueState} {woken : List Task}
      (hmoves : (MqCall.receive msgLen).Moves s) (hreceivers : s'.recvWaiters = s.recvWaiters)
      (hwoken : ∀ t ∈ s.sendWaiters, view.blocked t = true → t ∈ woken) :
      RoundCases s task view (.receive msgLen) ⟨s', woken, .returned (.ok (some front))⟩
  | registered {call : MqCall} {s' : MqQueueState} (hheld : MqHeld s' task call)
      (hmaxmsg : s'.maxmsg = s.maxmsg) (hmessages : s'.messages = s.messages)
      (hreceivers : ∀ t ∈ s.recvWaiters, t ∈ s'.recvWaiters)
      (hsenders : ∀ t ∈ s.sendWaiters, t ∈ s'.sendWaiters) :
      RoundCases s task view call ⟨s', [], .parks⟩

variable {s : MqQueueState} {task : Task} {call : MqCall} {view : MqView} {phase : Task → Phase MqCall}
  {maxmsg msgsize : Nat} {w : Parking.World MqQueueState MqCall}

section Rounds

variable {env : MqEnv}

theorem mqWait_cases {registered : MqQueueState}
    (hparks : RoundCases s task view call ⟨registered, [], .parks⟩) :
    RoundCases s task view call (mqWait s registered env) := by
  unfold mqWait
  split
  · exact .unchanged
  split
  · exact .unchanged
  · split
    · exact .unchanged
    · exact hparks

theorem mqRound_cases : RoundCases s task view call (mqRound s task call env view) := by
  cases call with
  | send prio data =>
    unfold mqRound mqTimedsend
    dsimp only
    split
    · exact .unchanged
    next hprio =>
    split
    · exact .unchanged
    next hsize =>
    split
    · next hroom =>
      exact .sent ⟨not_le.mp hprio, not_lt.mp hsize, hroom⟩ rfl fun t ht hb =>
        mem_append_left _ (mem_filter.mpr ⟨ht, hb⟩)
    · next hroom =>
      refine mqWait_cases (.registered ⟨?_, not_lt.mp hroom⟩ rfl rfl (fun _ => id) fun t ht => ?_)
      · exact mem_addWaiterOnce.mpr (.inr rfl)
      · exact mem_addWaiterOnce.mpr (.inl ht)
  | receive msgLen =>
    unfold mqRound mqTimedreceive
    cases hmessages : s.messages with
    | cons front rest =>
      dsimp only
      split
      · exact .unchanged
      · next hlen =>
        refine .received ⟨front, by rw [hmessages]; rfl, not_lt.mp hlen⟩ rfl fun t ht hb => ?_
        exact mem_append_left _ (mem_filter.mpr ⟨ht, hb⟩)
    | nil =>
      refine mqWait_cases (.registered ⟨?_, rfl⟩ rfl hmessages.symm (fun t ht => ?_) fun _ => id)
      · exact mem_addWaiterOnce.mpr (.inr rfl)
      · exact mem_addWaiterOnce.mpr (.inl ht)

end Rounds

/-! ### No lost wakeup -/

section Wakeups

variable {r : MqRound}

/-- **A round holds the waiters** it does not wake. -/
theorem RoundCases.preserves (h : RoundCases s task view call r) (hview : ViewOf phase view)
    (hcare : Careful phase s call) :
    Blocking.Preserves (fun _ => True) MqHeld phase s ⟨r.state, r.woken, []⟩ := by
  refine ⟨trivial, fun t c hwaits hwoken _ hheld => ?_⟩
  cases h with
  | unchanged => exact hheld
  | sent hmoves hsenders hwokenAll =>
    cases c with
    | send =>
      -- there was room, so no sender was waiting for it
      exact absurd hmoves.2.2 (not_lt.mpr hheld.2)
    | receive msgLen =>
      rcases hwaits with hblocked | hparking
      · exact absurd (hwokenAll t hheld.1 (hview.blocked t (by rw [hblocked]; rfl))) hwoken
      · exact absurd hparking (hcare hmoves t hheld.1 msgLen)
  | received hmoves hreceivers hwokenAll =>
    cases c with
    | send prio data =>
      rcases hwaits with hblocked | hparking
      · exact absurd (hwokenAll t hheld.1 (hview.blocked t (by rw [hblocked]; rfl))) hwoken
      · exact absurd hparking (hcare hmoves t hheld.1 prio data)
    | receive =>
      -- there was a message, so no receiver was waiting for one
      obtain ⟨front, hfront, -⟩ := hmoves
      rw [hheld.2] at hfront
      cases hfront
  | registered _ hmaxmsg hmessages hreceivers hsenders =>
    cases c with
    | send => exact ⟨hsenders t hheld.1, by rw [hmaxmsg, hmessages]; exact hheld.2⟩
    | receive => exact ⟨hreceivers t hheld.1, by rw [hmessages]; exact hheld.2⟩

/-- A task that parks is held. -/
theorem RoundCases.parks (h : RoundCases s task view call r) {call' : MqCall}
    (hnext : r.ends.next call = .park call') : MqHeld r.state task call' := by
  cases h with
  | unchanged | sent | received => cases hnext
  | registered hheld =>
    cases hnext
    exact hheld

theorem held_of_careful (h : MqReachable Careful maxmsg msgsize w) : Parking.AllHeld MqHeld w := by
  refine (held_of_reachable (I := fun _ => True) ?_ ?_ nofun trivial h).2
  · rintro phase s t c waited ⟨s', woken, later⟩ n - - ⟨env, view, hview, rfl, rfl, rfl, rfl, hcare⟩
    exact ⟨mqRound_cases.preserves hview hcare, fun _ hnext => mqRound_cases.parks hnext⟩
  · rintro phase s o - ⟨act, view, -, rfl⟩
    refine ⟨trivial, fun t c _ _ _ hheld => ?_⟩
    cases act <;> cases c <;> exact hheld

end Wakeups

/-! ### A receiver and a sender -/

section Race

variable {cond : MqCondition}

/-- Nothing keeps a call from blocking. -/
def quiet : MqEnv := ⟨false, false, false⟩

/-- The status of the tasks of a run, if the others are not blocked. -/
def viewOf (phase : Task → Phase MqCall) : MqView :=
  ⟨fun t => (phase t).isBlocked, fun t => (phase t).isBlocked⟩

theorem viewOf_spec : ViewOf phase (viewOf phase) :=
  ⟨fun _ h => h, fun _ _ _ h => congrArg Phase.isBlocked h⟩

/-- A task calls, and makes its first round. -/
theorem MqReachable.enter (h : MqReachable cond maxmsg msgsize w) (t : Task) (call : MqCall)
    (ht : w.phase t = .idle)
    (hcond : cond (update w.phase t (.trying call false)) w.shared call) :
    let phase := update w.phase t (.trying call false)
    let r := mqRound w.shared t call quiet (viewOf phase)
    MqReachable cond maxmsg msgsize
      (after (w.goto t (.trying call false)) ⟨r.state, r.woken, []⟩
        (update phase t ((r.ends.next call).phase false))) :=
  (h.step (.call t ht trivial)).step (.round (update_self ..)
    ⟨quiet, _, viewOf_spec, rfl, rfl, rfl, rfl, hcond⟩)

end Race

/-- **POSIX message queues lose no wakeup** in the runs in which no message is sent while a receiver
is between registering and blocking, and none is received while a sender is: a receiver that is
blocked finds no message, and a sender no room. -/
theorem mq_no_lost_wakeup {maxmsg msgsize : Nat} {w : Parking.World MqQueueState MqCall}
    (h : MqReachable Careful maxmsg msgsize w) {t : Task} (hl : t ∉ w.later) :
    (∀ msgLen, w.phase t = .blocked (.receive msgLen) → w.shared.messages = []) ∧
    (∀ prio data, w.phase t = .blocked (.send prio data) → w.shared.maxmsg ≤ w.shared.messages.length) := by
  have hheld := held_of_careful h
  exact ⟨fun _ hblocked => (hheld t _ (.inl hblocked) hl).2,
    fun _ _ hblocked => (hheld t _ (.inl hblocked) hl).2⟩

/-- A receiver blocks on the empty queue and is woken by a sender, after which the queue is full and
another sender blocks. -/
theorem mq_no_lost_wakeup_sender : ∃ w : Parking.World MqQueueState MqCall,
    MqReachable Careful 1 8192 w ∧ (3 : Task) ∉ w.later ∧ w.phase 1 = .ready (.receive 8192) ∧
      w.phase 3 = .blocked (.send 0 [66]) ∧ w.shared.maxmsg ≤ w.shared.messages.length := by
  have hboot : MqReachable Careful 1 8192 (Parking.World.boot (mqOpen 1 8192)) := .start rfl
  have hreceiver := (hboot.enter 1 (.receive 8192) rfl nofun).step (.switchOut (t := 1) rfl trivial)
  -- the receiver is switched out when the message is sent
  have hsent := MqReachable.enter hreceiver 2 (.send 0 [65]) rfl fun _ t ht msgLen hparking => by
    obtain rfl := mem_singleton.mp ht
    cases hparking
  have hfull := hsent.enter 3 (.send 0 [66]) rfl fun _ => nofun
  have hblocked := hfull.step (.switchOut (t := 3) rfl trivial)
  exact ⟨_, hblocked, not_mem_nil, rfl, rfl,
    (mq_no_lost_wakeup hblocked (t := 3) not_mem_nil).2 0 [66] rfl⟩

/-- **A lost wakeup.** A receiver registers on the empty queue, a message is sent, and then the
receiver blocks. -/
theorem mq_loses_wakeup : ∃ w : Parking.World MqQueueState MqCall,
    MqReachable (fun _ _ _ => True) 10 8192 w ∧ w.later = [] ∧ w.phase 1 = .blocked (.receive 8192) ∧
      w.shared.messages = [⟨0, [65]⟩] := by
  have hboot : MqReachable (fun _ _ _ => True) 10 8192 (Parking.World.boot (mqOpen 10 8192)) :=
    .start rfl
  -- the receiver is not `Blocked` yet, so it is taken off the list without being woken
  have hsent := (hboot.enter 1 (.receive 8192) rfl trivial).enter 2 (.send 0 [65]) rfl trivial
  exact ⟨_, hsent.step (.switchOut (t := 1) rfl trivial), rfl, rfl, rfl⟩

/-! ### The order of the messages -/

/-- What `mq_timedreceive` finds of the memory of its caller when it has taken a message and
released the lock: whether it can write the buffer, and the priority, if this is asked for. -/
structure MqUser where
  buffer : Bool
  prio : Bool

/-- The message gets to the caller. -/
def MqUser.copies (user : MqUser) (msg : MqMessage) : Bool := (msg.data.isEmpty || user.buffer) && user.prio

/-- What a call returns, if this round is its last one. -/
def MqEnd.result (user : MqUser) : MqEnd → Option (Except SyscallError (Option MqMessage))
  | .returned (.ok (some msg)) => some (if user.copies msg then .ok (some msg) else .error .efault)
  | .returned result => some result
  | .parks => none

/-- A queue, with the messages that were sent to it and those that callers got. -/
structure MqHistory where
  state : MqQueueState
  sent : List MqMessage
  received : List MqMessage

/-- A critical section of a queue. -/
inductive MqOp where
  | round (task : Task) (call : MqCall) (env : MqEnv) (view : MqView) (user : MqUser)
  | act (act : MqAct) (view : MqView)

def MqCall.sends : MqCall → List MqMessage
  | .send prio data => [⟨prio, data⟩]
  | .receive _ => []

def MqHistory.after (h : MqHistory) (call : MqCall) (user : MqUser) (r : MqRound) : MqHistory :=
  match r.ends.result user with
  | some (.ok msg) => ⟨r.state, h.sent ++ call.sends, h.received ++ msg.toList⟩
  | _ => { h with state := r.state }

def MqHistory.step (h : MqHistory) : MqOp → MqHistory
  | .round task call env view user => h.after call user (mqRound h.state task call env view)
  | .act act view => { h with state := mqAct h.state view act }

/-- The memory of a receiver can take the first message, if this is not too long for it. -/
def MqOp.Copies (h : MqHistory) : MqOp → Prop
  | .round _ (.receive msgLen) _ _ user =>
    ∀ front ∈ h.state.messages.head?, front.data.length ≤ msgLen → user.copies front = true
  | _ => True

/-- The histories of a queue whose critical sections meet a condition. -/
abbrev MqHistories (cond : MqHistory → MqOp → Prop) (maxmsg msgsize : Nat) : MqHistory → Prop :=
  Reachable (· = ⟨mqOpen maxmsg msgsize, [], []⟩) fun h h' => ∃ op, cond h op ∧ h' = h.step op

/-- **What holds in every history** in which the messages get to the callers. -/
structure MqOrdered (maxmsg msgsize : Nat) (h : MqHistory) : Prop where
  sizes : h.state.maxmsg = maxmsg ∧ h.state.msgsize = msgsize
  sorted : h.state.messages.Pairwise fun a b => b.prio ≤ a.prio
  room : h.state.messages.length ≤ maxmsg
  short : ∀ m ∈ h.state.messages, m.data.length ≤ msgsize
  order : KeepsOrder MqMessage.prio h.sent h.received h.state.messages

/-- What a round does to the messages, by the way it ends. -/
inductive MqEffect (s : MqQueueState) : MqCall → List MqMessage → MqEnd → Prop
  | fails {call : MqCall} {e : SyscallError} : MqEffect s call s.messages (.returned (.error e))
  | parks {call : MqCall} : MqEffect s call s.messages .parks
  | sends {prio : Nat} {data : List UInt8} (hsize : data.length ≤ s.msgsize)
      (hroom : s.messages.length < s.maxmsg) :
      MqEffect s (.send prio data) (insertMessage ⟨prio, data⟩ s.messages) (.returned (.ok none))
  | takes {msgLen : Nat} {front : MqMessage} {rest : List MqMessage} (h : s.messages = front :: rest)
      (hlen : front.data.length ≤ msgLen) :
      MqEffect s (.receive msgLen) rest (.returned (.ok (some front)))

/-- The bounds of the queue stay as they are. -/
def MqRound.Acts (s : MqQueueState) (call : MqCall) (r : MqRound) : Prop :=
  r.state.maxmsg = s.maxmsg ∧ r.state.msgsize = s.msgsize ∧ MqEffect s call r.state.messages r.ends

section Order

open List

variable {h : MqHistory} {messages : List MqMessage} {msg : MqMessage}

theorem MqEffect.front
    (h : MqEffect s call messages (.returned (.ok (some msg)))) : s.messages = msg :: messages := by
  cases h with
  | takes h _ => exact h

theorem mqWait_acts {registered : MqQueueState} (hparks : MqRound.Acts s call ⟨registered, [], .parks⟩) :
    (mqWait s registered env).Acts s call := by
  unfold mqWait
  iterate 3
    split
    · exact ⟨rfl, rfl, .fails⟩
  exact hparks

theorem mqRound_acts {task : Task} {view : MqView} : (mqRound s task call env view).Acts s call := by
  cases call with
  | send prio data =>
    unfold mqRound mqTimedsend
    dsimp only
    split
    · exact ⟨rfl, rfl, .fails⟩
    split
    · exact ⟨rfl, rfl, .fails⟩
    next hsize =>
    split
    · next hroom => exact ⟨rfl, rfl, .sends (not_lt.mp hsize) hroom⟩
    · refine mqWait_acts ?_
      exact ⟨rfl, rfl, .parks⟩
  | receive msgLen =>
    unfold mqRound mqTimedreceive
    dsimp only
    split
    · next hmessages =>
      split
      · exact ⟨rfl, rfl, .fails⟩
      · next hlen => exact ⟨rfl, rfl, .takes hmessages (not_lt.mp hlen)⟩
    · refine mqWait_acts ?_
      exact ⟨rfl, rfl, .parks⟩

/-- In a queue that is in order a message goes behind those of its priority. -/
theorem insertMessage_split (hsorted : messages.Pairwise fun a b => b.prio ≤ a.prio) :
    ∃ l₁ l₂, messages = l₁ ++ l₂ ∧ insertMessage msg messages = l₁ ++ msg :: l₂ ∧
      (∀ m ∈ l₁, msg.prio ≤ m.prio) ∧ ∀ m ∈ l₂, m.prio < msg.prio := by
  induction messages with
  | nil => exact ⟨[], [], rfl, rfl, nofun, nofun⟩
  | cons m rest ih =>
    obtain ⟨hm, hrest⟩ := pairwise_cons.mp hsorted
    unfold insertMessage
    split
    · next hlt =>
      refine ⟨[], m :: rest, rfl, rfl, nofun, forall_mem_cons.mpr ⟨hlt, fun m' hm' => ?_⟩⟩
      exact (hm m' hm').trans_lt hlt
    · next hge =>
      obtain ⟨l₁, l₂, hmessages, hinsert, hbefore, hbehind⟩ := ih hrest
      refine ⟨m :: l₁, l₂, congrArg (m :: ·) hmessages, congrArg (m :: ·) hinsert, ?_, hbehind⟩
      exact forall_mem_cons.mpr ⟨not_lt.mp hge, hbefore⟩

/-- **A critical section keeps the order.** -/
theorem MqOrdered.step (hi : MqOrdered maxmsg msgsize h) {op : MqOp} (hcopies : op.Copies h) :
    MqOrdered maxmsg msgsize (h.step op) := by
  cases op with
  | act act view => cases act <;> exact ⟨hi.sizes, hi.sorted, hi.room, hi.short, hi.order⟩
  | round task call env view user =>
  obtain ⟨hmaxmsg, hmsgsize, heffect⟩ := @mqRound_acts h.state call env task view
  change MqOrdered _ _ (h.after call user _)
  generalize mqRound h.state task call env view = r at *
  obtain ⟨⟨_, _, messages, _, _, _, _⟩, _, _⟩ := r
  obtain ⟨hsizes, hsorted, hroom, hshort, horder⟩ := hi
  have hsizes' := And.intro (hmaxmsg.trans hsizes.1) (hmsgsize.trans hsizes.2)
  cases heffect with
  | fails | parks => exact ⟨hsizes', hsorted, hroom, hshort, horder⟩
  | takes hs hlen =>
    have hfront := hcopies _ (by rw [hs]; rfl) hlen
    rw [hs] at hsorted hroom hshort horder
    unfold MqHistory.after MqEnd.result
    simp only [hfront, MqCall.sends, append_nil]
    refine ⟨hsizes', hsorted.of_cons, (le_succ _).trans hroom, fun m hm => hshort m (.tail _ hm), ?_⟩
    exact (show KeepsOrder _ _ _ ([] ++ _) from horder).take nofun
  | @sends prio data hsize hfree =>
    have hlength : (insertMessage ⟨prio, data⟩ h.state.messages).length ≤ maxmsg := by
      rw [length_insertMessage, ← hsizes.1]
      exact hfree
    obtain ⟨l₁, l₂, hl, hinsert, hbefore, hbehind⟩ := insertMessage_split hsorted
    rw [hinsert] at hlength
    rw [hl] at hsorted hshort horder
    obtain ⟨hsorted₁, hsorted₂, hacross⟩ := pairwise_append.mp hsorted
    obtain ⟨hshort₁, hshort₂⟩ := forall_mem_append.mp hshort
    unfold MqHistory.after MqEnd.result
    simp only [hinsert, Option.toList_none, append_nil]
    refine ⟨hsizes', ?_, hlength, ?_, horder.put fun m hm => (hbehind m hm).ne⟩
    · refine pairwise_append.mpr ⟨hsorted₁, pairwise_cons.mpr ⟨fun m hm => (hbehind m hm).le, hsorted₂⟩, ?_⟩
      exact fun m hm => forall_mem_cons.mpr ⟨hbefore m hm, hacross m hm⟩
    · exact forall_mem_append.mpr ⟨hshort₁, forall_mem_cons.mpr ⟨hsize.trans_eq hsizes.2, hshort₂⟩⟩

end Order

/-- **The order of the messages.** In every history of a queue in which the memory of the receivers
can be written: the messages of the queue are in the order of their priorities, no more than
`maxmsg` and none longer than `msgsize`; of each priority, those that were sent are those that
callers got and then those of the queue, in this order; and what a call takes is the first message,
which has the highest priority. -/
theorem mq_keeps_order {maxmsg msgsize : Nat} {h : MqHistory}
    (hr : MqHistories (fun h op => op.Copies h) maxmsg msgsize h) :
    (h.state.messages.Pairwise fun a b => b.prio ≤ a.prio) ∧ h.state.messages.length ≤ maxmsg ∧
    (∀ m ∈ h.state.messages, m.data.length ≤ msgsize) ∧
    (∀ prio, h.sent.filter (·.prio = prio) =
      h.received.filter (·.prio = prio) ++ h.state.messages.filter (·.prio = prio)) ∧
    ∀ task call env view msg, (mqRound h.state task call env view).ends = .returned (.ok (some msg)) →
      ∃ rest, h.state.messages = msg :: rest ∧ ∀ m ∈ rest, m.prio ≤ msg.prio := by
  have hi : MqOrdered maxmsg msgsize h := by
    refine hr.invariant (fun h hh => ?_) fun h h' hi ⟨op, hcopies, hstep⟩ => hstep ▸ hi.step hcopies
    subst hh
    exact ⟨⟨rfl, rfl⟩, .nil, zero_le _, nofun, fun _ => rfl⟩
  refine ⟨hi.sorted, hi.room, hi.short, hi.order, fun task call env view msg hends => ?_⟩
  have heffect := (@mqRound_acts h.state call env task view).2.2
  rw [hends] at heffect
  have hs := heffect.front
  exact ⟨_, hs, (pairwise_cons.mp (hs ▸ hi.sorted)).1⟩

/-- A message of priority 1 and one of priority 2 are sent, and then one is received. -/
def twoSent (user : MqUser) : MqHistory :=
  [.send 1 [65], .send 2 [66], .receive 8192].foldl
    (fun h call => h.step (.round 1 call quiet (viewOf fun _ => .idle) user)) ⟨mqOpen 10 8192, [], []⟩

theorem twoSent_reached {cond : MqHistory → MqOp → Prop} {user : MqUser}
    (hcond : ∀ h call, cond h (.round 1 call quiet (viewOf fun _ => .idle) user)) :
    MqHistories cond 10 8192 (twoSent user) :=
  .step (.step (.step (.start rfl) ⟨_, hcond .., rfl⟩) ⟨_, hcond .., rfl⟩) ⟨_, hcond .., rfl⟩

/-- The message of priority 2 is received first. -/
theorem mq_keeps_order_two : ∃ h : MqHistory, MqHistories (fun h op => op.Copies h) 10 8192 h ∧
    h.received = [⟨2, [66]⟩] ∧ h.state.messages = [⟨1, [65]⟩] ∧
    h.sent.filter (·.prio = 2) = h.received.filter (·.prio = 2) ++ h.state.messages.filter (·.prio = 2) := by
  have hr : MqHistories (fun h op => op.Copies h) 10 8192 (twoSent ⟨true, true⟩) :=
    twoSent_reached fun h call => by
      cases call with
      | send => trivial
      | receive => exact fun _ _ _ => by rw [MqUser.copies, Bool.or_true, Bool.and_true]
  exact ⟨_, hr, rfl, rfl, (mq_keeps_order hr).2.2.2.1 2⟩

/-- **A message is lost**: the buffer of the receiver cannot be written, which is found when the
message is no longer in the queue. -/
theorem mq_loses_message : ∃ h : MqHistory, MqHistories (fun _ _ => True) 10 8192 h ∧
    h.sent = [⟨1, [65]⟩, ⟨2, [66]⟩] ∧ h.received = [] ∧ h.state.messages = [⟨1, [65]⟩] :=
  ⟨twoSent ⟨false, true⟩, twoSent_reached fun _ _ => trivial, rfl, rfl, rfl⟩

end HitOS.PosixMq
