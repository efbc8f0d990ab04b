import HitOS.Ipc.MsgWakeups
import HitOS.Lib.KeepsOrder

/-!
# What message queues deliver

* `msgrcv_selects` — a round of `msgrcv` receives the message that its arguments ask for exactly if
  the type is not the least one or the queue is empty.
* `msg_conserved` — in every history of a queue, each message that was sent is in the queue or was
  delivered, once, and those of one type in the order in which they were sent. `msgrcv` removes a
  message before it copies it out, so the histories are those in which the buffers of the receivers
  can be written (`MsgOp.Copies`, `msg_lost`).
-/

namespace HitOS.Ipc

open List Option BitVec MsgState MsgrcvCall

/-! ### The message that is received -/

/-- The messages that are meant by a call: with `MSG_COPY` the one at the place that it gives as
type, and else those that match. -/
def MsgrcvCall.Qualifies (call : MsgrcvCall) (place : Nat) (m : Msg) : Prop :=
  if call.copy then place = call.msgtyp.toNat else call.Matches m

variable {call : MsgrcvCall} {queue : MsgQueue}

section Receive

theorem MsgrcvCall.seeks_iff (hmin : call.msgtyp ≠ intMin 64) {place : Nat} {m : Msg} :
    call.Seeks place m ↔ call.Qualifies place m := by
  unfold Seeks Qualifies
  split
  · exact Iff.rfl
  · exact takes_iff_matches hmin

theorem MsgrcvCall.not_copy_of_intMin (hmin : call.msgtyp = intMin 64) : ¬ call.copy = true := by
  intro hcopy
  have hchecked := call.checked
  rw [if_pos hcopy, hmin] at hchecked
  exact absurd hchecked.2.2 (by decide)

/-- Every message qualifies for the least type. -/
theorem MsgrcvCall.qualifies_intMin (hmin : call.msgtyp = intMin 64) (place : Nat) (m : Msg) :
    call.Qualifies place m := by
  unfold Qualifies
  rw [if_neg (not_copy_of_intMin hmin)]
  refine .inr (.inr ?_)
  rw [hmin]
  exact ⟨by decide, m.mtype.toInt_le.trans (by decide)⟩

/-- The least type has no negation, so no message is found for it. -/
theorem MsgrcvCall.pickIdx_intMin (hmin : call.msgtyp = intMin 64) (msgs : List Msg) :
    call.pickIdx msgs = none := by
  cases hpick : call.pickIdx msgs with
  | none => rfl
  | some idx =>
    obtain ⟨m, -, hseeks, -⟩ := pickIdx_spec hpick
    unfold Seeks Takes at hseeks
    rw [if_neg (not_copy_of_intMin hmin), hmin, if_neg (by decide), if_neg (by decide)] at hseeks
    exact absurd (m.positive.trans_le hseeks) (by decide)

/-- **What a call asks for**: if messages qualify, it is about the one that is preferred to all
others, which is too long for it, or is received and then removed, unless `MSG_COPY` is given; if
none does, it fails with `ENOMSG`, or waits, up to a signal. With `MSG_COPY` nothing changes. -/
def MsgrcvCall.Answered (call : MsgrcvCall) (queue : MsgQueue) (st : MsgState) (env : MsgEnv)
    (eff : MsgEffect MsgResult) : Prop :=
  ((∃ idx m, queue.msgs[idx]? = some m ∧ call.Qualifies idx m ∧
      (∀ j m', queue.msgs[j]? = some m' → call.Qualifies j m' → call.Prefers idx m j m') ∧
      if m.mtext.length > call.msgsz ∧ !call.noerror then eff = st.returns (.failed .e2big)
      else
        eff.ret = (if env.writable then .received m.mtype (m.mtext.take call.msgsz)
          else .failed .efault) ∧
        (eff.st.queue? call.ns call.msqid).map (·.msgs) =
          some (if call.copy then queue.msgs else queue.msgs.eraseIdx idx)) ∨
    (∀ j m, queue.msgs[j]? = some m → ¬ call.Qualifies j m) ∧ eff.ret =
      if call.nowait then .failed .enomsg else if env.signal then .failed .eintr else .blocks) ∧
    (call.copy = true → eff.st = st)

/-- **The message that is received.** On a queue that the caller may read, whatever is in it, a
round of `msgrcv` does what the call asks for if and only if the type is not the least one or the
queue is empty. -/
theorem msgrcv_selects (st : MsgState) (task : TaskId) (call : MsgrcvCall) (env : MsgEnv)
    (hqueue : st.queue? call.ns call.msqid = some queue)
    (haccess : checkIpcAccess queue.perm msgR call.cred = true) :
    call.Answered queue st env (msgrcvRound st task call env) ↔
      call.msgtyp ≠ intMin 64 ∨ queue.msgs = [] := by
  have hchecked := call.checked
  unfold msgrcvRound
  rw [hqueue]
  dsimp only
  rw [if_neg (by rw [haccess]; exact Bool.false_ne_true)]
  cases hpick : call.pickIdx queue.msgs with
  | some idx =>
    have hmin : call.msgtyp ≠ intMin 64 := fun hc => by
      rw [pickIdx_intMin hc] at hpick
      cases hpick
    refine iff_of_true ?_ (.inl hmin)
    obtain ⟨m, hm, hqual, hall⟩ := pickIdx_spec hpick
    simp only [seeks_iff hmin] at hqual hall
    dsimp only
    rw [hm]
    dsimp only
    split
    · next hlong =>
      exact ⟨.inl ⟨idx, m, hm, hqual, hall, by rw [if_pos hlong]⟩, fun _ => rfl⟩
    next hlong =>
    refine ⟨.inl ⟨idx, m, hm, hqual, hall, ?_⟩, fun hcopy => by rw [if_pos hcopy]; rfl⟩
    rw [if_neg hlong]
    by_cases hcopy : call.copy = true
    · rw [if_pos hcopy, if_pos hcopy]
      exact ⟨rfl, congrArg (Option.map _) hqueue⟩
    · rw [if_neg hcopy, if_neg hcopy]
      exact ⟨rfl, congrArg (Option.map _) queue?_putQueue_self⟩
  | none =>
    dsimp only
    constructor
    · -- all messages qualify for the least type, so it must not be that none was found
      rintro ⟨⟨idx, m, -, -, -, hres⟩ | ⟨hnone, -⟩, -⟩
      · split_ifs at hres <;> first | cases congrArg MsgEffect.ret hres | cases hres.1
      · refine or_iff_not_imp_left.mpr fun hmin => eq_nil_iff_forall_not_mem.mpr fun m hm => ?_
        obtain ⟨j, hj⟩ := mem_iff_getElem?.mp hm
        exact hnone j m hj (qualifies_intMin (not_not.mp hmin) j m)
    · intro hcond
      refine ⟨.inr ⟨fun j m hm hqual => ?_, ?_⟩, fun hcopy => ?_⟩
      · rcases hcond with hmin | hempty
        · exact not_seeks_of_pickIdx hpick hm ((seeks_iff hmin).mpr hqual)
        · rw [hempty] at hm
          cases hm
      · split
        · rfl
        split
        · rfl
        · rfl
      · rw [if_pos hcopy] at hchecked
        rw [if_pos hchecked.1]
        rfl

def oneQueue : MsgState := (msgget .boot .default 0 ⟨0, 0, [], 1⟩ 0 ⟨true, false, 0⟩ 0).st

/-- A queue with a message of type 2 and one of type 1, which are empty. -/
def twoTypes : MsgState :=
  (msgsndRound (msgsndRound oneQueue 2
    ⟨0, ⟨0, 0, [], 2⟩, 1, 2, [], false, by decide⟩ firstMsgRound).st 2 sendOne firstMsgRound).st

/-- A message of type 1. -/
def typeOne : Msg := ⟨1, [], sendOne.positive⟩

/-- All types but those above 3 qualify, and the message of type 1 is preferred, though it was sent
last. -/
theorem msgrcv_selects_lowest : ∃ idx m, (twoTypes.queue? 0 1).bind (·.msgs[idx]?) = some m ∧
      (receiveType (-3)).Prefers idx m 1 typeOne ∧
      (msgrcvRound twoTypes 1 (receiveType (-3)) firstMsgRound).ret = .received 1 [] := by
  have hqual : (receiveType (-3)).Qualifies 1 typeOne := .inr (.inr ⟨by decide, by decide⟩)
  rcases ((msgrcv_selects twoTypes 1 (receiveType (-3)) firstMsgRound rfl (by decide)).mpr
      (.inl (by decide))).1 with ⟨idx, m, hm, -, hall, -⟩ | ⟨hnone, -⟩
  · exact ⟨idx, m, hm, hall 1 typeOne rfl hqual, rfl⟩
  · exact absurd hqual (hnone 1 typeOne rfl)

/-- **The least type** finds no message: the call waits, though both messages qualify. -/
theorem msgrcv_selects_none :
    (twoTypes.queue? 0 1).map (·.msgs) = some [⟨2, [], by decide⟩, typeOne] ∧
      (receiveType (intMin 64)).Qualifies 0 ⟨2, [], by decide⟩ ∧
      (receiveType (intMin 64)).Qualifies 1 typeOne ∧
      (msgrcvRound twoTypes 1 (receiveType (intMin 64)) firstMsgRound).ret = .blocks :=
  ⟨rfl, .inr (.inr ⟨by decide, by decide⟩), .inr (.inr ⟨by decide, by decide⟩), rfl⟩

end Receive

/-! ### Histories of a queue -/

/-- The queues, with what has been sent to one of them and what receivers got from it. -/
structure MsgHistory where
  st : MsgState
  sent : List Msg
  delivered : List (BitVec 64 × List (BitVec 8))

/-- What is done with a queue. -/
inductive MsgOp where
  | snd (task : TaskId) (call : MsgsndCall) (env : MsgEnv)
  | rcv (task : TaskId) (call : MsgrcvCall) (env : MsgEnv)
  | set (cred : Cred) (ds : Option MsqidDs) (now : Int)

/-- After a round that sends. -/
def MsgHistory.afterSnd (h : MsgHistory) (call : MsgsndCall) (eff : MsgEffect MsgResult) : MsgHistory :=
  { h with
    st := eff.st
    sent := if eff.ret = .sent then h.sent ++ [⟨call.mtype, call.mtext, call.positive⟩] else h.sent }

/-- After a round that receives. With `MSG_COPY` the message is not taken. -/
def MsgHistory.afterRcv (h : MsgHistory) (call : MsgrcvCall) (eff : MsgEffect MsgResult) : MsgHistory :=
  match eff.ret with
  | .received mtype payload =>
    { h with
      st := eff.st
      delivered := if call.copy then h.delivered else h.delivered ++ [(mtype, payload)] }
  | _ => { h with st := eff.st }

def MsgHistory.step (ns msqid : Nat) (h : MsgHistory) : MsgOp → MsgHistory
  | .snd task call env => h.afterSnd call (msgsndRound h.st task call env)
  | .rcv task call env => h.afterRcv call (msgrcvRound h.st task call env)
  | .set cred ds now => { h with st := (msgctl h.st ns cred msqid (.ipcSet ds) now).st }

/-- The calls are on this queue, and there is memory for its messages. -/
def MsgOp.On (ns msqid : Nat) (h : MsgHistory) : MsgOp → Prop
  | .snd _ call _ => (call.ns, call.msqid) = (ns, msqid) ∧ ∀ queue, h.st.queue? ns msqid = some queue →
      totalBytes queue.msgs + call.mtext.length ≤ usizeMax
  | .rcv _ call _ => (call.ns, call.msqid) = (ns, msqid)
  | .set _ _ _ => True

/-- The buffer of a receiver can be written, or nothing is removed for it. -/
def MsgOp.Copies : MsgOp → Prop
  | .rcv _ call env => call.copy = true ∨ env.writable = true
  | _ => True

/-- A queue as `msgget` creates it. -/
def MsgHistory.Fresh (ns msqid : Nat) (h : MsgHistory) : Prop :=
  h.sent = [] ∧ h.delivered = [] ∧ ∃ queue, h.st.queue? ns msqid = some queue ∧ queue.msgs = [] ∧
    queue.cbytes = 0

/-- The histories of a queue whose operations meet a condition. -/
abbrev MsgHistories (cond : MsgHistory → MsgOp → Prop) (ns msqid : Nat) : MsgHistory → Prop :=
  Reachable (MsgHistory.Fresh ns msqid) fun h h' => ∃ op, op.On ns msqid h ∧ cond h op ∧
    h' = h.step ns msqid op

/-- Receivers get a message, or the first bytes of it. -/
def Got (d : BitVec 64 × List (BitVec 8)) (m : Msg) : Prop := d.1 = m.mtype ∧ d.2 <+: m.mtext

/-- **What a history keeps**, with the messages that are gone from the queue. -/
structure Conserved (ns msqid : Nat) (h : MsgHistory) (queue : MsgQueue) (gone : List Msg) : Prop where
  found : h.st.queue? ns msqid = some queue
  bytes : queue.cbytes = totalBytes queue.msgs
  order : KeepsOrder Msg.mtype h.sent gone queue.msgs
  got : Forall₂ Got h.delivered gone

section Histories

variable {ns msqid : Nat} {h : MsgHistory} {queue' : MsgQueue} {gone msgs : List Msg} {task : TaskId} {env : MsgEnv}

/-- The message that is received is the first one of its type. -/
theorem MsgrcvCall.pickIdx_first {idx : Nat} (hcopy : call.copy = false)
    (hpick : call.pickIdx msgs = some idx) :
    ∃ m l₁ l₂, msgs[idx]? = some m ∧ msgs = l₁ ++ m :: l₂ ∧ msgs.eraseIdx idx = l₁ ++ l₂ ∧
      ∀ y ∈ l₁, y.mtype ≠ m.mtype := by
  obtain ⟨m, hm, hseeks, hall⟩ := pickIdx_spec hpick
  simp only [Seeks, hcopy] at hseeks hall
  obtain ⟨hlt, rfl⟩ := List.getElem?_eq_some_iff.mp hm
  refine ⟨msgs[idx], msgs.take idx, msgs.drop (idx + 1), hm, ?_, eraseIdx_eq_take_drop_succ ..,
    fun y hy heq => ?_⟩
  · rw [getElem_cons_drop, take_append_drop]
  obtain ⟨j, hj, rfl⟩ := mem_take_iff_getElem.mp hy
  have htakes : call.Takes msgs[j] := by
    unfold Takes
    rw [heq]
    exact hseeks
  rcases hall j _ (getElem?_eq_getElem _) htakes with ⟨-, hless⟩ | ⟨-, hle⟩
  · rw [heq] at hless
    exact hless.false
  · omega

variable (hc : Conserved ns msqid h queue gone)

include hc

/-- The messages of the queue are as they were. -/
theorem Conserved.same {st : MsgState}
    (hfound : st.queue? ns msqid = some queue')
    (hsame : queue'.msgs = queue.msgs ∧ queue'.cbytes = queue.cbytes) :
    ∃ queue' gone', Conserved ns msqid { h with st := st } queue' gone' := by
  refine ⟨queue', gone, hfound, ?_, ?_, hc.got⟩
  · rw [hsame.1, hsame.2, hc.bytes]
  · rw [hsame.1]
    exact hc.order

theorem Conserved.snd {call : MsgsndCall} (hon : (MsgOp.snd task call env).On ns msqid h) :
    ∃ queue' gone', Conserved ns msqid (h.afterSnd call (msgsndRound h.st task call env)) queue' gone' := by
  obtain ⟨⟨⟩, hmax⟩ := hon
  have hle := hmax queue hc.found
  unfold msgsndRound
  rw [hc.found]
  dsimp only
  split
  · exact ⟨queue, gone, hc⟩
  split
  · refine ⟨_, gone, queue?_putQueue_self, ?_, ?_, hc.got⟩
    · rw [totalBytes_append, wrapAdd_of_le (hc.bytes ▸ hle), hc.bytes]
    · exact (append_nil queue.msgs ▸ hc.order).put (by intros; contradiction)
  split
  · exact ⟨queue, gone, hc⟩
  split
  · exact ⟨queue, gone, hc⟩
  · exact hc.same queue?_putQueue_self ⟨rfl, rfl⟩

theorem Conserved.rcv (hon : (call.ns, call.msqid) = (ns, msqid))
    (hcopies : call.copy = true ∨ env.writable = true) :
    ∃ queue' gone',
      Conserved ns msqid (h.afterRcv call (msgrcvRound h.st task call env)) queue' gone' := by
  obtain ⟨⟩ := hon
  unfold msgrcvRound
  rw [hc.found]
  dsimp only
  split
  · exact ⟨queue, gone, hc⟩
  cases hpick : call.pickIdx queue.msgs with
  | none =>
    dsimp only
    split
    · exact ⟨queue, gone, hc⟩
    split
    · exact ⟨queue, gone, hc⟩
    · exact hc.same queue?_putQueue_self ⟨rfl, rfl⟩
  | some idx =>
    obtain ⟨m, hm, -⟩ := pickIdx_spec hpick
    dsimp only
    rw [hm]
    dsimp only
    split
    · exact ⟨queue, gone, hc⟩
    unfold MsgHistory.afterRcv
    cases hcopy : call.copy with
    | true =>
      refine ⟨queue, gone, ?_⟩
      cases env.writable <;> exact hc
    | false =>
      -- the message is removed, so it is the buffer that counts
      rw [hcopies.resolve_left (by rw [hcopy]; exact Bool.false_ne_true)]
      obtain ⟨m', l₁, l₂, hm', hmsgs, herase, hfirst⟩ := pickIdx_first hcopy hpick
      obtain rfl := some.inj (hm.symm.trans hm')
      refine ⟨_, gone ++ [m], queue?_putQueue_self, ?_, ?_, ?_⟩
      · rw [totalBytes_eraseIdx hm, hc.bytes]
      · rw [herase]
        exact (hmsgs ▸ hc.order).take hfirst
      · exact rel_append hc.got (.cons ⟨rfl, take_prefix ..⟩ .nil)

end Histories

/-- **Messages are conserved.** In every history of a queue in which the buffers of the receivers
can be written, with the messages that were removed (`gone`): the queue counts the bytes of its
messages; of each type, the messages that were sent are those that are gone and then those of the
queue, in this order; and each message that is gone was delivered once, or its first bytes. -/
theorem msg_conserved {ns msqid : Nat} {h : MsgHistory}
    (hr : MsgHistories (fun _ op => op.Copies) ns msqid h) :
    ∃ queue gone, h.st.queue? ns msqid = some queue ∧ queue.cbytes = totalBytes queue.msgs ∧
      (∀ mtype, h.sent.filter (·.mtype = mtype) =
        gone.filter (·.mtype = mtype) ++ queue.msgs.filter (·.mtype = mtype)) ∧
      Forall₂ Got h.delivered gone := by
  obtain ⟨queue, gone, hc⟩ : ∃ queue gone, Conserved ns msqid h queue gone := by
    refine hr.invariant (I := fun h => ∃ queue gone, Conserved ns msqid h queue gone) ?_ ?_
    · rintro h ⟨hsent, hdelivered, queue, hfound, hmsgs, hcbytes⟩
      refine ⟨queue, [], hfound, ?_, fun _ => ?_, ?_⟩
      · rw [hcbytes, hmsgs]
        rfl
      · rw [hsent, hmsgs]
        rfl
      · rw [hdelivered]
        exact .nil
    · rintro h h' ⟨queue, gone, hc⟩ ⟨op, hon, hcopies, rfl⟩
      cases op with
      | snd => exact hc.snd hon
      | rcv => exact hc.rcv hon hcopies
      | set cred ds now =>
        unfold MsgHistory.step msgctl
        rw [hc.found]
        dsimp only
        split
        · exact ⟨queue, gone, hc⟩
        cases ds with
        | none => exact ⟨queue, gone, hc⟩
        | some => exact hc.same queue?_putQueue_self ⟨rfl, rfl⟩
  exact ⟨queue, gone, hc.found, hc.bytes, hc.order, hc.got⟩

/-- An empty message has been sent. -/
def oneSent : MsgHistory := MsgHistory.step 0 1 ⟨oneQueue, [], []⟩ (.snd 2 sendOne firstMsgRound)

/-- A task receives it, with this buffer. -/
def receiveOne (writable : Bool) : MsgOp := .rcv 1 (receiveType 1) { firstMsgRound with writable := writable }

theorem MsgHistories.one {cond : MsgHistory → MsgOp → Prop} {writable : Bool}
    (hsnd : cond ⟨oneQueue, [], []⟩ (.snd 2 sendOne firstMsgRound))
    (hrcv : cond oneSent (receiveOne writable)) :
    MsgHistories cond 0 1 (oneSent.step 0 1 (receiveOne writable)) := by
  have hfresh : MsgHistories cond 0 1 ⟨oneQueue, [], []⟩ := .start ⟨rfl, rfl, _, rfl, rfl, rfl⟩
  refine (hfresh.step ⟨.snd 2 sendOne firstMsgRound, ⟨rfl, fun queue hq => ?_⟩, hsnd, rfl⟩).step
    ⟨receiveOne writable, rfl, hrcv, rfl⟩
  obtain rfl := some.inj hq
  decide

theorem msg_conserved_one : ∃ h, MsgHistories (fun _ op => op.Copies) 0 1 h ∧ h.sent = [typeOne] ∧
    h.delivered = [(1, [])] ∧
    ∃ queue, h.st.queue? 0 1 = some queue ∧ queue.cbytes = totalBytes queue.msgs := by
  have hr : MsgHistories (fun _ op => op.Copies) 0 1 (oneSent.step 0 1 (receiveOne true)) :=
    .one trivial (.inr rfl)
  obtain ⟨queue, -, hfound, hbytes, -⟩ := msg_conserved hr
  exact ⟨_, hr, rfl, rfl, queue, hfound, hbytes⟩

/-- **A message is lost**: the buffer of the receiver cannot be written, which is found when the
message is no longer in the queue. -/
theorem msg_lost : ∃ h, MsgHistories (fun _ _ => True) 0 1 h ∧ h.sent = [typeOne] ∧ h.delivered = [] ∧
    (h.st.queue? 0 1).map (·.msgs) = some [] :=
  ⟨oneSent.step 0 1 (receiveOne false), .one trivial trivial, rfl, rfl, rfl⟩

end HitOS.Ipc
