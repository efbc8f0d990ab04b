import HitOS.Ipc.Msg
import HitOS.Lib.Blocking

/-!
# Wakeups of message queues

The rounds of `msgsnd` and `msgrcv` and the other calls on message queues, interleaved with the
scheduler (`Blocking.Step msgSystem`).

* `pickIdx_spec`, `not_seeks_of_pickIdx` — a receiver finds the message it prefers, or none of those
  it takes (`MsgrcvCall.Takes`), which is what its selector says (`MsgrcvCall.Matches`) for all
  types but the least one.
* `msgget_cases`, `msgctl_cases`, `msgsndRound_cases`, `msgrcvRound_cases` — what a call can do.
* `MsgQueue.Holds` — why a task in a queue of waiters has to wait; every call keeps it for the tasks
  that it does not wake.
* `msg_no_lost_wakeup` — a blocked task with no wakeup under way has a queue, without a message for
  it to receive, or without room for the one it sends.
* `least_type_blocks` — the exception: the least `isize` has no negation, so a receiver of that type
  takes nothing.
-/

namespace HitOS.Ipc

open List Option Parking Blocking BitVec MsgState MsgrcvCall OrdMap

/-! ### What a receiver takes -/

/-- The selector of a receiver: any message for zero; for a positive number that type, or with
`MSG_EXCEPT` every other one; for a negative number every type up to its absolute value. -/
def MsgrcvCall.Matches (call : MsgrcvCall) (m : Msg) : Prop :=
  call.msgtyp.toInt = 0 ∨
    (0 < call.msgtyp.toInt ∧ if call.except then m.mtype ≠ call.msgtyp else m.mtype = call.msgtyp) ∨
    (call.msgtyp.toInt < 0 ∧ m.mtype.toInt ≤ call.msgtyp.toInt.natAbs)

/-- The messages that `pick_idx` looks for. -/
def MsgrcvCall.Takes (call : MsgrcvCall) (m : Msg) : Prop :=
  if call.msgtyp = 0 then True
  else if 0 < call.msgtyp.toInt then
    if call.except then m.mtype ≠ call.msgtyp else m.mtype = call.msgtyp
  else m.mtype.toInt ≤ (-call.msgtyp).toInt

/-- The same with their places: with `MSG_COPY` it is the place that is given. -/
def MsgrcvCall.Seeks (call : MsgrcvCall) (place : Nat) (m : Msg) : Prop :=
  if call.copy then place = call.msgtyp.toNat else call.Takes m

variable {m : Msg} {msgs : List Msg} {st : MsgState} {ns msqid : Nat} {queue : MsgQueue} {task : TaskId}

section Selection

variable {call : MsgrcvCall} {α : Type} {key : α → Int} {l : List α}

theorem minByKey_eq_none : minByKey key l = none ↔ l = [] := by
  cases l <;> simp [minByKey]

/-- **The first of the least**: what is before it has a greater key, and what is behind it none that
is less. -/
theorem minByKey_split {x : α} (h : minByKey key l = some x) :
    ∃ l₁ l₂, l = l₁ ++ x :: l₂ ∧ (∀ y ∈ l₁, key x < key y) ∧ ∀ y ∈ l₂, key x ≤ key y := by
  cases l with
  | nil => cases h
  | cons y l =>
  replace h := some.inj h
  induction l generalizing y with
  | nil => exact ⟨[], [], h ▸ rfl, nofun, nofun⟩
  | cons z l ih =>
    rw [foldl_cons] at h
    split at h
    · next hlt =>
      obtain ⟨l₁, l₂, hl, hbefore, hafter⟩ := ih z h
      refine ⟨y :: l₁, l₂, congrArg (y :: ·) hl, forall_mem_cons.mpr ⟨?_, hbefore⟩, hafter⟩
      -- the least of the others is not above the first of them
      cases l₁ with
      | nil => rwa [← (cons.inj hl).1]
      | cons => exact ((cons.inj hl).1 ▸ hbefore _ (.head _)).trans hlt
    · next hge =>
      obtain ⟨l₁, l₂, hl, hbefore, hafter⟩ := ih y h
      cases l₁ with
      | nil =>
        obtain ⟨rfl, rfl⟩ := cons.inj hl
        exact ⟨[], z :: l, rfl, nofun, forall_mem_cons.mpr ⟨not_lt.mp hge, hafter⟩⟩
      | cons _ l₁ =>
        obtain ⟨rfl, rfl⟩ := cons.inj hl
        obtain ⟨hy, hbefore⟩ := forall_mem_cons.mp hbefore
        refine ⟨y :: z :: l₁, l₂, rfl, forall_mem_cons.mpr ⟨hy, forall_mem_cons.mpr ⟨?_, hbefore⟩⟩, hafter⟩
        exact hy.trans_le (not_lt.mp hge)

theorem toInt_eq_zero_iff {x : BitVec 64} : x.toInt = 0 ↔ x = 0 := by
  rw [← toInt_inj, ofNat_eq_ofNat, toInt_zero]

/-- **The selector** is what the code looks for, unless the negation of the type wraps. -/
theorem MsgrcvCall.takes_iff_matches (h : call.msgtyp ≠ intMin 64) : call.Takes m ↔ call.Matches m := by
  unfold Takes Matches
  rw [toInt_eq_zero_iff]
  by_cases hzero : call.msgtyp = 0
  · simp [hzero]
  have hne : call.msgtyp.toInt ≠ 0 := fun hc => hzero (toInt_eq_zero_iff.mp hc)
  rw [if_neg hzero, or_iff_right hzero]
  by_cases hpos : 0 < call.msgtyp.toInt
  · rw [if_pos hpos, or_iff_left fun hc => absurd hc.1 (not_lt.mpr hpos.le), and_iff_right hpos]
  · have hneg : call.msgtyp.toInt < 0 := by omega
    rw [if_neg hpos, or_iff_right fun hc => hpos hc.1, and_iff_right hneg,
      Int.ofNat_natAbs_of_nonpos hneg.le, toInt_neg_of_ne_intMin h]

/-- **A receiver finds nothing** only if the queue has no message that it seeks. -/
theorem MsgrcvCall.not_seeks_of_pickIdx (h : call.pickIdx msgs = none) {j : Nat} (hm : msgs[j]? = some m) :
    ¬ call.Seeks j m := by
  have hmem := mem_of_getElem? hm
  unfold Seeks Takes
  unfold pickIdx at h
  rw [if_neg fun hc => by simp [isEmpty_iff.mp hc] at hm] at h
  split_ifs at h ⊢ with hcopy hlt hzero hpos hexcept
  · rintro rfl
    exact hlt (List.getElem?_eq_some_iff.mp hm).1
  · exact of_decide_eq_false (findIdx?_eq_none_iff.mp h m hmem)
  · exact of_decide_eq_false (findIdx?_eq_none_iff.mp h m hmem)
  · rw [map_eq_none_iff, minByKey_eq_none, filter_eq_nil_iff] at h
    simpa using h (m, j) (mk_mem_zipIdx_iff_getElem?.mpr hm)

/-- Of two messages that a receiver takes, the one it prefers: for a negative number the one of the
lower type, and else the one that was sent first. -/
def MsgrcvCall.Prefers (call : MsgrcvCall) (place : Nat) (m : Msg) (place' : Nat) (m' : Msg) : Prop :=
  (call.msgtyp.toInt < 0 ∧ m.mtype.toInt < m'.mtype.toInt) ∨
    ((call.msgtyp.toInt < 0 → m.mtype = m'.mtype) ∧ place ≤ place')

/-- The first message that passes a test. -/
theorem findIdx?_first {test : Msg → Bool} {idx : Nat} (h : msgs.findIdx? test = some idx) :
    ∃ m, msgs[idx]? = some m ∧ test m = true ∧
      ∀ j m', msgs[j]? = some m' → test m' = true → idx ≤ j := by
  obtain ⟨hlt, htest, hbefore⟩ := findIdx?_eq_some_iff_getElem.mp h
  refine ⟨msgs[idx], getElem?_eq_getElem hlt, htest, fun j m' hm' htest' => not_lt.mp fun hj => ?_⟩
  obtain ⟨_, rfl⟩ := List.getElem?_eq_some_iff.mp hm'
  exact hbefore j hj htest'

/-- The first message of the least type among those up to a bound. -/
theorem minByKey_first {bound : Int} {i : Nat}
    (h : minByKey (·.1.mtype.toInt) (msgs.zipIdx.filter (·.1.mtype.toInt ≤ bound)) = some (m, i)) :
    msgs[i]? = some m ∧ m.mtype.toInt ≤ bound ∧
      ∀ j m', msgs[j]? = some m' → m'.mtype.toInt ≤ bound →
        m.mtype.toInt < m'.mtype.toInt ∨ m.mtype = m'.mtype ∧ i ≤ j := by
  have hplaces : msgs.zipIdx.Pairwise fun a b => a.2 < b.2 := by
    rw [← pairwise_map, zipIdx_map_snd]
    exact pairwise_lt_range' 1
  obtain ⟨l₁, l₂, hsplit, hbefore, hafter⟩ := minByKey_split h
  have hlater := (pairwise_append.mp (hsplit ▸ hplaces.filter _)).2.1
  have hcand (m' : Msg) (j : Nat) : (m', j) ∈ l₁ ++ (m, i) :: l₂ ↔
      msgs[j]? = some m' ∧ m'.mtype.toInt ≤ bound := by
    rw [← hsplit, mem_filter, mk_mem_zipIdx_iff_getElem?, decide_eq_true_iff]
  obtain ⟨hm, hle⟩ := (hcand m i).mp (mem_append_right _ (.head _))
  refine ⟨hm, hle, fun j m' hm' hle' => ?_⟩
  rcases mem_append.mp ((hcand m' j).mpr ⟨hm', hle'⟩) with hmem | hmem
  · exact .inl (hbefore _ hmem)
  rcases mem_cons.mp hmem with heq | hmem
  · cases heq
    exact .inr ⟨rfl, le_rfl⟩
  · rcases (hafter _ hmem).lt_or_eq with hlt | heq
    · exact .inl hlt
    · exact .inr ⟨toInt_inj.mp heq, (rel_of_pairwise_cons hlater hmem).le⟩

/-- **The place that is picked** is the one of the message that is preferred to all. -/
theorem MsgrcvCall.pickIdx_spec {idx : Nat} (h : call.pickIdx msgs = some idx) :
    ∃ m, msgs[idx]? = some m ∧ call.Seeks idx m ∧
      ∀ j m', msgs[j]? = some m' → call.Seeks j m' → call.Prefers idx m j m' := by
  have hchecked := call.checked
  unfold pickIdx at h
  unfold Seeks
  split at h
  · cases h
  next hne =>
  split at h
  · next hcopy =>
    split at h
    · next hlt =>
      obtain rfl := some.inj h
      simp only [if_pos hcopy] at hchecked ⊢
      refine ⟨msgs[_], getElem?_eq_getElem hlt, trivial, fun j _ _ hj => .inr ⟨fun hneg => ?_, hj.ge⟩⟩
      exact absurd hneg (not_lt.mpr hchecked.2.2)
    · cases h
  next hcopy =>
  simp only [if_neg hcopy]
  unfold Takes Prefers
  split at h
  · next hzero =>
    obtain rfl := some.inj h
    obtain ⟨m, l, rfl⟩ := exists_cons_of_ne_nil fun hc => hne (isEmpty_iff.mpr hc)
    refine ⟨m, rfl, by rw [if_pos hzero]; trivial, fun _ _ _ _ => .inr ⟨fun hneg => ?_, Nat.zero_le _⟩⟩
    rw [hzero] at hneg
    cases hneg
  next hzero =>
  simp only [if_neg hzero]
  split at h
  · next hpos =>
    simp only [if_pos hpos]
    split at h
    all_goals
      next hexcept =>
      obtain ⟨m, hm, htest, hle⟩ := findIdx?_first h
      simp only [hexcept]
      refine ⟨m, hm, of_decide_eq_true htest, fun j m' hm' ht => .inr ⟨fun hneg => ?_, ?_⟩⟩
      · exact absurd hneg (not_lt.mpr hpos.le)
      · exact hle j m' hm' (decide_eq_true ht)
  · next hneg =>
    have hneg : call.msgtyp.toInt < 0 :=
      lt_of_le_of_ne (not_lt.mp hneg) fun hc => hzero (toInt_eq_zero_iff.mp hc)
    rw [map_eq_some_iff] at h
    obtain ⟨⟨m, i⟩, hmin, rfl⟩ := h
    obtain ⟨hm, htakes, hfirst⟩ := minByKey_first hmin
    simp only [if_neg (not_lt.mpr hneg.le)]
    refine ⟨m, hm, htakes, fun j m' hm' ht => ?_⟩
    exact (hfirst j m' hm' ht).imp (⟨hneg, ·⟩) (.imp_left fun heq _ => heq)

end Selection

/-! ### What the calls do -/

section Cases

variable {mgr : MsgManager} {cred : Cred} {now : Int} {env : MsgEnv}

/-- At one identifier of one namespace there is this queue now, or none; everything else stays. -/
def MsgState.Replaces (st st' : MsgState) (ns msqid : Nat) (queue : Option MsgQueue) : Prop :=
  ∀ ns' msqid', st'.queue? ns' msqid' = if ns' = ns ∧ msqid' = msqid then queue else st.queue? ns' msqid'

theorem MsgState.replaces_putManager {queue : Option MsgQueue}
    (hget : ∀ id, mgr.queues.get? id = if id = msqid then queue else (st.managers ns).queues.get? id) :
    st.Replaces (st.putManager ns mgr) ns msqid queue := by
  intro ns' _
  unfold putManager queue?
  dsimp only
  rw [Function.update_apply]
  by_cases hns : ns' = ns
  · subst hns
    simp [hget]
  · rw [if_neg hns, if_neg fun h => hns h.1]

theorem MsgState.replaces_putQueue : st.Replaces (st.putQueue ns msqid queue) ns msqid (some queue) :=
  replaces_putManager fun _ => get?_insert

theorem MsgState.queue?_putQueue_self : (st.putQueue ns msqid queue).queue? ns msqid = some queue := by
  rw [replaces_putQueue, if_pos ⟨rfl, rfl⟩]

/-- `msgget` finds or refuses, or creates an empty queue under an identifier that is not in use. -/
inductive MsggetCase (st : MsgState) (ns : Nat) : MsgEffect (Except SyscallError Nat) → Prop
  | unchanged (ret : Except SyscallError Nat) : MsggetCase st ns (st.returns ret)
  | created {id : Nat} {queue : MsgQueue} {mgr : MsgManager} (hfree : st.queue? ns id = none)
      (hqueues : mgr.queues = (st.managers ns).queues.insert id queue)
      (hempty : queue.msgs = [] ∧ queue.cbytes = 0) :
      MsggetCase st ns ⟨st.putManager ns mgr, [], [], .ok id⟩

theorem msgget_cases {limits : MsgLimits} {key : BitVec 64} {flags : MsggetFlags} :
    MsggetCase st ns (msgget st limits ns cred key flags now) := by
  unfold msgget
  dsimp only
  split
  · iterate 3
      split
      · exact .unchanged _
    exact .unchanged _
  · split
    · exact .unchanged _
    split
    · exact .unchanged _
    next _ =>
    have hlimit := (limits.bounded limits.msgmni (by simp)).2
    have hfree : (st.managers ns).queues.get? (st.managers ns).allocId.2 = none :=
      nextFree_unused (st.managers ns).queues _ (by unfold usizeMax; omega)
    exact .created hfree rfl ⟨rfl, rfl⟩

/-- `msgctl` fails, removes the queue, or sets the room it has. -/
inductive MsgctlCase (st : MsgState) (ns msqid : Nat) : MsgEffect (Except SyscallError Nat) → Prop
  | failed (e : SyscallError) : MsgctlCase st ns msqid (st.returns (.error e))
  | removed {queue : MsgQueue} {mgr : MsgManager} (hqueue : st.queue? ns msqid = some queue)
      (hqueues : mgr.queues = (st.managers ns).queues.erase msqid) :
      MsgctlCase st ns msqid ⟨st.putManager ns mgr, [], queue.recvWaiters ++ queue.sendWaiters, .ok 0⟩
  | resized {queue queue' : MsgQueue} (hqueue : st.queue? ns msqid = some queue)
      (hsame : queue'.msgs = queue.msgs ∧ queue'.cbytes = queue.cbytes ∧
        queue'.recvWaiters = queue.recvWaiters) :
      MsgctlCase st ns msqid ⟨st.putQueue ns msqid queue', queue.sendWaiters, [], .ok 0⟩

theorem msgctl_cases {cmd : MsgCmd} : MsgctlCase st ns msqid (msgctl st ns cred msqid cmd now) := by
  unfold msgctl
  cases hqueue : st.queue? ns msqid with
  | none => exact .failed _
  | some queue =>
  dsimp only
  split
  · exact .failed _
  cases cmd with
  | ipcRmid =>
    unfold MsgManager.removeQueue
    rw [show (st.managers ns).queues.get? msqid = some queue from hqueue]
    exact .removed hqueue rfl
  | ipcSet ds =>
    cases ds with
    | none => exact .failed _
    | some => exact .resized hqueue ⟨rfl, rfl, rfl⟩

/-- A round of `msgsnd` fails, appends its message if there is room, or queues its task if there is
not. -/
inductive MsgsndCase (st : MsgState) (task : TaskId) (call : MsgsndCall) : MsgEffect MsgResult → Prop
  | failed (e : SyscallError) : MsgsndCase st task call (st.returns (.failed e))
  | sent {queue queue' : MsgQueue} (hqueue : st.queue? call.ns call.msqid = some queue)
      (hfits : satAdd queue.cbytes call.mtext.length ≤ queue.qbytes)
      (hmsgs : queue'.msgs = queue.msgs ++ [⟨call.mtype, call.mtext, call.positive⟩])
      (hcbytes : queue'.cbytes = wrapAdd queue.cbytes call.mtext.length)
      (hsame : queue'.qbytes = queue.qbytes ∧ queue'.sendWaiters = queue.sendWaiters) :
      MsgsndCase st task call ⟨st.putQueue call.ns call.msqid queue', queue.recvWaiters, [], .sent⟩
  | blocked {queue : MsgQueue} (hqueue : st.queue? call.ns call.msqid = some queue)
      (hfull : ¬ satAdd queue.cbytes call.mtext.length ≤ queue.qbytes) :
      MsgsndCase st task call ⟨st.putQueue call.ns call.msqid
        { queue with sendWaiters := addWaiterOnce queue.sendWaiters task }, [], [], .blocks⟩

theorem msgsndRound_cases {call : MsgsndCall} : MsgsndCase st task call (msgsndRound st task call env) := by
  unfold msgsndRound
  cases hqueue : st.queue? call.ns call.msqid with
  | none => exact .failed _
  | some =>
  dsimp only
  split
  · exact .failed _
  split
  · next hfits => exact .sent hqueue hfits rfl rfl ⟨rfl, rfl⟩
  next hfull =>
  split
  · exact .failed _
  split
  · exact .failed _
  · exact .blocked hqueue hfull

/-- A round of `msgrcv` leaves the queue as it is, takes a message out of it, or queues its task if
there is none for it. -/
inductive MsgrcvCase (st : MsgState) (task : TaskId) (call : MsgrcvCall) : MsgEffect MsgResult → Prop
  | unchanged (ret : MsgResult) (hret : ret ≠ .blocks ∧ ret ≠ .panics) :
      MsgrcvCase st task call (st.returns ret)
  | received {queue queue' : MsgQueue} {idx : Nat} {src : Msg} {ret : MsgResult}
      (hqueue : st.queue? call.ns call.msqid = some queue) (hsrc : queue.msgs[idx]? = some src)
      (hmsgs : queue'.msgs = queue.msgs.eraseIdx idx)
      (hcbytes : queue'.cbytes = queue.cbytes - src.mtext.length)
      (hsame : queue'.recvWaiters = queue.recvWaiters) (hret : ret ≠ .blocks ∧ ret ≠ .panics) :
      MsgrcvCase st task call ⟨st.putQueue call.ns call.msqid queue', queue.sendWaiters, [], ret⟩
  | blocked {queue : MsgQueue} (hqueue : st.queue? call.ns call.msqid = some queue)
      (hnone : call.pickIdx queue.msgs = none) (hwait : call.nowait = false) :
      MsgrcvCase st task call ⟨st.putQueue call.ns call.msqid
        { queue with recvWaiters := addWaiterOnce queue.recvWaiters task }, [], [], .blocks⟩

theorem msgrcvRound_cases {call : MsgrcvCall} : MsgrcvCase st task call (msgrcvRound st task call env) := by
  have hfail e : MsgrcvCase st task call (st.returns (.failed e)) := .unchanged _ ⟨by simp, by simp⟩
  unfold msgrcvRound
  cases hqueue : st.queue? call.ns call.msqid with
  | none => exact hfail _
  | some queue =>
  dsimp only
  split
  · exact hfail _
  cases hpick : call.pickIdx queue.msgs with
  | some idx =>
    dsimp only
    cases hsrc : queue.msgs[idx]? with
    | none =>
      obtain ⟨m, hm, -⟩ := pickIdx_spec hpick
      cases hsrc.symm.trans hm
    | some src =>
    dsimp only
    split
    · exact hfail _
    generalize hres : (if env.writable = true then MsgResult.received src.mtype (src.mtext.take call.msgsz)
      else .failed .efault) = ret
    have hret : ret ≠ .blocks ∧ ret ≠ .panics := by
      subst hres
      split <;> simp
    split
    · exact .unchanged _ hret
    · exact .received hqueue hsrc rfl rfl rfl hret
  | none =>
    dsimp only
    split
    · exact hfail _
    next hwait =>
    split
    · exact hfail _
    · exact .blocked hqueue hpick (by simpa using hwait)

end Cases

/-! ### Why a task waits -/

/-- The calls that block. -/
inductive MsgCall where
  | snd (call : MsgsndCall)
  | rcv (call : MsgrcvCall)
  deriving DecidableEq

/-- The namespace and the queue of a call. -/
def MsgCall.target : MsgCall → Nat × Nat
  | .snd call => (call.ns, call.msqid)
  | .rcv call => (call.ns, call.msqid)

/-- The task is in the queue of waiters it belongs in: there is no room for its message, or no
message that it takes. -/
def MsgQueue.Holds (queue : MsgQueue) (task : TaskId) : MsgCall → Prop
  | .snd call => task ∈ queue.sendWaiters ∧ queue.qbytes < satAdd queue.cbytes call.mtext.length
  | .rcv call => task ∈ queue.recvWaiters ∧ ∀ m ∈ queue.msgs, ¬ call.Takes m

/-- The task has a queue to wait at. -/
def MsgHeld (st : MsgState) (task : TaskId) (call : MsgCall) : Prop :=
  ∃ queue, st.queue? call.target.1 call.target.2 = some queue ∧ queue.Holds task call

/-- The bytes of the messages. -/
def totalBytes (msgs : List Msg) : Nat := (msgs.map fun m => m.mtext.length).sum

/-- No queue counts more bytes than it has. -/
def MsgState.Counted (st : MsgState) : Prop :=
  ∀ ns msqid queue, st.queue? ns msqid = some queue → queue.cbytes ≤ totalBytes queue.msgs

section Waiting

variable {st' : MsgState} {idx : Nat} {queue' : MsgQueue} {call : MsgCall} {q : Option MsgQueue}

theorem totalBytes_append : totalBytes (msgs ++ [m]) = totalBytes msgs + m.mtext.length := by
  simp [totalBytes]

theorem totalBytes_eraseIdx (h : msgs[idx]? = some m) :
    totalBytes (msgs.eraseIdx idx) = totalBytes msgs - m.mtext.length := by
  obtain ⟨hlt, rfl⟩ := List.getElem?_eq_some_iff.mp h
  have hperm := (getElem_cons_eraseIdx_perm hlt).map fun m : Msg => m.mtext.length
  have hsum := hperm.sum_eq
  rw [map_cons, sum_cons] at hsum
  unfold totalBytes
  omega

theorem MsgState.Counted.replace (h : st.Counted) (hst' : st.Replaces st' ns msqid q)
    (hq : ∀ queue, q = some queue → queue.cbytes ≤ totalBytes queue.msgs) : st'.Counted := by
  intro ns' msqid' queue hqueue
  rw [hst'] at hqueue
  split at hqueue
  · exact hq queue hqueue
  · exact h ns' msqid' queue hqueue

theorem MsgState.Counted.putQueue (h : st.Counted) (hqueue : queue.cbytes ≤ totalBytes queue.msgs) :
    (st.putQueue ns msqid queue).Counted :=
  h.replace replaces_putQueue fun _ hq => some.inj hq ▸ hqueue

theorem MsgHeld.replace (h : MsgHeld st task call) (hst' : st.Replaces st' ns msqid q)
    (hkeep : ∀ queue, st.queue? ns msqid = some queue → queue.Holds task call →
      ∃ queue', q = some queue' ∧ queue'.Holds task call) : MsgHeld st' task call := by
  obtain ⟨queue, hqueue, hholds⟩ := h
  unfold MsgHeld
  rw [hst']
  split
  · next heq => exact hkeep queue (heq.1 ▸ heq.2 ▸ hqueue) hholds
  · exact ⟨queue, hqueue, hholds⟩

/-- A queue takes the place of another. -/
theorem MsgHeld.putQueue (h : MsgHeld st task call) (hqueue : st.queue? ns msqid = some queue)
    (hkeep : queue.Holds task call → queue'.Holds task call) :
    MsgHeld (st.putQueue ns msqid queue') task call := by
  refine h.replace replaces_putQueue fun q hq hholds => ⟨queue', rfl, hkeep ?_⟩
  exact some.inj (hq.symm.trans hqueue) ▸ hholds

variable (h : queue.Holds task call)

include h

theorem MsgQueue.Holds.mem : task ∈ queue.recvWaiters ++ queue.sendWaiters := by
  rw [mem_append]
  cases call with
  | snd => exact .inr h.1
  | rcv => exact .inl h.1

/-- A message more: the receivers are woken, and there is less room for the senders. -/
theorem MsgQueue.Holds.sent {n : Nat} (hfits : satAdd queue.cbytes n ≤ queue.qbytes)
    (hcbytes : queue'.cbytes = wrapAdd queue.cbytes n)
    (hsame : queue'.qbytes = queue.qbytes ∧ queue'.sendWaiters = queue.sendWaiters)
    (hwoken : task ∉ queue.recvWaiters) : queue'.Holds task call := by
  cases call with
  | rcv => exact absurd h.1 hwoken
  | snd call =>
  obtain ⟨hmem, hfull⟩ := h
  refine ⟨hsame.2 ▸ hmem, ?_⟩
  rw [hcbytes]
  -- with a sender that waits, the room is no more than the greatest number, and the count does not
  -- wrap
  have hmax := satAdd_le_max queue.cbytes call.mtext.length
  have hle : queue.cbytes + n ≤ usizeMax := by
    unfold satAdd at hfits
    omega
  rw [wrapAdd_of_le hle]
  unfold satAdd at hfull ⊢
  omega

/-- A message less: the senders are woken, and there is no more for the receivers to take. -/
theorem MsgQueue.Holds.received
    (hmsgs : queue'.msgs = queue.msgs.eraseIdx idx) (hsame : queue'.recvWaiters = queue.recvWaiters)
    (hwoken : task ∉ queue.sendWaiters) : queue'.Holds task call := by
  cases call with
  | snd => exact absurd h.1 hwoken
  | rcv =>
    refine ⟨hsame ▸ h.1, fun m hm => h.2 m ?_⟩
    rw [hmsgs] at hm
    exact mem_of_mem_eraseIdx hm

/-- More room, or less: the senders are woken. -/
theorem MsgQueue.Holds.resized (hsame : queue'.msgs = queue.msgs ∧ queue'.recvWaiters = queue.recvWaiters)
    (hwoken : task ∉ queue.sendWaiters) : queue'.Holds task call := by
  cases call with
  | snd => exact absurd h.1 hwoken
  | rcv => exact ⟨hsame.2 ▸ h.1, hsame.1 ▸ h.2⟩

/-- One waiter more. -/
theorem MsgQueue.Holds.enqueue
    (hsame : queue'.msgs = queue.msgs ∧ queue'.cbytes = queue.cbytes ∧ queue'.qbytes = queue.qbytes)
    (hrecv : task ∈ queue.recvWaiters → task ∈ queue'.recvWaiters)
    (hsend : task ∈ queue.sendWaiters → task ∈ queue'.sendWaiters) : queue'.Holds task call := by
  cases call with
  | snd =>
    refine ⟨hsend h.1, ?_⟩
    rw [hsame.2.1, hsame.2.2]
    exact h.2
  | rcv => exact ⟨hrecv h.1, hsame.1 ▸ h.2⟩

end Waiting

/-! ### Runs -/

/-- One round of a call that blocks. -/
def msgRound (st : MsgState) (task : TaskId) (call : MsgCall) (env : MsgEnv) : MsgEffect MsgResult :=
  match call with
  | .snd call => msgsndRound st task call env
  | .rcv call => msgrcvRound st task call env

/-- What a call leaves behind, for the scheduler. -/
def MsgEffect.outcome {α : Type} (eff : MsgEffect α) : Outcome MsgState := ⟨eff.st, eff.woken, eff.later⟩

/-- The calls that do not block. -/
inductive MsgOther (st : MsgState) : Outcome MsgState → Prop
  | msgget (limits : MsgLimits) (ns : Nat) (cred : Cred) (key : BitVec 64) (flags : MsggetFlags)
      (now : Int) : MsgOther st (msgget st limits ns cred key flags now).outcome
  | msgctl (ns : Nat) (cred : Cred) (msqid : Nat) (cmd : MsgCmd) (now : Int) :
      MsgOther st (msgctl st ns cred msqid cmd now).outcome

/-- `msgsnd` and `msgrcv` are the calls that block. -/
def msgSystem : Blocking.System MsgState MsgCall where
  start _ := True
  attempt phase st task call o n := ∃ env : MsgEnv, phase task = .trying call env.waited ∧
    o = (msgRound st task call env).outcome ∧
    n = if (msgRound st task call env).ret = .blocks then .park call else .finish
  act _ := MsgOther

/-- The states of the queues and their tasks that are reached from boot. -/
abbrev MsgReachable : Parking.World MsgState MsgCall → Prop :=
  Reachable (· = .boot MsgState.boot) (Blocking.Step msgSystem)

section Runs

variable {o : Outcome MsgState} {w : Parking.World MsgState MsgCall} {eff : MsgEffect MsgResult}
  {phase : TaskId → Phase MsgCall}

def RoundKeeps (phase : TaskId → Phase MsgCall) (st : MsgState) (task : TaskId) (call : MsgCall)
    (eff : MsgEffect MsgResult) : Prop :=
  Preserves MsgState.Counted MsgHeld phase st eff.outcome ∧ (eff.ret = .blocks → MsgHeld eff.st task call)

theorem preserves_msgsnd (hok : st.Counted) {call : MsgsndCall} (hcase : MsgsndCase st task call eff) :
    RoundKeeps phase st task (.snd call) eff := by
  cases hcase with
  | failed => exact ⟨⟨hok, fun _ _ _ _ _ h => h⟩, nofun⟩
  | @sent queue queue' hqueue hfits hmsgs hcbytes hsame =>
    refine ⟨⟨hok.putQueue ?_, fun t c _ hwoken _ h => ?_⟩, nofun⟩
    · have hle := hok _ _ queue hqueue
      have hwrap : wrapAdd queue.cbytes call.mtext.length ≤ _ := Nat.mod_le ..
      rw [hmsgs, totalBytes_append, hcbytes]
      exact hwrap.trans (Nat.add_le_add_right hle _)
    · exact h.putQueue hqueue fun hh => hh.sent hfits hcbytes hsame hwoken
  | @blocked queue hqueue hfull =>
    refine ⟨⟨hok.putQueue (hok _ _ queue hqueue), fun t c _ _ _ h => ?_⟩, fun _ => ?_⟩
    · exact h.putQueue hqueue fun hh => hh.enqueue ⟨rfl, rfl, rfl⟩ id fun hm => mem_addWaiterOnce.mpr (.inl hm)
    · exact ⟨_, queue?_putQueue_self, mem_addWaiterOnce.mpr (.inr rfl), not_le.mp hfull⟩

theorem preserves_msgrcv (hok : st.Counted) {call : MsgrcvCall} (hcase : MsgrcvCase st task call eff) :
    RoundKeeps phase st task (.rcv call) eff := by
  cases hcase with
  | unchanged _ hret => exact ⟨⟨hok, fun _ _ _ _ _ h => h⟩, fun h => absurd h hret.1⟩
  | @received queue queue' idx src ret hqueue hsrc hmsgs hcbytes hsame hret =>
    refine ⟨⟨hok.putQueue ?_, fun t c _ hwoken _ h => ?_⟩, fun h => absurd h hret.1⟩
    · rw [hmsgs, totalBytes_eraseIdx hsrc, hcbytes]
      exact Nat.sub_le_sub_right (hok _ _ queue hqueue) _
    · exact h.putQueue hqueue fun hh => hh.received hmsgs hsame hwoken
  | @blocked queue hqueue hnone hwait =>
    refine ⟨⟨hok.putQueue (hok _ _ queue hqueue), fun t c _ _ _ h => ?_⟩, fun _ => ?_⟩
    · exact h.putQueue hqueue fun hh => hh.enqueue ⟨rfl, rfl, rfl⟩
        (fun hm => mem_addWaiterOnce.mpr (.inl hm)) id
    -- a call that copies does not wait
    have hcopy : call.copy = false := by
      have hchecked := call.checked
      cases hc : call.copy with
      | false => rfl
      | true =>
        rw [hc, hwait] at hchecked
        cases hchecked.1
    refine ⟨_, queue?_putQueue_self, mem_addWaiterOnce.mpr (.inr rfl), fun m hm htakes => ?_⟩
    obtain ⟨j, hj⟩ := mem_iff_getElem?.mp hm
    exact not_seeks_of_pickIdx hnone hj (by rwa [Seeks, hcopy])

theorem preserves_msgOther (hok : st.Counted) (ho : MsgOther st o) : Preserves Counted MsgHeld phase st o := by
  cases ho with
  | msgget limits ns cred key flags now =>
    have hcase := @msgget_cases st ns cred now limits key flags
    generalize msgget st limits ns cred key flags now = eff at hcase ⊢
    cases hcase with
    | unchanged => exact ⟨hok, fun _ _ _ _ _ h => h⟩
    | @created id queue mgr hfree hqueues hempty =>
    have hst' : st.Replaces (st.putManager ns mgr) ns id (some queue) :=
      replaces_putManager fun _ => hqueues ▸ get?_insert
    refine ⟨hok.replace hst' fun q hq => ?_, fun t c _ _ _ h => h.replace hst' fun q hq => ?_⟩
    · rw [← some.inj hq, hempty.2]
      exact Nat.zero_le _
    · rw [hfree] at hq
      cases hq
  | msgctl ns cred msqid cmd now =>
    have hcase := @msgctl_cases st ns msqid cred now cmd
    generalize msgctl st ns cred msqid cmd now = eff at hcase ⊢
    cases hcase with
    | failed => exact ⟨hok, fun _ _ _ _ _ h => h⟩
    | @removed queue mgr hqueue hqueues =>
      have hst' : st.Replaces (st.putManager ns mgr) ns msqid none :=
        replaces_putManager fun _ => hqueues ▸ get?_erase
      refine ⟨hok.replace hst' nofun, fun t c _ _ hlater h => h.replace hst' fun q hq hholds => ?_⟩
      -- the tasks at the queue that is removed are all woken
      obtain rfl := some.inj (hqueue.symm.trans hq)
      exact absurd hholds.mem hlater
    | @resized queue queue' hqueue hsame =>
      refine ⟨hok.putQueue ?_, fun t c _ hwoken _ h => ?_⟩
      · rw [hsame.1, hsame.2.1]
        exact hok _ _ queue hqueue
      · exact h.putQueue hqueue fun hh => hh.resized ⟨hsame.1, hsame.2.2⟩ hwoken

/-- **No wakeup is lost.** In every run of calls on message queues and of the scheduler, a task that
is blocked, and for which no wakeup is under way, has a queue. If it receives, no message in the
queue matches its selector, unless this is the least number; if it sends, its message does not
fit. -/
theorem msg_no_lost_wakeup (hr : MsgReachable w) :
    (∀ call : MsgrcvCall, w.phase task = .blocked (.rcv call) → task ∉ w.later →
      ∃ queue, w.shared.queue? call.ns call.msqid = some queue ∧
        (call.msgtyp ≠ intMin 64 → ∀ m ∈ queue.msgs, ¬ call.Matches m)) ∧
    (∀ call : MsgsndCall, w.phase task = .blocked (.snd call) → task ∉ w.later →
      ∃ queue, w.shared.queue? call.ns call.msqid = some queue ∧
        ¬ totalBytes queue.msgs + call.mtext.length ≤ queue.qbytes) := by
  have hinv : w.shared.Counted ∧ AllHeld MsgHeld w := by
    refine held_of_reachable ?_ (fun _ _ _ hok ho => preserves_msgOther hok ho) (by intros; contradiction)
      (fun _ _ _ hq => by cases hq) hr
    rintro phase st task call waited o n hok - ⟨env, -, rfl, rfl⟩
    have hkeeps : RoundKeeps phase st task call (msgRound st task call env) := by
      cases call with
      | snd => exact preserves_msgsnd hok msgsndRound_cases
      | rcv => exact preserves_msgrcv hok msgrcvRound_cases
    refine ⟨hkeeps.1, fun c hpark => ?_⟩
    split at hpark
    · next hblocks =>
      cases hpark
      exact hkeeps.2 hblocks
    · cases hpark
  refine ⟨fun call hblocked hlater => ?_, fun call hblocked hlater => ?_⟩
  · obtain ⟨queue, hqueue, -, hnone⟩ := hinv.2 task _ (.inl hblocked) hlater
    refine ⟨queue, hqueue, fun hmin m hm hmatch => ?_⟩
    exact hnone m hm ((takes_iff_matches hmin).mpr hmatch)
  obtain ⟨queue, hqueue, -, hfull⟩ := hinv.2 task _ (.inl hblocked) hlater
  refine ⟨queue, hqueue, fun _ => ?_⟩
  have hcount := hinv.1 _ _ queue hqueue
  have hsat := satAdd_le_add queue.cbytes call.mtext.length
  omega

/-- A call that receives type `msgtyp` from the first queue of the first namespace. -/
def receiveType (msgtyp : BitVec 64) : MsgrcvCall :=
  ⟨0, ⟨0, 0, [], 1⟩, 1, 16, msgtyp, false, false, false, false, by simp⟩

/-- A call that sends an empty message of type 1 to it. -/
def sendOne : MsgsndCall := ⟨0, ⟨0, 0, [], 2⟩, 1, 1, [], false, by decide⟩

/-- The first round of a call, with no signal. -/
def firstMsgRound : MsgEnv := ⟨false, false, 0, true⟩

/-- With a message of type 1 in the queue, a task that receives type 2 blocks. -/
theorem msg_no_lost_wakeup_other_type : ∃ w, MsgReachable w ∧
      w.phase 1 = .blocked (.rcv (receiveType 2)) ∧
      ∃ queue, w.shared.queue? 0 1 = some queue ∧ ∀ m ∈ queue.msgs, ¬ (receiveType 2).Matches m := by
  have hboot : MsgReachable (.boot boot) := .start rfl
  have hget := hboot.step (.act (.msgget .default 0 ⟨0, 0, [], 1⟩ 0 ⟨true, false, 0⟩ 0))
  have hsend := enter (c := .snd sendOne) hget 2 rfl trivial ⟨firstMsgRound, rfl, rfl, rfl⟩
  have hpark := enter (c := .rcv (receiveType 2)) hsend 1 rfl trivial ⟨firstMsgRound, rfl, rfl, rfl⟩
  have hout := hpark.step (.switchOut (t := 1) rfl trivial)
  obtain ⟨queue, hqueue, hnone⟩ := (@msg_no_lost_wakeup 1 _ hout).1 (receiveType 2) rfl not_mem_nil
  exact ⟨_, hout, rfl, queue, hqueue, hnone (by decide)⟩

/-- **The least type.** A task that receives the least type blocks with a message of type 1 in the
queue, though all types are up to the absolute value of the least one. -/
theorem least_type_blocks : ∃ w, MsgReachable w ∧
      w.phase 1 = .blocked (.rcv (receiveType (intMin 64))) ∧ w.phase 2 = .idle ∧ w.later = [] ∧
      ∃ queue, w.shared.queue? 0 1 = some queue ∧ ∃ m ∈ queue.msgs, (receiveType (intMin 64)).Matches m := by
  have hboot : MsgReachable (.boot boot) := .start rfl
  have hget := hboot.step (.act (.msgget .default 0 ⟨0, 0, [], 1⟩ 0 ⟨true, false, 0⟩ 0))
  have hsend := enter (c := .snd sendOne) hget 2 rfl trivial ⟨firstMsgRound, rfl, rfl, rfl⟩
  have hpark := enter (c := .rcv (receiveType (intMin 64))) hsend 1 rfl trivial ⟨firstMsgRound, rfl, rfl, rfl⟩
  have hout := hpark.step (.switchOut (t := 1) rfl trivial)
  exact ⟨_, hout, rfl, rfl, rfl, _, rfl, ⟨1, [], by decide⟩, mem_singleton_self _,
    .inr (.inr ⟨by decide, by decide⟩)⟩

end Runs

end HitOS.Ipc
