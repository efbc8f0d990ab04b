import HitOS.Lib.Reachable
import HitOS.Syscall.Futex

/-!
# The queues of futexes

What holds of the queues in whatever order tasks wait, wake, move and remove waiters. A state has,
besides the queues, the records of the tasks, where each waiting task is in its call, and what those
who have unlocked the queues still have to do (`FutexJob`). A step is one critical section, or one
access to the record of a task.

* `wakeQueue_spec` and `futexWake_spec` say who is woken: the first waiters of the queue that match,
  in their order, and then those of other queues in the order of the keys.
* `futexRequeue_spec` says who is woken, who is moved and who stays.
* `FutexInv` is the invariant. A waiter whose flag is set is in one queue, once. One whose flag is
  cleared may still be in a queue, if its removal has looked in the wrong one; then a second step of
  that removal, which looks everywhere, is still to come.
-/

namespace HitOS.Futex

open List Function OrdMap FutexQueues FutexWaiter

open HitOS.Ipc (TaskId)

/-! ### Queues -/

section Queues

variable {qs qs' qs'' : FutexQueues} {key k : FutexKey}
  {l woken queue : List FutexWaiter} {n nr m : Nat} {flag : Nat → Bool} {w v : FutexWaiter}
  {test : FutexWaiter → Bool}
  {st st' : Waking}

def flags (l : List FutexWaiter) : List Nat := l.map FutexWaiter.inQueue

theorem mem_flags : n ∈ flags l ↔ ∃ w ∈ l, w.inQueue = n := mem_map

/-- The waiters whose flag is set. -/
def live (flag : Nat → Bool) (l : List FutexWaiter) : List FutexWaiter := l.filter fun w => flag w.inQueue

theorem live_cons_of_set (h : flag w.inQueue = true) : live flag (w :: l) = w :: live flag l :=
  filter_cons_of_pos h

theorem live_cons_of_clear (h : ¬ flag w.inQueue = true) : live flag (w :: l) = live flag l :=
  filter_cons_of_neg h

theorem mem_live : w ∈ live flag l ↔ w ∈ l ∧ flag w.inQueue = true := mem_filter

theorem FutexQueues.queue_putQueue :
    (qs.putQueue key queue).queue k = if k = key then queue else qs.queue k := by
  unfold FutexQueues.queue putQueue
  cases queue with
  | nil =>
    rw [isEmpty_nil, if_pos rfl, get?_erase]
    split <;> rfl
  | cons =>
    rw [isEmpty_cons, if_neg Bool.false_ne_true, get?_insert]
    split <;> rfl

theorem FutexQueues.queue_removeWhere :
    (qs.removeWhere test).queue k = (qs.queue k).filter fun w => !test w := by
  unfold queue removeWhere
  rw [get?_filterVal, get?_mapVal]
  cases qs.queues.get? k with
  | none => rfl
  | some =>
    rw [Option.map_some, Option.filter_some]
    split
    · rfl
    · next h =>
      rw [Bool.not_eq_true', Bool.not_eq_false, List.isEmpty_iff] at h
      rw [Option.getD_none, Option.getD_some, h]

theorem FutexQueues.mem_queue_iff :
    w ∈ qs.queue key ↔ ∃ queue, qs.queues.get? key = some queue ∧ w ∈ queue := by
  unfold queue
  cases qs.queues.get? key <;> simp

theorem FutexQueues.mem_values_flatten : w ∈ qs.queues.values.flatten ↔ ∃ key, w ∈ qs.queue key := by
  rw [mem_flatten]
  constructor
  · rintro ⟨queue, hqueue, hw⟩
    obtain ⟨key, hkey⟩ := mem_values_iff.mp hqueue
    exact ⟨key, mem_queue_iff.mpr ⟨queue, hkey, hw⟩⟩
  · rintro ⟨key, hw⟩
    obtain ⟨queue, hkey, hw⟩ := mem_queue_iff.mp hw
    exact ⟨queue, mem_values_iff.mpr ⟨key, hkey⟩, hw⟩

/-- No flag occurs twice, in one queue or in two. -/
structure Distinct (qs : FutexQueues) : Prop where
  nodup : ∀ key, (flags (qs.queue key)).Nodup
  unique : ∀ key key' w w', w ∈ qs.queue key → w' ∈ qs.queue key' → w.inQueue = w'.inQueue → key = key'

theorem Distinct.sublist (h : Distinct qs) (hsub : ∀ key, (qs'.queue key).Sublist (qs.queue key)) :
    Distinct qs' := by
  constructor
  · intro key
    exact (h.nodup key).sublist ((hsub key).map _)
  · intro key key' w w' hw hw'
    exact h.unique key key' w w' ((hsub key).subset hw) ((hsub key').subset hw')

/-- A waiter shares its flag with none of another queue. -/
theorem Distinct.not_mem_flags (h : Distinct qs)
    (hne : k ≠ key) (hw : w ∈ qs.queue k) (hl : ∀ v ∈ l, v ∈ qs.queue key) : w.inQueue ∉ flags l := by
  intro hmem
  obtain ⟨v, hv, hvw⟩ := mem_flags.mp hmem
  exact hne (h.unique k key w v hw (hl v hv) hvw.symm)

def cleared (flag : Nat → Bool) (l : List FutexWaiter) : Nat → Bool :=
  l.foldl (fun flag w => update flag w.inQueue false) flag

theorem cleared_iff : cleared flag l n = true ↔ flag n = true ∧ n ∉ flags l := by
  induction l generalizing flag with
  | nil => simp [cleared, flags]
  | cons w l ih =>
    change cleared (update flag w.inQueue false) l n = true ↔ _
    rw [ih]
    by_cases hn : n = w.inQueue
    · subst hn
      simp [flags]
    · simp [flags, hn]

/-- A flag of another waiter stays as it is. -/
theorem update_flag_of_mem (hw : w.inQueue ∉ flags l) (hv : v ∈ l) :
    update flag w.inQueue false v.inQueue = flag v.inQueue :=
  update_of_ne (fun heq => hw (mem_flags.mpr ⟨v, hv, heq⟩)) _ _

/-! ### Waking -/

/-- **What a wake does**: the flags of the woken are cleared and they leave their queues; every
waiter whose flag is still set stays, and the order does not change. -/
structure Woke (qs : FutexQueues) (woken : List FutexWaiter) (qs' : FutexQueues) : Prop where
  next : qs'.nextFlag = qs.nextFlag
  flag : ∀ n, qs'.flag n = true ↔ qs.flag n = true ∧ n ∉ flags woken
  sub : ∀ key, (qs'.queue key).Sublist (qs.queue key)
  gone : ∀ key, ∀ w ∈ qs'.queue key, w.inQueue ∉ flags woken
  kept : ∀ key, ∀ w ∈ qs.queue key, qs'.flag w.inQueue = true → w ∈ qs'.queue key

theorem Woke.refl : Woke qs [] qs :=
  ⟨rfl, fun n => by simp [flags], fun _ => Sublist.refl _, fun _ _ _ => by simp [flags], fun _ _ hw _ => hw⟩

theorem Woke.trans {a b : List FutexWaiter} (h : Woke qs a qs') (h' : Woke qs' b qs'') :
    Woke qs (a ++ b) qs'' := by
  have hflags : flags (a ++ b) = flags a ++ flags b := map_append
  constructor
  · exact h'.next.trans h.next
  · intro n
    rw [h'.flag, h.flag, hflags, mem_append, not_or, and_assoc]
  · exact fun key => (h'.sub key).trans (h.sub key)
  · intro key w hw
    rw [hflags, mem_append, not_or]
    exact ⟨h.gone key w ((h'.sub key).subset hw), h'.gone key w hw⟩
  · intro key w hw hflag
    exact h'.kept key w (h.kept key w hw ((h'.flag _).mp hflag).1) hflag

/-- The waiters of a queue that a wake would take. -/
def matching (qs : FutexQueues) (test : FutexWaiter → Bool) (key : FutexKey) : List FutexWaiter :=
  (qs.queue key).filter fun w => qs.flag w.inQueue && test w

/-- A part of a wake has taken the waiters of a list. -/
structure Took (st : Waking) (l : List FutexWaiter) (st' : Waking) : Prop where
  woke : Woke st.qs l st'.qs
  list : st'.wakeList = st.wakeList ++ l
  count : st'.woke = st.woke + l.length

theorem Took.refl : Took st [] st := ⟨.refl, (append_nil _).symm, rfl⟩

theorem Took.trans {st'' : Waking} {a b : List FutexWaiter} (h : Took st a st') (h' : Took st' b st'') :
    Took st (a ++ b) st'' := by
  refine ⟨h.woke.trans h'.woke, ?_, ?_⟩
  · rw [h'.list, h.list, append_assoc]
  · rw [h'.count, h.count, length_append, Nat.add_assoc]

/-- What is taken of two lists, if the first part has taken what it could of the first. -/
theorem Took.take_append {rest : List FutexWaiter} (h : Took st (l.take (nr - st.woke)) st') :
    (l ++ rest).take (nr - st.woke) = l.take (nr - st.woke) ++ rest.take (nr - st'.woke) := by
  rw [List.take_append, h.count, length_take]
  congr 2
  omega

/-- The loop over one queue, from any point of it. -/
theorem foldl_wakeOne (acc : WakeAcc) (hnodup : (flags queue).Nodup)
    (hwoken : woken = (queue.filter fun w => acc.flag w.inQueue && test w).take (nr - acc.woke)) :
    queue.foldl (wakeOne nr test) acc = ⟨cleared acc.flag woken, acc.woke + woken.length,
      acc.wakeList ++ woken, acc.remain ++ live (cleared acc.flag woken) queue⟩ := by
  induction queue generalizing acc woken with
  | nil => simp [hwoken, cleared, live]
  | cons w queue ih =>
    obtain ⟨hw, hnodup'⟩ := nodup_cons.mp hnodup
    rw [foldl_cons]
    by_cases hflag : acc.flag w.inQueue = true
    swap
    · -- a cleared flag: the waiter is dropped
      have hone : wakeOne nr test acc w = acc := if_pos (Bool.not_eq_true _ ▸ hflag)
      rw [filter_cons_of_neg (by simp [hflag])] at hwoken
      rw [hone, ih acc hnodup' hwoken, live_cons_of_clear fun hset => hflag (cleared_iff.mp hset).1]
    by_cases hroom : acc.woke < nr ∧ test w = true
    · -- the waiter is woken
      have hone : wakeOne nr test acc w = { acc with
          flag := update acc.flag w.inQueue false
          woke := acc.woke + 1
          wakeList := acc.wakeList ++ [w] } := by
        unfold wakeOne
        rw [if_neg (by simp [hflag]), if_pos hroom]
      have hsame : queue.filter (fun v => acc.flag v.inQueue && test v) =
          queue.filter fun v => update acc.flag w.inQueue false v.inQueue && test v :=
        filter_congr fun v hv => by rw [update_flag_of_mem hw hv]
      rw [filter_cons_of_pos (by simp [hflag, hroom.2]), hsame,
        show nr - acc.woke = (nr - (acc.woke + 1)) + 1 by omega] at hwoken
      rw [hone, ih _ hnodup' rfl, hwoken, live_cons_of_clear fun hset => (cleared_iff.mp hset).2 (.head _),
        append_assoc, Nat.add_assoc, Nat.add_comm 1]
      rfl
    · -- the waiter stays
      have hone : wakeOne nr test acc w = { acc with remain := acc.remain ++ [w] } := by
        unfold wakeOne
        rw [if_neg (by simp [hflag]), if_neg hroom]
      have hwoken' : woken = (queue.filter fun w => acc.flag w.inQueue && test w).take (nr - acc.woke) := by
        rw [hwoken]
        by_cases htest : test w = true
        · have hfull : ¬ acc.woke < nr := fun h => hroom ⟨h, htest⟩
          rw [Nat.sub_eq_zero_of_le (not_lt.mp hfull), take_zero, take_zero]
        · rw [filter_cons_of_neg (by simp [htest])]
      have hon : cleared acc.flag woken w.inQueue = true := by
        refine cleared_iff.mpr ⟨hflag, fun hmem => hw ?_⟩
        obtain ⟨v, hv, hvn⟩ := mem_flags.mp hmem
        rw [hwoken'] at hv
        exact mem_flags.mpr ⟨v, (mem_filter.mp (mem_of_mem_take hv)).1, hvn⟩
      rw [hone, ih { acc with remain := acc.remain ++ [w] } hnodup' hwoken',
        live_cons_of_set hon, append_assoc, singleton_append]

/-- **One queue.** The first waiters that match are woken, as many as there is room for, and the
other queues are as they were. -/
theorem wakeQueue_spec (h : Distinct st.qs) :
    Took st ((matching st.qs test key).take (nr - st.woke)) (wakeQueue nr test key st) ∧
      (∀ test' k, k ≠ key → matching (wakeQueue nr test key st).qs test' k = matching st.qs test' k) ∧
      (wakeQueue nr test key st).qs.queues.erase key = st.qs.queues.erase key := by
  unfold wakeQueue
  cases hget : st.qs.queues.get? key with
  | none =>
    have hnil : matching st.qs test key = [] := by
      unfold matching queue
      rw [hget]
      rfl
    rw [hnil, take_nil]
    exact ⟨Took.refl, fun _ _ _ => rfl, rfl⟩
  | some queue =>
    have hqueue : st.qs.queue key = queue := by rw [FutexQueues.queue, hget]; rfl
    have hnodup := h.nodup key
    rw [hqueue] at hnodup
    generalize hwoken : (matching st.qs test key).take (nr - st.woke) = woken
    have hqueue' : woken = (queue.filter fun w => st.qs.flag w.inQueue && test w).take (nr - st.woke) := by
      rw [← hwoken, matching, hqueue]
    have hloop := foldl_wakeOne ⟨st.qs.flag, st.woke, st.wakeList, []⟩ hnodup hqueue'
    rw [nil_append] at hloop
    dsimp only
    rw [hloop]
    have hq k : (({ st.qs with flag := cleared st.qs.flag woken } : FutexQueues).putQueue key
        (live (cleared st.qs.flag woken) queue)).queue k =
        if k = key then live (cleared st.qs.flag woken) queue else st.qs.queue k := queue_putQueue
    -- the woken were in the queue of the key
    have hother k (hk : k ≠ key) w (hw : w ∈ st.qs.queue k) : w.inQueue ∉ flags woken := by
      refine h.not_mem_flags hk hw fun v hv => ?_
      rw [← hwoken] at hv
      exact (mem_filter.mp (mem_of_mem_take hv)).1
    refine ⟨⟨⟨rfl, fun _ => cleared_iff, fun k => ?_, fun k w hw => ?_, fun k w hw hflag => ?_⟩, rfl, rfl⟩,
      fun test' k hk => ?_, ?_⟩
    · rw [hq]
      split
      · next hk =>
        rw [hk, hqueue]
        exact filter_sublist
      · exact Sublist.refl _
    · rw [hq] at hw
      split at hw
      · exact (cleared_iff.mp (mem_live.mp hw).2).2
      · next hk => exact hother k hk w hw
    · rw [hq]
      split
      · next hk =>
        rw [hk, hqueue] at hw
        exact mem_live.mpr ⟨hw, hflag⟩
      · exact hw
    · unfold matching
      rw [hq, if_neg hk]
      refine filter_congr fun w hw => congrArg (· && test' w) ?_
      rw [Bool.eq_iff_iff]
      exact cleared_iff.trans (and_iff_left (hother k hk w hw))
    · unfold putQueue
      split
      · exact erase_erase_self
      · exact erase_insert_self

/-- **The other queues**, in the order of the keys. -/
theorem wakeFallback_spec {keys : List FutexKey} (h : Distinct st.qs) (hkeys : keys.Nodup) :
    Took st ((keys.flatMap (matching st.qs test)).take (nr - st.woke)) (wakeFallback nr test keys st) := by
  induction keys generalizing st with
  | nil =>
    rw [flatMap_nil, take_nil]
    exact Took.refl
  | cons key keys ih =>
    obtain ⟨hkey, hkeys'⟩ := nodup_cons.mp hkeys
    unfold wakeFallback
    split
    · next hfull =>
      rw [Nat.sub_eq_zero_of_le hfull]
      exact Took.refl
    obtain ⟨htook, hsame, -⟩ := @wakeQueue_spec key nr test _ h
    have hrest := ih (h.sublist htook.woke.sub) hkeys'
    rw [flatMap_congr fun k hk => hsame test k fun heq => hkey (heq ▸ hk)] at hrest
    rw [flatMap_cons, htook.take_append]
    exact htook.trans hrest

/-- The waiters that a wake may take, in the order in which it takes them: those in the queue of its
key, and then those at the same address of the same address space, queue by queue. -/
def candidates (qs : FutexQueues) (call : FutexWakeCall) : List FutexWaiter :=
  matching qs (FutexWaiter.hasBit call.mask) call.key ++ match call.fallback with
    | none => []
    | some (token, uaddr) =>
      (qs.queues.keys.filter fun key => key ≠ call.key).flatMap
        (matching qs fun w => w.isAt token uaddr && w.hasBit call.mask)

/-- **Who is woken.** The first candidates, at most as many as asked for; the result is their
number. -/
theorem futexWake_spec {call : FutexWakeCall} {r : Waking} (h : Distinct qs)
    (hr : futexWakeWithMask qs call = .ok r) :
    r.wakeList = (candidates qs call).take call.nrWake ∧ r.woke = r.wakeList.length ∧
      Woke qs r.wakeList r.qs := by
  unfold futexWakeWithMask at hr
  split at hr
  · cases hr
  split at hr
  · cases hr
  have hfirst : Distinct (Waking.mk qs 0 []).qs := h
  obtain ⟨htook, hsame, herase⟩ := @wakeQueue_spec call.key call.nrWake (hasBit call.mask) _ hfirst
  have hall : Took ⟨qs, 0, []⟩ ((candidates qs call).take call.nrWake) r := by
    unfold candidates
    cases hfb : call.fallback with
    | none =>
      rw [hfb] at hr
      cases hr
      rwa [append_nil]
    | some fb =>
    rw [hfb] at hr
    dsimp only at hr ⊢
    refine htook.take_append.symm ▸ ?_
    generalize wakeQueue call.nrWake (hasBit call.mask) call.key ⟨qs, 0, []⟩ = st at *
    split at hr
    · cases hr
      have hkeys : (st.qs.queues.keys.filter fun key => key ≠ call.key).Nodup :=
        (pairwise_map.mpr (st.qs.queues.sorted.imp ne_of_lt)).filter _
      have hrest := @wakeFallback_spec call.nrWake (fun w => w.isAt fb.1 fb.2 && w.hasBit call.mask) _ _
        (h.sublist htook.woke.sub) hkeys
      -- the other queues are found under the same keys, with the same waiters in them
      rw [flatMap_congr fun k hk => hsame _ k (of_decide_eq_true (mem_filter.mp hk).2)] at hrest
      rw [← keys_erase, ← herase, keys_erase]
      exact htook.trans hrest
    · next hroom =>
      cases hr
      -- the queue of the key was enough
      rw [Nat.sub_eq_zero_of_le (not_lt.mp hroom), take_zero, append_nil]
      exact htook
  have hlist := hall.list
  have hcount := hall.count
  have hwoke := hall.woke
  rw [nil_append] at hlist
  rw [Nat.zero_add] at hcount
  rw [← hlist] at hcount hwoke
  exact ⟨hlist, hcount, hwoke⟩

/-! ### Requeueing -/

/-- The loop that wakes takes the first waiters whose flag is set. -/
theorem popWake_spec (hnodup : (flags queue).Nodup) : ∃ rest,
    popWake queue n flag = ((live flag queue).take n, rest, cleared flag ((live flag queue).take n)) ∧
      live (cleared flag ((live flag queue).take n)) rest = (live flag queue).drop n := by
  induction queue generalizing n flag with
  | nil => exact ⟨[], by simp [popWake, live, cleared], by simp [live]⟩
  | cons w queue ih =>
    obtain ⟨hw, hnodup'⟩ := nodup_cons.mp hnodup
    cases n with
    | zero => exact ⟨w :: queue, rfl, rfl⟩
    | succ n =>
    unfold popWake
    by_cases hflag : flag w.inQueue = true
    · obtain ⟨rest, hpop, hrest⟩ := @ih n (update flag w.inQueue false) hnodup'
      -- the flags of the other waiters are as they were
      have hsame : live (update flag w.inQueue false) queue = live flag queue :=
        filter_congr fun v hv => update_flag_of_mem hw hv
      rw [hsame] at hpop hrest
      rw [if_neg (by simp [hflag]), live_cons_of_set hflag, hpop]
      exact ⟨rest, rfl, hrest⟩
    · rw [if_pos (by simpa using hflag), live_cons_of_clear hflag]
      exact ih hnodup'

/-- The loop that moves takes the next ones. -/
theorem popMove_spec : (popMove flag queue n).1 = (live flag queue).take n ∧
      live flag (popMove flag queue n).2 = (live flag queue).drop n := by
  induction queue generalizing n with
  | nil => simp [popMove, live]
  | cons w _ ih =>
    cases n with
    | zero => simp [popMove]
    | succ n =>
    unfold popMove
    by_cases hflag : flag w.inQueue = true
    · obtain ⟨hmoved, hrest⟩ := @ih n
      rw [if_neg (by simp [hflag]), live_cons_of_set hflag]
      exact ⟨congrArg _ hmoved, hrest⟩
    · rw [if_pos (by simpa using hflag), live_cons_of_clear hflag]
      exact ih

/-- A waiter as it stands in the queue it was moved to. -/
def retarget (call : FutexRequeueCall) (w : FutexWaiter) : FutexWaiter :=
  { w with token := call.token, uaddr := call.uaddr2 }

/-- The waiters that a requeue moves. -/
def movable (qs : FutexQueues) (call : FutexRequeueCall) : List FutexWaiter :=
  if call.key2 = call.key1 then []
  else ((live qs.flag (qs.queue call.key1)).drop call.nrWake.toNat).take call.nrRequeue.toNat

/-- **What a requeue does** to the waiters of its first queue, in their order: the first are woken,
the next ones go to the end of the second queue, and the rest stays. -/
structure Requeues (qs : FutexQueues) (call : FutexRequeueCall) (r : Requeued) : Prop where
  next : r.qs.nextFlag = qs.nextFlag
  woken : r.wakeList = (live qs.flag (qs.queue call.key1)).take call.nrWake.toNat
  moved : r.moved = (movable qs call).map (retarget call)
  flag : ∀ n, r.qs.flag n = true ↔ qs.flag n = true ∧ n ∉ flags r.wakeList
  first : r.qs.queue call.key1 =
    ((live qs.flag (qs.queue call.key1)).drop call.nrWake.toNat).drop (movable qs call).length
  second : call.key2 ≠ call.key1 → r.qs.queue call.key2 = qs.queue call.key2 ++ r.moved
  other : ∀ k, k ≠ call.key1 → k ≠ call.key2 → r.qs.queue k = qs.queue k

variable {call : FutexRequeueCall} {r : Requeued}

theorem futexRequeue_spec {cur : BitVec 32} (h : Distinct qs)
    (hr : futexRequeue qs call cur = .ok r) : Requeues qs call r := by
  unfold futexRequeue at hr
  iterate 3
    split at hr
    · cases hr
  split at hr
  · next hget =>
    have hnil : qs.queue call.key1 = [] := by rw [queue, hget]; rfl
    cases hr
    have hmov : movable qs call = [] := by simp [movable, hnil, live]
    refine ⟨rfl, ?_, ?_, fun n => ?_, ?_, fun _ => ?_, fun _ _ _ => rfl⟩
    all_goals simp [hnil, hmov, live, flags]
  next queue1 hget =>
  have hqueue : qs.queue call.key1 = queue1 := by rw [queue, hget]; rfl
  have hnodup := h.nodup call.key1
  rw [hqueue] at hnodup
  obtain ⟨rest, hpop, hrest⟩ := @popWake_spec _ call.nrWake.toNat qs.flag hnodup
  have hflags n : cleared qs.flag ((live qs.flag queue1).take call.nrWake.toNat) n = true ↔ _ := cleared_iff
  rw [hpop] at hr
  generalize cleared qs.flag ((live qs.flag queue1).take call.nrWake.toNat) = flag at *
  dsimp only at hr
  have herase k (hk : k ≠ call.key1) :
      ({ qs with flag := flag, queues := qs.queues.erase call.key1 } : FutexQueues).queue k =
      qs.queue k := by
    unfold queue
    rw [get?_erase, if_neg hk]
  split at hr
  · next hmove =>
    obtain ⟨-, -, hne⟩ := hmove
    obtain ⟨hmoved, hrest'⟩ := @popMove_spec rest call.nrRequeue.toNat flag
    generalize popMove flag rest call.nrRequeue.toNat = pm at *
    obtain ⟨moved, rest'⟩ := pm
    dsimp only at hr hmoved hrest'
    cases hr
    rw [hrest] at hmoved hrest'
    have hmov : movable qs call = moved := by rw [movable, if_neg hne, hqueue, hmoved]
    refine ⟨rfl, by rw [hqueue], by rw [hmov]; rfl, hflags, ?_, fun _ => ?_, fun k hk hk' => ?_⟩
    · rw [queue_putQueue, if_pos rfl, hmov, hmoved, hqueue, length_take]
      change live flag rest' = _
      rw [hrest', length_drop]
      -- dropping what was taken, or all there is
      rcases le_total call.nrRequeue.toNat ((live qs.flag queue1).length - call.nrWake.toNat) with hle | hle
      · rw [min_eq_left hle]
      · rw [min_eq_right hle, drop_eq_nil_of_le (by rwa [length_drop]),
          drop_eq_nil_of_le (by rw [length_drop])]
    · rw [queue_putQueue, if_neg hne]
      unfold queue
      rw [get?_insert, if_pos rfl, Option.getD_some, get?_erase, if_neg hne]
    · rw [queue_putQueue, if_neg hk]
      unfold queue
      rw [get?_insert, if_neg hk', get?_erase, if_neg hk]
  · next hstay =>
    cases hr
    -- nothing moves: no number, no one left, or the same queue
    have hmov : movable qs call = [] := by
      unfold movable
      split
      · rfl
      next hne =>
      rw [hqueue, ← hrest]
      by_cases hnr : 0 < call.nrRequeue
      · have hnil : rest = [] := by
          by_contra hrne
          exact hstay ⟨hnr, hrne, hne⟩
        rw [hnil, live, filter_nil, take_nil]
      · rw [Int.toNat_of_nonpos (by omega), take_zero]
    refine ⟨rfl, by rw [hqueue], by rw [hmov]; rfl, hflags, ?_, fun hne => ?_, fun k hk _ => ?_⟩
    · rwa [queue_putQueue, if_pos rfl, hmov, hqueue]
    · rw [queue_putQueue, if_neg hne, append_nil]
      exact herase _ hne
    · rw [queue_putQueue, if_neg hk]
      exact herase k hk

/-! ### What a critical section does to the waiters -/

/-- The waiters afterwards were there before, with the same task and flag, and none of them twice.
Flags are only cleared, and who keeps the flag keeps a place. A waiter that stays with its flag
cleared had it cleared before, or is among those in `stale`. -/
structure Effect (qs qs' : FutexQueues) (stale : Nat → Prop) : Prop where
  next : qs'.nextFlag = qs.nextFlag
  distinct : Distinct qs'
  origin : ∀ key, ∀ w ∈ qs'.queue key, ∃ key', ∃ w' ∈ qs.queue key', w'.inQueue = w.inQueue ∧ w'.task = w.task
  mono : ∀ n, qs'.flag n = true → qs.flag n = true
  kept : ∀ key, ∀ w ∈ qs.queue key, qs'.flag w.inQueue = true → ∃ key', ∃ w' ∈ qs'.queue key',
    w'.inQueue = w.inQueue
  old : ∀ key, ∀ w ∈ qs'.queue key, qs'.flag w.inQueue = false → qs.flag w.inQueue = false ∨ stale w.inQueue

/-- Waiters are taken out of queues, and nothing else happens to the queues. -/
theorem Effect.ofSublist (h : Distinct qs) {stale : Nat → Prop} (hnext : qs'.nextFlag = qs.nextFlag)
    (hsub : ∀ key, (qs'.queue key).Sublist (qs.queue key))
    (hmono : ∀ n, qs'.flag n = true → qs.flag n = true)
    (hkept : ∀ key, ∀ w ∈ qs.queue key, qs'.flag w.inQueue = true → w ∈ qs'.queue key)
    (hold : ∀ key, ∀ w ∈ qs'.queue key, qs'.flag w.inQueue = false →
      qs.flag w.inQueue = false ∨ stale w.inQueue) : Effect qs qs' stale :=
  ⟨hnext, h.sublist hsub, fun key w hw => ⟨key, w, (hsub key).subset hw, rfl, rfl⟩, hmono,
    fun key w hw hflag => ⟨key, w, hkept key w hw hflag, rfl⟩, hold⟩

theorem Woke.effect (h : Woke qs woken qs') (hd : Distinct qs) : Effect qs qs' fun _ => False := by
  refine Effect.ofSublist hd h.next h.sub (fun n hn => ((h.flag n).mp hn).1) h.kept fun key w hw hoff => ?_
  left
  by_contra hon
  rw [Bool.not_eq_false] at hon
  have hset := (h.flag w.inQueue).mpr ⟨hon, h.gone key w hw⟩
  rw [hoff] at hset
  cases hset

theorem queue_clear : (qs.clear n).queue key = qs.queue key := rfl

theorem flag_clear (h : (qs.clear n).flag m = true) : m ≠ n ∧ qs.flag m = true := by
  unfold clear at h
  dsimp only at h
  by_cases hm : m = n
  · subst hm
    simp at h
  · exact ⟨hm, by rwa [update_of_ne hm] at h⟩

theorem flag_clear_of_ne (h : m ≠ n) : (qs.clear n).flag m = qs.flag m := update_of_ne h ..

/-- **Removing all waiters of a kind**, and clearing their flags, is waking them. -/
theorem Woke.ofRemoveWhere (h : Distinct qs) (hnext : qs'.nextFlag = qs.nextFlag)
    (hq : ∀ key, qs'.queue key = (qs.queue key).filter fun w => !test w)
    (hflag : ∀ n, qs'.flag n = true ↔ qs.flag n = true ∧ n ∉ flags (qs.queues.values.flatten.filter test)) :
    Woke qs (qs.queues.values.flatten.filter test) qs' := by
  refine ⟨hnext, hflag, fun key => ?_, fun key w hw hmem => ?_, fun key w hw hset => ?_⟩
  · rw [hq]
    exact filter_sublist
  · rw [hq] at hw
    obtain ⟨hw, htest⟩ := mem_filter.mp hw
    obtain ⟨v, hv, hvw⟩ := mem_flags.mp hmem
    obtain ⟨hv, htest'⟩ := mem_filter.mp hv
    obtain ⟨key', hv⟩ := mem_values_flatten.mp hv
    -- the same flag, so the same waiter
    obtain rfl := h.unique key key' w v hw hv hvw.symm
    have heq : v = w := inj_on_of_nodup_map (h.nodup key) hv hw hvw
    simp [← heq, htest'] at htest
  · rw [hq]
    refine mem_filter.mpr ⟨hw, ?_⟩
    rw [Bool.not_eq_true', Bool.eq_false_iff]
    intro htest
    have hin := mem_filter.mpr ⟨mem_values_flatten.mpr ⟨key, hw⟩, htest⟩
    exact ((hflag _).mp hset).2 (mem_flags.mpr ⟨w, hin, rfl⟩)

/-- **`remove_waiter`** leaves no waiter with the flag. -/
theorem removeWaiter_effect (h : Distinct qs) : Effect qs (removeWaiter qs n).1 (fun _ => False) ∧
      ∀ key, ∀ w ∈ (removeWaiter qs n).1.queue key, w.inQueue ≠ n := by
  have hq key : (removeWaiter qs n).1.queue key = (qs.queue key).filter fun w => !(w.inQueue == n) := by
    unfold removeWaiter
    split
    · rw [queue_clear, queue_removeWhere]
    · exact queue_removeWhere
  have hgone m : m ∈ flags (qs.queues.values.flatten.filter fun w => w.inQueue == n) ↔ m = n ∧
      (qs.queues.values.any fun queue => queue.any fun w => w.inQueue == n) = true := by
    rw [← any_flatten]
    simp only [mem_flags, mem_filter, any_eq_true, beq_iff_eq]
    constructor
    · rintro ⟨w, ⟨hw, hwn⟩, rfl⟩
      exact ⟨hwn, w, hw, hwn⟩
    · rintro ⟨rfl, w, hw, hwn⟩
      exact ⟨w, ⟨hw, hwn⟩, hwn⟩
  have hwoke : Woke qs (qs.queues.values.flatten.filter fun w => w.inQueue == n) (removeWaiter qs n).1 := by
    refine Woke.ofRemoveWhere h ?_ hq fun m => ?_
    · unfold removeWaiter
      split <;> rfl
    rw [hgone]
    unfold removeWaiter
    split
    · next hfound =>
      rw [and_iff_left hfound, and_comm]
      refine ⟨flag_clear, fun hm => ?_⟩
      rw [flag_clear_of_ne hm.1]
      exact hm.2
    · next hnone => exact (and_iff_left fun hm => hnone hm.2).symm
  refine ⟨hwoke.effect h, fun key w hw => ?_⟩
  rw [hq] at hw
  simpa using (mem_filter.mp hw).2

/-- **`remove_tracked_futex_waiter`** leaves no waiter with the flag, unless it has not found it. -/
theorem removeTracked_effect {handle : FutexWaitHandle} (h : Distinct qs) :
    Effect qs (removeTracked qs handle).1
      (fun n => n = handle.inQueue ∧ (removeTracked qs handle).2 = false) := by
  have hq key : (removeTracked qs handle).1.queue key = if key = handle.key then
      (qs.queue key).filter fun w => !(w.inQueue == handle.inQueue) else qs.queue key := by
    unfold removeTracked
    rw [queue_clear, queue_putQueue]
    split
    · next hk => rw [hk]
    · rfl
  have hflag m (hm : (removeTracked qs handle).1.flag m = true) : m ≠ handle.inQueue ∧ qs.flag m = true :=
    flag_clear hm
  refine Effect.ofSublist h rfl ?_ (fun m hm => (hflag m hm).2) ?_ ?_
  · intro key
    rw [hq]
    split
    · exact filter_sublist
    · exact Sublist.refl _
  · intro key w hw hset
    rw [hq]
    split
    · exact mem_filter.mpr ⟨hw, by simpa using (hflag _ hset).1⟩
    · exact hw
  · intro key w hw hoff
    by_cases hn : w.inQueue = handle.inQueue
    · -- still there, so it was in another queue than the record says
      right
      refine ⟨hn, Bool.eq_false_iff.mpr fun hfound => ?_⟩
      obtain ⟨v, hv, hvn⟩ := any_eq_true.mp hfound
      rw [beq_iff_eq] at hvn
      have hw' := hw
      rw [hq] at hw'
      split at hw'
      · have hne := (mem_filter.mp hw').2
        simp [hn] at hne
      · next hk => exact hk (h.unique key handle.key w v hw' hv (hn.trans hvn.symm))
    · left
      rw [← hoff]
      exact (flag_clear_of_ne hn).symm

/-- **`remove_futex_waiters`**, where it looks everywhere, leaves no waiter of the task. -/
theorem removeTask_effect {task : TaskId} (h : Distinct qs) :
    Effect qs (removeTask qs task) (fun _ => False) ∧ ∀ key, ∀ w ∈ (removeTask qs task).queue key,
      w.task ≠ task := by
  have hq : ∀ key, (removeTask qs task).queue key = (qs.queue key).filter fun w => !(w.task == task) :=
    fun _ => queue_removeWhere
  have hwoke : Woke qs _ (removeTask qs task) := Woke.ofRemoveWhere h rfl hq fun _ => cleared_iff
  refine ⟨hwoke.effect h, fun key w hw => ?_⟩
  rw [hq] at hw
  simpa using (mem_filter.mp hw).2

theorem flags_retarget : flags (l.map (retarget call)) = flags l := by
  rw [flags, map_map]
  rfl

variable (h : Requeues qs call r)

include h

/-- The waiters of the first queue whose flag is set: the woken, the moved, and those that stay. -/
theorem Requeues.parts :
    live qs.flag (qs.queue call.key1) = r.wakeList ++ (movable qs call ++ r.qs.queue call.key1) := by
  rw [h.first, h.woken]
  unfold movable
  split
  · exact (take_append_drop ..).symm
  · rw [prefix_iff_eq_append.mp ( take_prefix ..), take_append_drop]

theorem Requeues.mem_parts : v ∈ r.wakeList ++ (movable qs call ++ r.qs.queue call.key1) ↔
      v ∈ qs.queue call.key1 ∧ qs.flag v.inQueue = true := by
  rw [← h.parts]
  exact mem_live

theorem Requeues.mem_first_of_movable (hv : v ∈ movable qs call) : v ∈ qs.queue call.key1 :=
  (h.mem_parts.mp (mem_append_right _ (mem_append_left _ hv))).1

variable (hd : Distinct qs)

include hd

theorem Requeues.nodup_parts :
    (flags r.wakeList ++ (flags (movable qs call) ++ flags (r.qs.queue call.key1))).Nodup := by
  have hnodup : (flags (live qs.flag (qs.queue call.key1))).Nodup :=
    (hd.nodup call.key1).sublist (filter_sublist.map _)
  rwa [h.parts, flags, map_append, map_append] at hnodup

/-- Where a waiter is afterwards: in its queue, or moved to the second one. -/
theorem Requeues.place (hw : w ∈ r.qs.queue k) :
    (w ∈ qs.queue k ∧ w.inQueue ∉ flags (movable qs call) ∧ w.inQueue ∉ flags r.wakeList) ∨
      (k = call.key2 ∧ ∃ v ∈ movable qs call, w = retarget call v) := by
  have hsub v (hv : v ∈ r.wakeList ++ (movable qs call ++ r.qs.queue call.key1)) : v ∈ qs.queue call.key1 :=
    (h.mem_parts.mp hv).1
  by_cases hk1 : k = call.key1
  · -- a waiter that stays comes after the others in a list without duplicates
    subst hk1
    have hnodup := h.nodup_parts hd
    rw [← append_assoc] at hnodup
    have hdisj := (nodup_append.mp hnodup).2.2
    have hwmem : w.inQueue ∈ flags (r.qs.queue call.key1) := mem_flags.mpr ⟨w, hw, rfl⟩
    refine .inl ⟨hsub w (mem_append_right _ (mem_append_right _ hw)), ?_, ?_⟩
    · exact fun hm => hdisj _ (mem_append_right _ hm) _ hwmem rfl
    · exact fun hm => hdisj _ (mem_append_left _ hm) _ hwmem rfl
  -- a waiter of another queue shares no flag with the first one
  have hother (hwq : w ∈ qs.queue k) : w.inQueue ∉ flags (movable qs call) ∧ w.inQueue ∉ flags r.wakeList := by
    constructor
    · exact hd.not_mem_flags hk1 hwq fun v hv => h.mem_first_of_movable hv
    · exact hd.not_mem_flags hk1 hwq fun v hv => hsub v (mem_append_left _ hv)
  by_cases hk2 : k = call.key2
  · subst hk2
    rw [h.second hk1] at hw
    rcases mem_append.mp hw with hw | hw
    · exact .inl ⟨hw, hother hw⟩
    · rw [h.moved] at hw
      obtain ⟨v, hv, hvw⟩ := mem_map.mp hw
      exact .inr ⟨rfl, v, hv, hvw.symm⟩
  · rw [h.other k hk1 hk2] at hw
    exact .inl ⟨hw, hother hw⟩

theorem Requeues.distinct : Distinct r.qs := by
  have hrest := (nodup_append.mp (h.nodup_parts hd)).2.1
  constructor
  · intro k
    by_cases hk1 : k = call.key1
    · rw [hk1]
      exact (nodup_append.mp hrest).2.1
    by_cases hk2 : k = call.key2
    · subst hk2
      rw [h.second hk1, h.moved, flags, map_append]
      refine nodup_append.mpr ⟨hd.nodup _, ?_, ?_⟩
      · change (flags _).Nodup
        rw [flags_retarget]
        exact (nodup_append.mp hrest).1
      intro n hn m hm heq
      change m ∈ flags _ at hm
      rw [flags_retarget, ← heq] at hm
      obtain ⟨w, hw, rfl⟩ := mem_flags.mp hn
      exact hd.not_mem_flags hk1 hw (fun v hv => h.mem_first_of_movable hv) hm
    · rw [h.other k hk1 hk2]
      exact hd.nodup k
  · intro k k' w w' hw hw' heq
    rcases h.place hd hw with ⟨hwq, hnot, -⟩ | ⟨hk, v, hv, rfl⟩ <;>
      rcases h.place hd hw' with ⟨hwq', hnot', -⟩ | ⟨hk', v', hv', rfl⟩
    · exact hd.unique k k' w w' hwq hwq' heq
    · exact absurd (mem_flags.mpr ⟨v', hv', heq.symm⟩) hnot
    · exact absurd (mem_flags.mpr ⟨v, hv, heq⟩) hnot'
    · rw [hk, hk']

/-- **A requeue neither loses nor duplicates a waiter.** -/
theorem Requeues.effect : Effect qs r.qs fun _ => False := by
  refine ⟨h.next, h.distinct hd, ?_, fun n hn => ((h.flag n).mp hn).1, ?_, ?_⟩
  · intro k w hw
    rcases h.place hd hw with ⟨hwq, -, -⟩ | ⟨-, v, hv, rfl⟩
    · exact ⟨k, w, hwq, rfl, rfl⟩
    · exact ⟨call.key1, v, h.mem_first_of_movable hv, rfl, rfl⟩
  · intro k w hw hset
    obtain ⟨hset, hnot⟩ := (h.flag _).mp hset
    by_cases hk1 : k = call.key1
    · subst hk1
      rcases mem_append.mp (h.mem_parts.mpr ⟨hw, hset⟩) with hwoken | hleft
      · exact absurd (mem_flags.mpr ⟨w, hwoken, rfl⟩) hnot
      rcases mem_append.mp hleft with hmoved | hstay
      · -- only another queue takes waiters
        have hne : call.key2 ≠ call.key1 := by
          intro heq
          rw [movable, if_pos heq] at hmoved
          cases hmoved
        refine ⟨call.key2, retarget call w, ?_, rfl⟩
        rw [h.second hne, h.moved]
        exact mem_append_right _ (mem_map_of_mem hmoved)
      · exact ⟨call.key1, w, hstay, rfl⟩
    by_cases hk2 : k = call.key2
    · subst hk2
      refine ⟨call.key2, w, ?_, rfl⟩
      rw [h.second hk1]
      exact mem_append_left _ hw
    · refine ⟨k, w, ?_, rfl⟩
      rwa [h.other k hk1 hk2]
  · intro k w hw hoff
    left
    by_contra hon
    rw [Bool.not_eq_false] at hon
    have hwoken : w.inQueue ∈ flags r.wakeList := by
      by_contra hnot
      have hset := (h.flag _).mpr ⟨hon, hnot⟩
      rw [hoff] at hset
      cases hset
    rcases h.place hd hw with ⟨-, -, hnot⟩ | ⟨-, v, hv, rfl⟩
    · exact hnot hwoken
    · -- the moved were not woken
      exact (nodup_append.mp (h.nodup_parts hd)).2.2 _ hwoken _
        (mem_append_left _ (mem_flags.mpr ⟨v, hv, rfl⟩)) rfl

end Queues

/-! ### Interleavings -/

/-- Where a task is in `FUTEX_WAIT`. -/
inductive FutexPhase where
  | idle
  /-- It waits, or has been woken and is about to look at its flag. -/
  | waiting (flag : Nat)
  /-- After a signal or at the time limit, with the record it has taken. -/
  | tracked (flag : Nat) (handle : FutexWaitHandle)
  /-- About to look for the waiter everywhere. -/
  | scanning (flag : Nat)
  /-- About to clear the record and return. -/
  | clearing (flag : Nat)

/-- What is still to be done by those who have unlocked the queues. -/
inductive FutexJob where
  /-- `update_futex_wait_key`, after a requeue. -/
  | updateKey (task : TaskId) (flag : Nat) (key : FutexKey)
  /-- `clear_futex_wait`, after a wake. -/
  | clearWait (task : TaskId) (flag : Nat)
  /-- The exit of a task, with the record that was taken. -/
  | exitTracked (task : TaskId) (handle : FutexWaitHandle)
  /-- The exit of a task, about to look everywhere. -/
  | exitScan (task : TaskId)
  deriving DecidableEq

/-- The queues, the records of the tasks, where they are, and what is to be done. -/
structure FutexState where
  qs : FutexQueues
  futexWait : TaskId → Option FutexWaitHandle
  phase : TaskId → FutexPhase
  jobs : List FutexJob

/-- No one waits. -/
def FutexState.boot : FutexState := ⟨.boot, fun _ => none, fun _ => .idle, []⟩

def updateFutexWaitKey (flag : Nat) (key : FutexKey) (handle : Option FutexWaitHandle) :
    Option FutexWaitHandle :=
  handle.map fun h => if h.inQueue = flag then { h with key := key } else h

def clearFutexWait (flag : Nat) (handle : Option FutexWaitHandle) : Option FutexWaitHandle :=
  handle.filter fun h => h.inQueue ≠ flag

/-- **One critical section**, or one access to a record. -/
inductive FutexStep (st : FutexState) : FutexState → Prop
  /-- `FUTEX_WAIT` puts a waiter into its queue. -/
  | wait (t : TaskId) (call : FutexWaitCall) (env : FutexWaitEnv)
      (hidle : st.phase t = .idle) (hcheck : call.check env = .ok ()) :
      FutexStep st { st with
          qs := enqueue st.qs t call
          futexWait := update st.futexWait t (some ⟨call.key, st.qs.nextFlag⟩)
          phase := update st.phase t (.waiting st.qs.nextFlag) }
  | wake (call : FutexWakeCall) (r : Waking) (hr : futexWakeWithMask st.qs call = .ok r) :
      FutexStep st { st with
          qs := r.qs
          jobs := st.jobs ++ r.wakeList.map fun w => .clearWait w.task w.inQueue }
  | requeue (call : FutexRequeueCall) (cur : BitVec 32) (r : Requeued)
      (hr : futexRequeue st.qs call cur = .ok r) :
      FutexStep st { st with
          qs := r.qs
          jobs := st.jobs ++ (r.moved.map fun w => .updateKey w.task w.inQueue call.key2) ++
            r.wakeList.map fun w => .clearWait w.task w.inQueue }
  /-- A task that was woken finds its flag cleared, and returns. -/
  | resume (t : TaskId) (n : Nat) (hphase : st.phase t = .waiting n)
      (hflag : st.qs.flag n = false) :
      FutexStep st { st with
          futexWait := update st.futexWait t (clearFutexWait n (st.futexWait t))
          phase := update st.phase t .idle }
  /-- A signal, or the time limit: the record is taken. -/
  | detach (t : TaskId) (n : Nat) (hphase : st.phase t = .waiting n) : FutexStep st
        { st with
          futexWait := update st.futexWait t none
          phase := update st.phase t (match st.futexWait t with
              | none => .scanning n
              | some handle => .tracked n handle) }
  | removeTracked (t : TaskId) (n : Nat) (handle : FutexWaitHandle)
      (hphase : st.phase t = .tracked n handle) :
      FutexStep st { st with
          qs := (removeTracked st.qs handle).1
          phase := update st.phase t
            (if (removeTracked st.qs handle).2 then .clearing n else .scanning n) }
  | removeWaiter (t : TaskId) (n : Nat) (hphase : st.phase t = .scanning n) : FutexStep st
        { st with
          qs := (removeWaiter st.qs n).1
          phase := update st.phase t (.clearing n) }
  | detached (t : TaskId) (n : Nat) (hphase : st.phase t = .clearing n) : FutexStep st
        { st with
          futexWait := update st.futexWait t (clearFutexWait n (st.futexWait t))
          phase := update st.phase t .idle }
  /-- A task is cleaned up, by itself or by another one: its record is taken. -/
  | exit (t : TaskId) : FutexStep st { st with
          futexWait := update st.futexWait t none
          jobs := st.jobs ++ [match st.futexWait t with
            | none => .exitScan t
            | some handle => .exitTracked t handle] }
  | updateKey (t : TaskId) (n : Nat) (key : FutexKey)
      (hjob : .updateKey t n key ∈ st.jobs) :
      FutexStep st { st with
          futexWait := update st.futexWait t (updateFutexWaitKey n key (st.futexWait t))
          jobs := st.jobs.erase (.updateKey t n key) }
  | clearWait (t : TaskId) (n : Nat) (hjob : .clearWait t n ∈ st.jobs) : FutexStep st
        { st with
          futexWait := update st.futexWait t (clearFutexWait n (st.futexWait t))
          jobs := st.jobs.erase (.clearWait t n) }
  | exitTracked (t : TaskId) (handle : FutexWaitHandle)
      (hjob : .exitTracked t handle ∈ st.jobs) :
      FutexStep st { st with
          qs := (removeTracked st.qs handle).1
          jobs := st.jobs.erase (.exitTracked t handle) ++
            if (removeTracked st.qs handle).2 then [] else [.exitScan t] }
  | exitScan (t : TaskId) (hjob : .exitScan t ∈ st.jobs) : FutexStep st { st with
          qs := removeTask st.qs t
          jobs := st.jobs.erase (.exitScan t) }

/-- A removal that looks everywhere is still to come for the waiter. -/
def Pending (st : FutexState) (w : FutexWaiter) : Prop :=
  .exitScan w.task ∈ st.jobs ∨ ∃ t, st.phase t = .scanning w.inQueue

/-- Someone has, or has taken, the record of a task. -/
def Records (st : FutexState) (t : TaskId) (handle : FutexWaitHandle) : Prop :=
  st.futexWait t = some handle ∨ .exitTracked t handle ∈ st.jobs

/-- The invariant of the queues and the records. -/
structure FutexInv (st : FutexState) : Prop where
  distinct : Distinct st.qs
  bound : ∀ key, ∀ w ∈ st.qs.queue key, w.inQueue < st.qs.nextFlag
  /-- Who has its flag set is in a queue. -/
  queued : ∀ n, st.qs.flag n = true → ∃ key, ∃ w ∈ st.qs.queue key, w.inQueue = n
  /-- Who has not is in none, or about to be removed. -/
  stale : ∀ key, ∀ w ∈ st.qs.queue key, st.qs.flag w.inQueue = false → Pending st w
  /-- A record is about the wait its task is in. -/
  handle : ∀ t h, st.futexWait t = some h → st.phase t = .waiting h.inQueue
  tracked : ∀ t n h, st.phase t = .tracked n h → h.inQueue = n
  owner : ∀ t h, Records st t h → h.inQueue < st.qs.nextFlag ∧
    ∀ key, ∀ w ∈ st.qs.queue key, w.inQueue = h.inQueue → w.task = t

/-- Records come from records. -/
def RecordsFrom (st st' : FutexState) : Prop :=
  ∀ t h, Records st' t h → ∃ h', Records st t h' ∧ h'.inQueue = h.inQueue

section Invariant

variable {st st' : FutexState} {n : Nat} {o : Option FutexWaitHandle} {hd : FutexWaitHandle} {t : TaskId}
  {p q : FutexPhase}

theorem futexInv_boot : FutexInv FutexState.boot := by
  have hnil : ∀ {key w}, w ∉ FutexState.boot.qs.queue key := not_mem_nil
  refine ⟨⟨fun _ => nodup_nil, fun _ _ _ _ hw => absurd hw hnil⟩, fun _ _ hw => absurd hw hnil,
    nofun, fun _ _ hw => absurd hw hnil, nofun, nofun, ?_⟩
  rintro t h (hh | hh)
  · cases hh
  · cases hh

/-- **A critical section that makes no waiter.** What it does to the queues is an `Effect`; who was
about to be removed still is, as is who has the flag cleared now; and records come from records. -/
theorem FutexInv.ofEffect (h : FutexInv st) {stale : Nat → Prop} (he : Effect st.qs st'.qs stale)
    (hpend : ∀ key, ∀ w ∈ st'.qs.queue key, Pending st w ∨ stale w.inQueue → Pending st' w)
    (hhandle : ∀ t h, st'.futexWait t = some h → st'.phase t = .waiting h.inQueue)
    (htracked : ∀ t n h, st'.phase t = .tracked n h → h.inQueue = n) (hrec : RecordsFrom st st') :
    FutexInv st' := by
  refine ⟨he.distinct, ?_, ?_, ?_, hhandle, htracked, ?_⟩
  · intro key w hw
    obtain ⟨key', w', hw', hn, -⟩ := he.origin key w hw
    rw [he.next, ← hn]
    exact h.bound key' w' hw'
  · intro n hn
    obtain ⟨key, w, hw, rfl⟩ := h.queued n (he.mono n hn)
    exact he.kept key w hw hn
  · intro key w hw hoff
    refine hpend key w hw ?_
    rcases he.old key w hw hoff with hwas | hnow
    · obtain ⟨key', w', hw', hn, ht⟩ := he.origin key w hw
      left
      have hp := h.stale key' w' hw' (by rwa [hn])
      unfold Pending at hp ⊢
      rwa [hn, ht] at hp
    · exact .inr hnow
  · intro t hd hr
    obtain ⟨hd', hr', hsame⟩ := hrec t hd hr
    obtain ⟨hlt, howns⟩ := h.owner t hd' hr'
    rw [← hsame, he.next]
    refine ⟨hlt, fun key w hw hn => ?_⟩
    obtain ⟨key', w', hw', hn', ht⟩ := he.origin key w hw
    rw [← ht]
    exact howns key' w' hw' (hn'.trans hn)

theorem clearFutexWait_eq_some (hc : clearFutexWait n o = some hd) : o = some hd ∧ hd.inQueue ≠ n := by
  unfold clearFutexWait at hc
  simpa using hc

theorem Effect.refl {qs : FutexQueues} (h : Distinct qs) : Effect qs qs fun _ => False :=
  Woke.refl.effect h

/-- A removal that is still to come stays so if no job is dropped and no task has looked
everywhere. -/
theorem Pending.mono {w : FutexWaiter} (h : Pending st w)
    (hjobs : ∀ t, .exitScan t ∈ st.jobs → .exitScan t ∈ st'.jobs)
    (hphase : ∀ t n, st.phase t = .scanning n → st'.phase t = .scanning n) : Pending st' w := by
  rcases h with hjob | ⟨t, ht⟩
  · exact .inl (hjobs _ hjob)
  · exact .inr ⟨t, hphase t _ ht⟩

/-- A task that does not look everywhere changes its phase. -/
theorem scanning_update (hp : st.phase t = p) (hne : ∀ n, p ≠ .scanning n) (t' : TaskId) {n : Nat}
    (h : st.phase t' = .scanning n) : update st.phase t q t' = .scanning n := by
  rw [update_of_ne ?_ ..]
  · exact h
  · rintro rfl
    exact hne n (hp.symm.trans h)

/-- A record that one task gives up or has changed is a record it had. -/
theorem records_update (ho : ∀ h, o = some h → ∃ h', st.futexWait t = some h' ∧ h'.inQueue = h.inQueue)
    (hwait : st'.futexWait = update st.futexWait t o)
    (hjobs : ∀ t h, .exitTracked t h ∈ st'.jobs → ∃ h', Records st t h' ∧ h'.inQueue = h.inQueue) :
    RecordsFrom st st' := by
  rintro t' h (hr | hr)
  · rw [hwait, update_apply] at hr
    split at hr
    · next ht =>
      obtain ⟨h', hh', hsame⟩ := ho h hr
      exact ⟨h', .inl (ht ▸ hh'), hsame⟩
    · exact ⟨h, .inl hr, rfl⟩
  · exact hjobs t' h hr

theorem records_jobs (hr : .exitTracked t hd ∈ st.jobs) :
    ∃ h', Records st t h' ∧ h'.inQueue = hd.inQueue := ⟨hd, Or.inr hr, rfl⟩

/-- No record changes, and none is taken. -/
theorem records_same (hwait : st'.futexWait = st.futexWait)
    (hjobs : ∀ t h, .exitTracked t h ∈ st'.jobs → .exitTracked t h ∈ st.jobs) : RecordsFrom st st' :=
  fun t h hr => ⟨h, hr.imp (fun heq => hwait ▸ heq) (hjobs t h), rfl⟩

section

variable (h : FutexInv st)

include h

theorem FutexInv.tracked_update (hq : ∀ n hd, q = .tracked n hd → hd.inQueue = n) (t' : TaskId)
    {n : Nat} (hd : FutexWaitHandle)
    (hp : update st.phase t q t' = .tracked n hd) : hd.inQueue = n := by
  rw [update_apply] at hp
  split at hp
  · exact hq n hd hp
  · exact h.tracked t' n hd hp

/-! ### Steps -/

/-- **A new waiter** has a flag that no one has, and is the last in its queue. -/
theorem FutexInv.wait {call : FutexWaitCall} (hidle : st.phase t = .idle) :
    FutexInv { st with
      qs := enqueue st.qs t call
      futexWait := update st.futexWait t (some ⟨call.key, st.qs.nextFlag⟩)
      phase := update st.phase t (.waiting st.qs.nextFlag) } := by
  have hq k : (enqueue st.qs t call).queue k = if k = call.key then
      st.qs.queue k ++ [call.waiter t st.qs.nextFlag] else st.qs.queue k := by
    unfold enqueue queue
    rw [get?_insert]
    split
    · next hk => rw [hk]; rfl
    · rfl
  have hmem k w : w ∈ (enqueue st.qs t call).queue k ↔ w ∈ st.qs.queue k ∨
      (k = call.key ∧ w = call.waiter t st.qs.nextFlag) := by
    rw [hq]
    split
    · next hk => simp [hk]
    · next hk => simp [hk]
  have hflag n (hn : n ≠ st.qs.nextFlag) : (enqueue st.qs t call).flag n = st.qs.flag n := update_of_ne hn ..
  have hset : (enqueue st.qs t call).flag st.qs.nextFlag = true := update_self ..
  constructor
  · constructor
    · intro k
      rw [hq]
      split
      · rw [flags, map_append]
        refine nodup_append.mpr ⟨h.distinct.nodup k, nodup_singleton _, ?_⟩
        intro n hn m hm heq
        obtain ⟨w, hw, hwn⟩ := mem_flags.mp hn
        rw [map_singleton, mem_singleton] at hm
        have hlt := h.bound k w hw
        rw [hwn, heq, hm] at hlt
        exact absurd hlt (lt_irrefl _)
      · exact h.distinct.nodup k
    · intro k k' w w' hw hw' heq
      rcases (hmem k w).mp hw with hw | ⟨hk, rfl⟩ <;> rcases (hmem k' w').mp hw' with hw' | ⟨hk', rfl⟩
      · exact h.distinct.unique k k' w w' hw hw' heq
      · exact absurd heq (ne_of_lt (h.bound k w hw))
      · exact absurd heq.symm (ne_of_lt (h.bound k' w' hw'))
      · rw [hk, hk']
  · intro k w hw
    rcases (hmem k w).mp hw with hw | ⟨-, rfl⟩
    · exact Nat.lt_succ_of_lt (h.bound k w hw)
    · exact Nat.lt_succ_self _
  · intro n hn
    by_cases heq : n = st.qs.nextFlag
    · exact ⟨call.key, _, (hmem ..).mpr (.inr ⟨rfl, rfl⟩), heq.symm⟩
    · obtain ⟨k, w, hw, hwn⟩ := h.queued n (by rw [← hflag n heq]; exact hn)
      exact ⟨k, w, (hmem k w).mpr (.inl hw), hwn⟩
  · intro k w hw hoff
    rcases (hmem k w).mp hw with hw | ⟨-, rfl⟩
    · have hold : st.qs.flag w.inQueue = false := by rwa [← hflag _ (ne_of_lt (h.bound k w hw))]
      exact (h.stale k w hw hold).mono (fun _ => id) (scanning_update hidle nofun)
    · exact absurd (hset.symm.trans hoff) Bool.false_ne_true.symm
  · intro t' hd hh
    dsimp only at hh ⊢
    rw [update_apply] at hh ⊢
    split at hh
    · next ht =>
      cases hh
      rw [if_pos ht]
    · next ht =>
      rw [if_neg ht]
      exact h.handle t' hd hh
  · exact h.tracked_update nofun
  · intro t' hd hr
    -- a record from before is about an older flag
    have hrest (hr : Records st t' hd) : hd.inQueue < st.qs.nextFlag + 1 ∧
        ∀ key, ∀ w ∈ (enqueue st.qs t call).queue key, w.inQueue = hd.inQueue → w.task = t' := by
      obtain ⟨hlt, howns⟩ := h.owner t' hd hr
      refine ⟨Nat.lt_succ_of_lt hlt, fun k w hw hn => ?_⟩
      rcases (hmem k w).mp hw with hw | ⟨-, rfl⟩
      · exact howns k w hw hn
      · exact absurd hn.symm hlt.ne
    rcases hr with hr | hr
    · dsimp only at hr
      rw [update_apply] at hr
      split at hr
      · next ht =>
        cases hr
        refine ⟨Nat.lt_succ_self _, fun k w hw hn => ?_⟩
        rcases (hmem k w).mp hw with hw | ⟨-, rfl⟩
        · exact absurd hn (ne_of_lt (h.bound k w hw))
        · exact ht.symm
      · exact hrest (.inl hr)
    · exact hrest (.inr hr)

/-- Records stay with the wait they are about, when one task loses its record or has it changed and
its phase stays. -/
theorem FutexInv.handle_update
    (ho : ∀ hd, o = some hd → ∃ hd', st.futexWait t = some hd' ∧ hd'.inQueue = hd.inQueue) (t' : TaskId)
    (hd : FutexWaitHandle) (hh : update st.futexWait t o t' = some hd) :
    st.phase t' = .waiting hd.inQueue := by
  rw [update_apply] at hh
  split at hh
  · next ht =>
    obtain ⟨hd', hh', hsame⟩ := ho hd hh
    rw [← hsame, ht]
    exact h.handle t hd' hh'
  · exact h.handle t' hd hh

/-- The same when the task ends its wait, without a record. -/
theorem FutexInv.handle_end (ho : o = none) (t' : TaskId) (hd : FutexWaitHandle)
    (hh : update st.futexWait t o t' = some hd) : update st.phase t q t' = .waiting hd.inQueue := by
  by_cases ht : t' = t
  · subst ht
    rw [update_self, ho] at hh
    cases hh
  · rw [update_of_ne ht] at hh ⊢
    exact h.handle t' hd hh

/-- The same when a task that no longer waits changes its phase. -/
theorem FutexInv.handle_phase (hphase : ∀ n, st.phase t ≠ .waiting n) (t' : TaskId)
    (hd : FutexWaitHandle) (hh : st.futexWait t' = some hd) :
    update st.phase t q t' = .waiting hd.inQueue := by
  have hw := h.handle t' hd hh
  rw [update_of_ne]
  · exact hw
  · rintro rfl
    exact hphase _ hw

/-- **A task returns from its wait**: its record is about this wait, so it goes. -/
theorem FutexInv.returns (hphase : st.phase t = p)
    (hwait : ∀ m, p = .waiting m → n = m) (hscan : ∀ m, p ≠ .scanning m) :
    FutexInv { st with
      futexWait := update st.futexWait t (clearFutexWait n (st.futexWait t))
      phase := update st.phase t .idle } := by
  have hnone : clearFutexWait n (st.futexWait t) = none := by
    rw [Option.eq_none_iff_forall_ne_some]
    intro hd hc
    obtain ⟨hh, hne⟩ := clearFutexWait_eq_some hc
    exact hne (hwait _ (hphase.symm.trans (h.handle t hd hh))).symm
  refine h.ofEffect (Effect.refl h.distinct) ?_ (h.handle_end hnone) (h.tracked_update nofun)
    (records_update (fun _ hc => by rw [hnone] at hc; cases hc) rfl fun _ _ hj => records_jobs hj)
  exact fun _ _ _ hp => (hp.resolve_right id).mono (fun _ => id) (scanning_update hphase hscan)

theorem FutexInv.recordJob {job : FutexJob}
    (ho : ∀ hd, o = some hd → ∃ hd', st.futexWait t = some hd' ∧ hd'.inQueue = hd.inQueue)
    (hjob : ∀ t', .exitScan t' ≠ job) :
    FutexInv { st with
      futexWait := update st.futexWait t o
      jobs := st.jobs.erase job } := by
  refine h.ofEffect (Effect.refl h.distinct) ?_ (h.handle_update ho) h.tracked
    (records_update ho rfl fun _ _ hj => records_jobs (mem_of_mem_erase hj))
  exact fun _ _ _ hp => (hp.resolve_right id).mono (fun t' hj => (mem_erase_of_ne (hjob t')).mpr hj)
    fun _ _ => id

/-- **Every step keeps the invariant.** -/
theorem FutexInv.step (hstep : FutexStep st st') : FutexInv st' := by
  cases hstep with
  | wait t call _ hidle => exact h.wait hidle
  | wake _ _ hr =>
    refine h.ofEffect ((futexWake_spec h.distinct hr).2.2.effect h.distinct) ?_ h.handle h.tracked
      (records_same rfl fun _ _ hr => by simpa using hr)
    exact fun _ _ _ hp => (hp.resolve_right id).mono (fun _ hj => mem_append_left _ hj) fun _ _ => id
  | requeue _ _ _ hr =>
    refine h.ofEffect ((futexRequeue_spec h.distinct hr).effect h.distinct) ?_ h.handle h.tracked
      (records_same rfl fun _ _ hr => by simpa using hr)
    exact fun _ _ _ hp => (hp.resolve_right id).mono
      (fun _ hj => mem_append_left _ (mem_append_left _ hj)) fun _ _ => id
  | resume t n hphase => exact h.returns hphase fun m hm => by cases hm; rfl nofun
  | detach t n hphase =>
    refine h.ofEffect (Effect.refl h.distinct) ?_ (h.handle_end rfl) (h.tracked_update ?_)
      (records_update (fun _ hc => by cases hc) rfl fun _ _ hj => records_jobs hj)
    · exact fun _ _ _ hp => (hp.resolve_right id).mono (fun _ => id) (scanning_update hphase nofun)
    intro m hd hc
    split at hc
    · cases hc
    next hd' hh =>
    have hw := hphase.symm.trans (h.handle t hd' hh)
    injection hw with hw
    injection hc with hm hhd
    rw [← hhd, ← hm, hw]
  | removeTracked t n handle hphase =>
    have hn : handle.inQueue = n := h.tracked t n handle hphase
    refine h.ofEffect (removeTracked_effect h.distinct) ?_
      (h.handle_phase fun m => by rw [hphase]; exact nofun) (h.tracked_update ?_)
      fun _ hd hr => ⟨hd, hr, rfl⟩
    · rintro key w hw (hp | ⟨heq, hlost⟩)
      · exact hp.mono (fun _ => id) (scanning_update hphase nofun)
      · -- the flag is cleared and the waiter still somewhere: the task looks everywhere next
        refine .inr ⟨t, ?_⟩
        dsimp only
        rw [update_self, hlost, if_neg Bool.false_ne_true, heq, hn]
    · intro m hd hc
      split at hc <;> cases hc
  | removeWaiter t n hphase =>
    obtain ⟨heffect, hgone⟩ := removeWaiter_effect h.distinct
    refine h.ofEffect heffect ?_ (h.handle_phase fun m => by rw [hphase]; exact nofun)
      (h.tracked_update nofun) fun _ hd hr => ⟨hd, hr, rfl⟩
    rintro key w hw ((hjob | ⟨t', ht'⟩) | ⟨⟨⟩⟩)
    · exact .inl hjob
    refine .inr ⟨t', ?_⟩
    have hne : t' ≠ t := by
      rintro rfl
      have hs := hphase.symm.trans ht'
      injection hs with hs
      exact hgone key w hw hs.symm
    dsimp only
    rwa [update_of_ne hne]
  | detached t n hphase => exact h.returns hphase nofun nofun
  | exit =>
    refine h.ofEffect (Effect.refl h.distinct) ?_ (h.handle_update nofun) h.tracked
      (records_update (fun _ hc => by cases hc) rfl fun t' hd hj => ?_)
    · exact fun _ _ _ hp => (hp.resolve_right id).mono (fun _ hj => mem_append_left _ hj) fun _ _ => id
    rcases mem_append.mp hj with hj | hj
    · exact records_jobs hj
    rw [mem_singleton] at hj
    split at hj
    · cases hj
    · next hd' hh =>
      injection hj with ht hhd
      exact ⟨hd', .inl (ht ▸ hh), by rw [hhd]⟩
  | updateKey =>
    refine h.recordJob (fun _ hc => ?_) nofun
    obtain ⟨hd, hhd, rfl⟩ := Option.map_eq_some_iff.mp hc
    refine ⟨hd, hhd, ?_⟩
    split <;> rfl
  | clearWait => exact h.recordJob (fun hd hc => ⟨hd, (clearFutexWait_eq_some hc).1, rfl⟩) nofun
  | exitTracked t handle hjob =>
    have heffect := @removeTracked_effect _ handle h.distinct
    refine h.ofEffect heffect ?_ h.handle h.tracked (records_same rfl fun t' hd hr => ?_)
    · rintro key w hw (hp | ⟨heq, hlost⟩)
      · exact hp.mono (fun _ hj => mem_append_left _
          ((mem_erase_of_ne fun hc => by cases hc).mpr hj)) fun _ _ => id
      -- the waiter is one of the task that exits, whose waiters are looked for next
      obtain ⟨key', w', hw', hn, ht⟩ := heffect.origin key w hw
      have htask : w.task = t := by
        rw [← ht]
        exact (h.owner t handle (.inr hjob)).2 key' w' hw' (hn.trans heq)
      refine .inl (mem_append_right _ ?_)
      rw [hlost, htask]
      exact mem_singleton_self _
    · rcases mem_append.mp hr with hr | hr
      · exact mem_of_mem_erase hr
      · split at hr
        · cases hr
        · rw [mem_singleton] at hr
          cases hr
  | exitScan t =>
    obtain ⟨heffect, hgone⟩ := removeTask_effect h.distinct
    refine h.ofEffect heffect ?_ h.handle h.tracked (records_same rfl fun _ _ => mem_of_mem_erase)
    rintro key w hw ((hj | hs) | ⟨⟨⟩⟩)
    · -- the waiters of this task are gone
      refine .inl ((mem_erase_of_ne fun hc => ?_).mpr hj)
      injection hc with hc
      exact hgone key w hw hc
    · exact .inr hs

end

/-! ### Integrity -/

/-- **The queues are sound.** In every interleaving of the critical sections, over any number of
tasks and addresses: a waiter whose flag is set is in exactly one queue, once; a waiter whose flag
is cleared is in none, unless the removal that cleared it has yet to look everywhere; a wake takes
the first candidates, not more than asked for, returns their number, and leaves the others in their
order; and a requeue wakes the first waiters of its queue, moves the next ones to the end of the
other queue, and leaves the rest. -/
theorem futex_queue_integrity (hr : Reachable (· = .boot) FutexStep st) :
    (∀ n, st.qs.flag n = true → ∃ key, (flags (st.qs.queue key)).count n = 1 ∧
      ∀ key', key' ≠ key → n ∉ flags (st.qs.queue key')) ∧
    (∀ key, ∀ w ∈ st.qs.queue key, st.qs.flag w.inQueue = false → Pending st w) ∧
    (∀ call r, futexWakeWithMask st.qs call = .ok r →
      r.wakeList = (candidates st.qs call).take call.nrWake ∧ r.woke = r.wakeList.length ∧
        r.woke ≤ call.nrWake ∧ Woke st.qs r.wakeList r.qs) ∧
    ∀ call cur r, futexRequeue st.qs call cur = .ok r → Requeues st.qs call r := by
  have hinv : FutexInv st :=
    Reachable.invariant (fun s hs => hs ▸ futexInv_boot) (fun _ _ hi hs => hi.step hs) hr
  refine ⟨fun n hn => ?_, hinv.stale, fun call r hwake => ?_, fun _ _ _ hreq => futexRequeue_spec
    hinv.distinct hreq⟩
  · obtain ⟨key, w, hw, rfl⟩ := hinv.queued n hn
    refine ⟨key, ?_, fun key' hne hmem => ?_⟩
    · exact count_eq_one_of_mem (hinv.distinct.nodup key) (mem_flags.mpr ⟨w, hw, rfl⟩)
    · obtain ⟨v, hv, hvw⟩ := mem_flags.mp hmem
      exact hne (hinv.distinct.unique key' key v w hv hw hvw)
  · obtain ⟨hlist, hcount, hwoke⟩ := futexWake_spec hinv.distinct hwake
    refine ⟨hlist, hcount, ?_, hwoke⟩
    rw [hcount, hlist, length_take]
    exact min_le_left ..

/-- A wait at address `0x1000` of address space 9, in the queue of a key. -/
def waitOn (key : FutexKey) : FutexWaitCall := ⟨0x1000, 0, none, key, 9⟩

/-- The value is the expected one, and there is no signal and no time limit. -/
def quietWait : FutexWaitEnv := ⟨0, 0, false, false, false, none, 0⟩

/-- A requeue of one waiter from one private futex to another. -/
def moveOne : FutexRequeueCall := ⟨toLex (2, 0x1000), toLex (2, 0x2000), 0x1000, 0x2000, 9, 0, 1, none⟩

/-- Two tasks wait, the first of them is moved to another queue, and its flag is there once. -/
theorem futex_queue_integrity_wait :
    ∃ st, Reachable (· = .boot) FutexStep st ∧ flags (st.qs.queue (toLex (2, 0x1000))) = [1] ∧
      ∃ key, (flags (st.qs.queue key)).count 0 = 1 ∧ ∀ key', key' ≠ key → 0 ∉ flags (st.qs.queue key') := by
  have hboot : Reachable (· = .boot) FutexStep _ := .start rfl
  have hwait := hboot.step (.wait 1 (waitOn (toLex (2, 0x1000))) quietWait rfl rfl)
  have hwait₂ := hwait.step (.wait 2 (waitOn (toLex (2, 0x1000))) quietWait rfl rfl)
  have hmove := hwait₂.step (.requeue moveOne 0 _ rfl)
  exact ⟨_, hmove, by decide +kernel, (futex_queue_integrity hmove).1 0 rfl⟩

/-- A wake of one waiter of a shared futex. -/
def wakeShared : FutexWakeCall := ⟨toLex (0, 0x3000), 0x1000, 1, futexBitsetMatchAny, some (9, 0x1000)⟩

/-- **Two things that do not hold.** A waiter is moved, and before its record is corrected a signal
removes it: its flag is cleared, and it is still in the second queue. And two tasks wait at one
address, of which the physical page changes in between: a wake of one takes the second, though the
first matches too. -/
theorem cleared_waiter_queued_and_later_first :
    (∃ st, Reachable (· = .boot) FutexStep st ∧
      ∃ key, ∃ w ∈ st.qs.queue key, st.qs.flag w.inQueue = false) ∧
    ∃ st, Reachable (· = .boot) FutexStep st ∧
      ∃ r, futexWakeWithMask st.qs wakeShared = .ok r ∧ flags r.wakeList = [1] ∧
        flags (candidates st.qs wakeShared) = [1, 0] := by
  have hboot : Reachable (· = .boot) FutexStep _ := .start rfl
  constructor
  · have hwait := hboot.step (.wait 1 (waitOn (toLex (2, 0x1000))) quietWait rfl rfl)
    have hmove := hwait.step (.requeue moveOne 0 _ rfl)
    have hsignal := hmove.step (.detach 1 0 rfl)
    have hremove := hsignal.step (.removeTracked 1 0 ⟨toLex (2, 0x1000), 0⟩ rfl)
    exact ⟨_, hremove, toLex (2, 0x2000), retarget moveOne ((waitOn (toLex (2, 0x1000))).waiter 1 0),
      by decide +kernel, by decide +kernel⟩
  · have hfirst := hboot.step (.wait 1 (waitOn (toLex (0, 0x5000))) quietWait rfl rfl)
    have hsecond := hfirst.step (.wait 2 (waitOn (toLex (0, 0x3000))) quietWait rfl rfl)
    exact ⟨_, hsecond, _, rfl, by decide +kernel, by decide +kernel⟩

end Invariant

end HitOS.Futex
