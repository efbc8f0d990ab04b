import HitOS.Fs.PipeStream
import HitOS.Lib.Blocking

/-!
# Wakeups of pipes

Readers, writers and pollers of one pipe, interleaved with the scheduler and with everything else
that is done to the pipe (`Blocking.Step`).

A write wakes one of the readers that wait, a read one of the writers, and another size none. So a
wakeup can be lost in these ways, and in no others:

* more than one reader waits when bytes are written: the one that is woken may leave bytes for the
  others, or may not be waiting any more;
* more than one writer waits when bytes are read;
* a writer waits when the pipe grows;
* a task waits when the last descriptor that counts is closed while the FIFO itself keeps the
  endpoint.

`Careful` excludes them, and then no task waits in vain (`pipe_no_lost_wakeup`). `ReadersKept` and
`WritersKept` are what a critical section has to do for that: a waiter that it does not wake stays
on its list, and is offered nothing.
-/

namespace HitOS.Pipe

open HitOS.Waiters List Function Option WriteCall Blocking ReadCall PipeState Parking.World RoundEnd Nat
open Parking (Task Phase)
open Blocking (Outcome Next System)

/-! ### The calls and the critical sections -/

inductive PipeCall where
  | read (call : ReadCall)
  | write (call : WriteCall)
  | poll (call : PollCall)
  deriving DecidableEq

/-- The calls as they begin. An empty write returns without looking at the pipe. -/
def PipeCall.Starts : PipeCall → Prop
  | .read _ => True
  | .write call => call.data ≠ [] ∧ call.written = 0 ∧ call.before = 0
  | .poll call => call.stage = .scan

/-- How a round ends, for the scheduler. -/
def RoundEnd.next {κ ρ : Type} (toCall : κ → PipeCall) : RoundEnd κ ρ → Next PipeCall
  | .done _ => .finish
  | .again call => .again (toCall call)
  | .park call => .park (toCall call)

/-- The critical section as the scheduler sees it. -/
def PipeRound.outcome {κ ρ : Type} (r : PipeRound κ ρ) (toCall : κ → PipeCall) :
    Outcome PipeState × Next PipeCall :=
  (⟨r.pipe, [], r.wakeups⟩, r.ends.next toCall)

def pipeRound (p : PipeState) (task : Task) (call : PipeCall) (env : RoundEnv) (other : Bool)
    (view : TaskView) : Option (Outcome PipeState × Next PipeCall) :=
  match call with
  | .read call => (readRound p task call env view).map fun r => r.outcome .read
  | .write call => (writeRound p task call env view).map fun r => r.outcome .write
  | .poll call => some ((pollRound p task call other view).outcome .poll)

/-- The other things that are done to a pipe. -/
inductive PipeAct where
  | setPipeSize (limits : PipeLimits) (size : Nat)
  | closeReadEnd
  | closeWriteEnd
  /-- `on_fd_install` of a first descriptor. -/
  | openReadEnd
  | openWriteEnd
  /-- A new reference to an endpoint. -/
  | cloneReadEnd
  | cloneWriteEnd
  | releaseReadEnd
  | releaseWriteEnd

/-- What they do; `none` if they are not possible. -/
def pipeAct (p : PipeState) (view : TaskView) : PipeAct → Option (PipeState × List Task)
  | .setPipeSize limits size => (setPipeSize p limits size view).map fun (_, p, ws) => (p, ws)
  | .closeReadEnd => some (closeReadEnd p view)
  | .closeWriteEnd => some (closeWriteEnd p view)
  | .openReadEnd => some ({ p with readEndShutdown := false }, [])
  | .openWriteEnd => some ({ p with writeEndShutdown := false }, [])
  | .cloneReadEnd => if p.readEnd = 0 then none else some ({ p with readEnd := p.readEnd + 1 }, [])
  | .cloneWriteEnd => if p.writeEnd = 0 then none else some ({ p with writeEnd := p.writeEnd + 1 }, [])
  | .releaseReadEnd => if p.readEnd = 0 then none else some (releaseReadEnd p view)
  | .releaseWriteEnd => if p.writeEnd = 0 then none else some (releaseWriteEnd p view)

/-- The critical sections of a pipe that meet a condition on the states before and after. -/
def pipeSystem (cond : PipeState → TaskView → PipeState → Prop) : System PipeState PipeCall where
  start := PipeCall.Starts
  attempt phase p task call o next :=
    ∃ env other view, ViewOf phase view ∧ pipeRound p task call env other view = some (o, next) ∧
      cond p view o.shared
  act phase p o :=
    ∃ act view ws, ViewOf phase view ∧ pipeAct p view act = some (o.shared, ws) ∧ o.woken = [] ∧
      o.later = ws ∧ cond p view o.shared

/-- **Where a wakeup cannot be lost.** -/
structure Careful (p : PipeState) (view : TaskView) (p' : PipeState) : Prop where
  /-- Bytes are written with at most one reader on the list. -/
  wrote : p.ring.availableRead < p'.ring.availableRead → (drainWaiters view p.readWaiters).length ≤ 1
  /-- Bytes are read with at most one writer on the list. -/
  took : p'.ring.availableRead < p.ring.availableRead → (drainWaiters view p.writeWaiters).length ≤ 1
  /-- The pipe grows with no writer on the list. -/
  grew : p.ring.capacity < p'.ring.capacity → drainWaiters view p.writeWaiters = []
  /-- The write end is closed without being dropped with no reader on the list. -/
  closedWrite : p'.writeEnd < p.writeEnd → p'.writeEnd ≠ 0 → p'.allWriteEndsClosed = true →
    drainWaiters view p.readWaiters = []
  /-- The read end is closed without being dropped with no writer on the list. -/
  closedRead : p'.readEnd < p.readEnd → p'.readEnd ≠ 0 → p'.allReadEndsClosed = true →
    drainWaiters view p.writeWaiters = []

/-! ### Why a task waits -/

/-- The room that the next round of a write needs. -/
def WriteCall.nextChunk (call : WriteCall) : Nat :=
  let remaining := call.data.length - call.written
  if remaining ≤ pipeBuf ∧ call.written = 0 then max remaining 1 else 1

theorem WriteCall.mustWait_iff (call : WriteCall) (avail : Nat) :
    call.mustWait avail = true ↔ avail < call.nextChunk := by
  unfold mustWait nextChunk
  dsimp only
  rw [decide_eq_true_iff]
  split <;> omega

/-- **Why a task waits**: it is on its list and there is nothing for it. -/
def PipeHeld (p : PipeState) (t : Task) : PipeCall → Prop
  | .read call =>
    t ∈ p.readWaiters ∧ call.satisfied p.ring.availableRead p.allWriteEndsClosed = false
  | .write call =>
    t ∈ p.writeWaiters ∧ p.allReadEndsClosed = false ∧ p.ring.availableWrite < call.nextChunk
  | .poll _ => True

/-- Fewer bytes and an open end do not satisfy a reader. -/
theorem ReadCall.satisfied_anti {call : ReadCall} {avail avail' : Nat} {closed closed' : Bool}
    (h : call.satisfied avail closed = false) (hle : avail' ≤ avail) (hc : closed' = true → closed = true) :
    call.satisfied avail' closed' = false := by
  have hclosed : closed' = false := by
    cases hc' : closed' with
    | false => rfl
    | true =>
      rw [hc hc'] at h
      unfold satisfied at h
      cases hk : call.kind <;> simp [hk] at h
  subst hclosed
  unfold satisfied at h ⊢
  cases hk : call.kind <;> simp only [hk, Bool.or_eq_false_iff, Bool.and_eq_false_iff,
    decide_eq_false_iff_not] at h ⊢
  · exact ⟨by omega, trivial⟩
  · exact ⟨by omega, trivial⟩
  · exact ⟨⟨by omega, trivial⟩, h.2.imp_right fun h => by omega⟩

/-- Every other reader that is not woken stays on the list, and is offered nothing. -/
def ReadersKept (view : TaskView) (task : Option Task) (p p' : PipeState) (ws : List Task) : Prop :=
  ∀ t ∈ p.readWaiters, view.upgrade t = true → task ≠ some t → t ∉ ws →
    t ∈ p'.readWaiters ∧ p'.ring.availableRead ≤ p.ring.availableRead ∧
      (p'.allWriteEndsClosed = true → p.allWriteEndsClosed = true)

/-- Every other writer that is not woken stays on the list, and is offered nothing. -/
def WritersKept (view : TaskView) (task : Option Task) (p p' : PipeState) (ws : List Task) : Prop :=
  ∀ t ∈ p.writeWaiters, view.upgrade t = true → task ≠ some t → t ∉ ws →
    t ∈ p'.writeWaiters ∧ p'.ring.availableWrite ≤ p.ring.availableWrite ∧
      (p'.allReadEndsClosed = true → p.allReadEndsClosed = true)

/-- What a critical section does for the waiters. -/
structure Kept (view : TaskView) (task : Option Task) (p p' : PipeState) (ws : List Task) : Prop where
  ok : RingOk p'.ring
  readers : ReadersKept view task p p' ws
  writers : WritersKept view task p p' ws

variable {ws readers : List Task} {limits : PipeLimits} {leaves waited other : Bool} {o : Outcome PipeState}
  {next : Next PipeCall} {phase : Task → Phase PipeCall} {view : TaskView} {ring : PipeRingBuffer}

theorem Kept.preserves {view : TaskView} {task : Option Task} {p p' : PipeState}
    (h : Kept view task p p' ws) (hview : ViewOf phase view)
    (htask : ∀ t c, task = some t → ¬ (phase t).Waits c) :
    Preserves (fun p => RingOk p.ring) PipeHeld phase p ⟨p', [], ws⟩ := by
  refine ⟨h.ok, fun t c hw _ hl hheld => ?_⟩
  have hup : view.upgrade t = true := hview.upgrade t hw.alive
  have hne : task ≠ some t := fun heq => htask t c heq hw
  cases c with
  | read =>
    obtain ⟨hmem, hle, hclosed⟩ := h.readers t hheld.1 hup hne hl
    exact ⟨hmem, satisfied_anti hheld.2 hle hclosed⟩
  | write =>
    obtain ⟨hmem, hle, hclosed⟩ := h.writers t hheld.1 hup hne hl
    refine ⟨hmem, ?_, Nat.lt_of_le_of_lt hle hheld.2.2⟩
    exact Bool.eq_false_iff.mpr fun hc => Bool.eq_false_iff.mp hheld.2.1 (hclosed hc)
  | poll => trivial

/-! ### Lists of waiters -/

section Waiters

variable {task t : Task}

/-- Another waiter stays on the list, if the task leaves it or not. -/
theorem mem_settled (ht : t ∈ ws) (hup : view.upgrade t = true) (hne : some task ≠ some t) :
    t ∈ if leaves then removeWaiter view task ws else ws := by
  have hne' : t ≠ task := fun heq => hne (congrArg some heq.symm)
  split
  · simp [removeWaiter, ht, hup, hne']
  · exact ht

/-- If at most one waiter exists, it is the one that is taken from the list. -/
theorem mem_popWaiter (hone : (drainWaiters view ws).length ≤ 1) (ht : t ∈ ws) (hup : view.upgrade t = true) :
    t ∈ (popWaiter view ws).1 := by
  induction ws with
  | nil => cases ht
  | cons a ws ih =>
    unfold popWaiter drainWaiters at *
    by_cases ha : view.upgrade a = true
    · rw [dropWhile_cons_of_neg (by simp [ha])]
      rw [filter_cons_of_pos ha] at hone
      rcases mem_cons.mp ht with rfl | htail
      · exact mem_singleton_self _
      · have hmem : t ∈ ws.filter view.upgrade := mem_filter.mpr ⟨htail, hup⟩
        rw [eq_nil_of_length_eq_zero (le_zero.mp (le_of_succ_le_succ hone))] at hmem
        cases hmem
    · rw [dropWhile_cons_of_pos (by simp [ha])]
      rw [filter_cons_of_neg ha] at hone
      rcases mem_cons.mp ht with rfl | htail
      · exact absurd hup ha
      · exact ih hone htail

end Waiters

/-! ### Rounds -/

section Rounds

variable {p p' : PipeState} {task : Task} {env : RoundEnv} {closed : Bool} {call : ReadCall} {d : WriteDecision}

/-- A write parks because it has to wait. -/
theorem writeDecision_parks {call call' : WriteCall} (h : writeDecision ring closed call env = some d)
    (hpark : d.ends = .park call') :
    call' = call ∧ closed = false ∧ call.mustWait ring.availableWrite = true ∧ d.ring = ring := by
  unfold writeDecision at h
  iterate 2
    split at h
    · cases h
      cases hpark
  next hclosed =>
  split at h
  · next hwait =>
    cases h
    unfold writeWait at hpark ⊢
    iterate 3
      split at hpark
      · cases hpark
    next hnb hsig htime =>
    rw [if_neg hnb, if_neg hsig, if_neg htime]
    cases hpark
    exact ⟨rfl, Bool.eq_false_iff.mpr hclosed, hwait, rfl⟩
  · -- a write that has room goes round again or returns
    unfold writeChunk at h
    dsimp only at h
    cases hf : env.filterSlice (call.slice ring.availableWrite) with
    | none =>
      rw [hf] at h
      cases h
      cases hpark
    | some =>
      rw [hf] at h
      obtain ⟨⟨_, _⟩, -, rfl⟩ := map_eq_some_iff.mp h
      split at hpark
      · cases hpark
      · split at hpark <;> cases hpark

/-- A writing round: bytes go in, or nothing happens to the ring. -/
theorem writeDecision_ring {call : WriteCall} (hok : RingOk p.ring)
    (h : writeDecision p.ring p.allReadEndsClosed call env = some d) :
    RingOk d.ring ∧ d.ring.availableRead = p.ring.availableRead + d.wrote ∧
      d.ring.availableWrite ≤ p.ring.availableWrite := by
  have hholds : Holds p.ring p.ring.contents := ⟨hok, rfl⟩
  obtain ⟨d', hd', heffect⟩ := @writeDecision_effect _ _ call env p.allReadEndsClosed hholds
  obtain rfl : d' = d := some.inj (hd'.symm.trans h)
  have hlen := heffect.holds.length
  have hwrote := heffect.wrote
  rw [length_append, length_take, length_drop, Nat.min_eq_left hwrote, ← hholds.length] at hlen
  refine ⟨heffect.holds.ok, hlen, ?_⟩
  have h₁ := heffect.holds.ok.available
  have h₂ := hok.available
  rw [heffect.capacity] at h₁
  omega

/-- The end of a writing round that does not park. -/
theorem wakeReader_kept (hok : RingOk d.ring) (havail : d.ring.availableRead = p.ring.availableRead + d.wrote)
    (hroom : d.ring.availableWrite ≤ p.ring.availableWrite)
    (h : (if d.wrote > 0 then (p.settleWrite view task d).wakeReader view
      else (p.settleWrite view task d, [])) = (p', ws))
    (hcare : Careful p view p') : Kept view (some task) p p' ws := by
  have hwriters : ∀ ws, WritersKept view (some task) p (p.settleWrite view task d) ws :=
    fun _ _ ht hup hne _ => ⟨mem_settled ht hup hne, hroom, id⟩
  split at h
  · cases h
    refine ⟨hok, fun t ht hup hne hl => ?_, hwriters _⟩
    -- the only reader is the one that is woken
    have hmore : p.ring.availableRead < d.ring.availableRead := by omega
    exact absurd (mem_append_left _ (mem_popWaiter (hcare.wrote hmore) ht hup)) hl
  · cases h
    refine ⟨hok, fun _ ht _ _ _ => ⟨ht, ?_, id⟩, hwriters _⟩
    change d.ring.availableRead ≤ p.ring.availableRead
    omega

theorem writeRound_kept {call : WriteCall} {r : PipeRound WriteCall Nat} (hok : RingOk p.ring)
    (h : writeRound p task call env view = some r) (hcare : Careful p view r.pipe) :
    Kept view (some task) p r.pipe r.wakeups ∧
      ∀ call', r.ends = .park call' → PipeHeld r.pipe task (.write call') := by
  obtain ⟨d, hd, hr⟩ := map_eq_some_iff.mp h
  obtain ⟨hok', havail, hroom⟩ := writeDecision_ring hok hd
  cases hends : d.ends with
  | park =>
    obtain ⟨rfl, hopen, hwait, hring⟩ := writeDecision_parks hd hends
    rw [hends] at hr
    subst hr
    refine ⟨⟨hok', fun _ ht _ _ _ => ⟨ht, Nat.le_of_eq (congrArg _ hring), id⟩,
      fun _ ht hup hne _ => ⟨mem_pushWaiter (mem_settled ht hup hne) hup, hroom, id⟩⟩, ?_⟩
    · intro _ hcall''
      cases hcall''
      refine ⟨mem_pushWaiter_self, hopen, ?_⟩
      change d.ring.availableWrite < _
      rw [hring]
      exact (mustWait_iff ..).mp hwait
  | done | again =>
    rw [hends] at hr
    subst hr
    exact ⟨wakeReader_kept hok' havail hroom rfl hcare, nofun⟩

/-- **What a reading round can do to the ring.** -/
structure ReadEffect (ring : PipeRingBuffer) (closed : Bool) (call : ReadCall) (d : ReadDecision) : Prop where
  ok : RingOk d.ring
  capacity : d.ring.capacity = ring.capacity
  avail : d.ring.availableRead ≤ ring.availableRead
  kept : d.took = false → d.ring = ring
  took : d.took = true → d.ring.availableRead < ring.availableRead
  parks : ∀ call', d.ends = .park call' →
    call' = call ∧ call.satisfied ring.availableRead closed = false ∧ d.took = false ∧ d.leaves = false

/-- A round that leaves the ring alone and ends the call. -/
theorem ReadEffect.done {result : Except SyscallError (List UInt8)} (hok : RingOk ring) :
    ReadEffect ring closed call ⟨ring, false, leaves, .done result⟩ :=
  ⟨hok, rfl, Nat.le_refl _, fun _ => rfl, Bool.noConfusion, nofun⟩

variable {d : ReadDecision}

theorem readReturn_effect (hok : RingOk ring) (hlen : call.kind ≠ .read 0)
    (h : readReturn ring call = some d) :
    ReadEffect ring closed call d := by
  have hholds : Holds ring ring.contents := ⟨hok, rfl⟩
  unfold readReturn at h
  cases hk : call.kind with
  | lowat =>
    rw [hk] at h
    cases h
    exact .done hok
  | peek =>
    rw [hk] at h
    dsimp only at h
    split at h
    · cases h
      exact .done hok
    · rw [hholds.peekInto_spec] at h
      cases h
      exact .done hok
  | read len =>
    rw [hk] at h hlen
    dsimp only at h
    split at h
    · cases h
      exact .done hok
    obtain ⟨ring', hread, hholds', hcap⟩ := hholds.readIntoSlice_spec len
    rw [hread] at h
    cases h
    have havail : ring'.availableRead = ring.availableRead - len := by
      rw [hholds'.length, hholds.length, length_drop]
    have hpos : len ≠ 0 := fun hzero => hlen (congrArg _ hzero)
    refine ⟨hholds'.ok, hcap, ?_, Bool.noConfusion, fun _ => ?_, nofun⟩
    · dsimp only
      omega
    · dsimp only
      omega

theorem readDecision_effect (hok : RingOk ring) (h : readDecision ring closed call env = some d) :
    ReadEffect ring closed call d := by
  unfold readDecision at h
  split at h
  · cases h
    exact .done hok
  next hempty =>
  have hlen : call.kind ≠ .read 0 := by
    intro heq
    simp [ReadCall.isEmpty, heq] at hempty
  split at h
  · exact readReturn_effect hok hlen h
  next hsat =>
  -- it may not wait, is interrupted, or its time is over
  iterate 3
    split at h
    · cases h
      exact .done hok
  cases h
  refine ⟨hok, rfl, Nat.le_refl _, fun _ => rfl, Bool.noConfusion, fun call' hpark => ?_⟩
  cases hpark
  exact ⟨rfl, Bool.eq_false_iff.mpr hsat, rfl, rfl⟩

/-- The end of a reading round that does not park. -/
theorem wakeWriter_kept (hd : ReadEffect p.ring p.allWriteEndsClosed call d)
    (h : (if d.took = true then (p.settleRead view task d).wakeWriter view
      else (p.settleRead view task d, [])) = (p', ws))
    (hcare : Careful p view p') : Kept view (some task) p p' ws := by
  have hreaders : ∀ ws, ReadersKept view (some task) p (p.settleRead view task d) ws :=
    fun _ _ ht hup hne _ => ⟨mem_settled ht hup hne, hd.avail, id⟩
  split at h
  · next htook =>
    cases h
    refine ⟨hd.ok, hreaders _, fun t ht hup hne hl => ?_⟩
    -- the only writer is the one that is woken
    exact absurd (mem_append_left _ (mem_popWaiter (hcare.took (hd.took htook)) ht hup)) hl
  · next htook =>
    cases h
    have hring : d.ring = p.ring := hd.kept (eq_false_of_ne_true htook)
    exact ⟨hd.ok, hreaders _, fun _ ht _ _ _ => ⟨ht, Nat.le_of_eq (congrArg _ hring), id⟩⟩

variable {r : PipeRound ReadCall (List UInt8)}

/-- **A reading round.** -/
theorem readRound_kept (hok : RingOk p.ring)
    (h : readRound p task call env view = some r) (hcare : Careful p view r.pipe) :
    Kept view (some task) p r.pipe r.wakeups ∧
      ∀ call', r.ends = .park call' → PipeHeld r.pipe task (.read call') := by
  obtain ⟨d, hd, hr⟩ := map_eq_some_iff.mp h
  have heffect := readDecision_effect hok hd
  cases hends : d.ends with
  | park call' =>
    obtain ⟨rfl, hsat, htook, hleaves⟩ := heffect.parks call' hends
    have hring : d.ring = p.ring := heffect.kept htook
    rw [hends] at hr
    subst hr
    refine ⟨⟨heffect.ok, fun _ ht hup hne _ => ⟨mem_pushWaiter (mem_settled ht hup hne) hup,
      heffect.avail, id⟩,
      fun _ ht _ _ _ => ⟨ht, Nat.le_of_eq (congrArg _ hring), id⟩⟩, ?_⟩
    · intro _ hcall''
      cases hcall''
      refine ⟨mem_pushWaiter_self, ?_⟩
      change call'.satisfied d.ring.availableRead p.allWriteEndsClosed = false
      rwa [hring]
  | done | again =>
    rw [hends] at hr
    subst hr
    exact ⟨wakeWriter_kept heffect rfl hcare, nofun⟩

/-- **A stage of a poll** does nothing to the other waiters. -/
theorem pollRound_kept {call : PollCall} (hok : RingOk p.ring) :
    Kept view (some task) p (pollRound p task call other view).pipe
      (pollRound p task call other view).wakeups := by
  have hsame : ∀ pollWaiters, Kept view (some task) p { p with pollWaiters := pollWaiters } [] :=
    fun _ => ⟨hok, fun t ht _ _ _ => ⟨ht, Nat.le_refl _, id⟩, fun t ht _ _ _ => ⟨ht, Nat.le_refl _, id⟩⟩
  unfold pollRound
  cases call.stage with
  | scan | rescan =>
    dsimp only
    split <;> exact hsame p.pollWaiters
  | register => exact hsame _

theorem RoundEnd.forall_park {κ ρ : Type} {toCall : κ → PipeCall} {e : RoundEnd κ ρ} {P : PipeCall → Prop}
    (h : ∀ call, e = .park call → P (toCall call)) (call : PipeCall) (hnext : e.next toCall = .park call) :
    P call := by
  cases e with
  | done | again => cases hnext
  | park call' =>
    cases hnext
    exact h call' rfl

theorem pipeRound_kept {call : PipeCall} (hok : RingOk p.ring)
    (h : pipeRound p task call env other view = some (o, next)) (hcare : Careful p view o.shared) :
    Kept view (some task) p o.shared o.later ∧ o.woken = [] ∧
      ∀ call', next = .park call' → PipeHeld o.shared task call' := by
  cases call with
  | read =>
    obtain ⟨r, hr, ⟨⟩⟩ := map_eq_some_iff.mp h
    obtain ⟨hkept, hpark⟩ := readRound_kept hok hr hcare
    exact ⟨hkept, rfl, forall_park hpark⟩
  | write =>
    obtain ⟨r, hr, ⟨⟩⟩ := map_eq_some_iff.mp h
    obtain ⟨hkept, hpark⟩ := writeRound_kept hok hr hcare
    exact ⟨hkept, rfl, forall_park hpark⟩
  | poll =>
    cases h
    exact ⟨pollRound_kept hok, rfl, forall_park fun _ _ => trivial⟩

end Rounds

/-! ### The other critical sections -/

section Acts

variable {p p' : PipeState}

/-- Waiters of one end that are not woken stay on the list, and something holds. -/
def Stay (view : TaskView) (ws waiters waiters' : List Task) (offer : Prop) : Prop :=
  ∀ t ∈ waiters, view.upgrade t = true → (none : Option Task) ≠ some t → t ∉ ws → t ∈ waiters' ∧ offer

variable {waiters waiters' : List Task} {offer closed closed' : Prop} {n : Nat}

/-- All of them are woken. -/
theorem stay_drain : Stay view (drainWaiters view waiters ++ ws) waiters waiters' offer :=
  fun _ ht hup _ hl => absurd (mem_append_left _ (mem_filter.mpr ⟨ht, hup⟩)) hl

/-- Nothing changes for them. -/
theorem stay_same (h : closed' → closed) : Stay view ws waiters waiters (n ≤ n ∧ (closed' → closed)) :=
  fun _ ht _ _ _ => ⟨ht, Nat.le_refl _, h⟩

/-- There are none of them if the other end is closed. -/
theorem stay_closed (h : closed' → drainWaiters view waiters = []) :
    Stay view ws waiters waiters (n ≤ n ∧ (closed' → closed)) :=
  fun _ ht hup _ _ => ⟨ht, Nat.le_refl _, fun hc => absurd ht (not_mem_of_drain_nil (h hc) hup)⟩

theorem setPipeSize_kept {size : Nat} {res : Except SyscallError Nat}
    (hok : RingOk p.ring) (h : setPipeSize p limits size view = some (res, p', ws))
    (hcare : Careful p view p') : Kept view none p p' ws := by
  have hholds : Holds p.ring p.ring.contents := ⟨hok, rfl⟩
  obtain ⟨res', ring, hset, hholds', -⟩ := hholds.setPipeSize_spec limits size
  have havail : ring.availableRead = p.ring.availableRead := hholds'.length.trans hholds.length.symm
  unfold setPipeSize at h
  rw [hset] at h
  -- whatever the answer is, the pipe has this ring and its waiters but for the pollers
  obtain ⟨hring, hread, hwrite, hends, hends'⟩ : p'.ring = ring ∧ p'.readWaiters = p.readWaiters ∧
      p'.writeWaiters = p.writeWaiters ∧ p'.allReadEndsClosed = p.allReadEndsClosed ∧
      p'.allWriteEndsClosed = p.allWriteEndsClosed := by
    cases res' <;>
    · obtain ⟨-, heq⟩ := Prod.mk.inj (some.inj h)
      obtain ⟨rfl, -⟩ := Prod.mk.inj heq
      exact ⟨rfl, rfl, rfl, rfl, rfl⟩
  refine ⟨hring ▸ hholds'.ok, fun _ ht _ _ _ =>
    ⟨hread ▸ ht, Nat.le_of_eq (hring ▸ havail), fun h => hends' ▸ h⟩, ?_⟩
  by_cases hgrew : p.ring.capacity < p'.ring.capacity
  · exact fun _ ht hup _ _ => absurd ht (not_mem_of_drain_nil (hcare.grew hgrew) hup)
  refine fun _ ht _ _ _ => ⟨hwrite ▸ ht, ?_, fun h => hends ▸ h⟩
  have h₁ := hok.available
  have h₂ := hholds'.ok.available
  rw [hring] at hgrew ⊢
  omega

/-- **Another critical section.** -/
theorem pipeAct_kept {act : PipeAct} (hok : RingOk p.ring) (h : pipeAct p view act = some (p', ws))
    (hcare : Careful p view p') : Kept view none p p' ws := by
  cases act with
  | setPipeSize =>
    obtain ⟨⟨_, _, _⟩, hset, heq⟩ := map_eq_some_iff.mp h
    cases heq
    exact setPipeSize_kept hok hset hcare
  | closeReadEnd =>
    obtain ⟨rfl, rfl⟩ := h
    exact ⟨hok, stay_same id, stay_drain⟩
  | closeWriteEnd =>
    obtain ⟨rfl, rfl⟩ := h
    exact ⟨hok, stay_drain, stay_same id⟩
  | openReadEnd =>
    obtain ⟨rfl, rfl⟩ := h
    refine ⟨hok, stay_same id, stay_same fun hc => ?_⟩
    simp only [allReadEndsClosed, Bool.false_or] at hc ⊢
    simp [hc]
  | openWriteEnd =>
    obtain ⟨rfl, rfl⟩ := h
    refine ⟨hok, stay_same fun hc => ?_, stay_same id⟩
    simp only [allWriteEndsClosed, Bool.false_or] at hc ⊢
    simp [hc]
  | cloneReadEnd =>
    simp only [pipeAct] at h
    split at h
    · cases h
    cases h
    refine ⟨hok, stay_same id, stay_same fun hc => ?_⟩
    simp only [allReadEndsClosed, Bool.or_eq_true, decide_eq_true_eq] at hc ⊢
    exact hc.imp_right fun h => by omega
  | cloneWriteEnd =>
    simp only [pipeAct] at h
    split at h
    · cases h
    cases h
    refine ⟨hok, stay_same fun hc => ?_, stay_same id⟩
    simp only [allWriteEndsClosed, Bool.or_eq_true, decide_eq_true_eq] at hc ⊢
    exact hc.imp_right fun h => by omega
  | releaseReadEnd =>
    simp only [pipeAct, releaseReadEnd] at h
    split at h
    · cases h
    split at h
    · cases h
      exact ⟨hok, stay_same id, stay_drain⟩
    next hlast =>
    cases h
    -- the end is closed without being dropped: no writer is on the list
    exact ⟨hok, stay_same id, stay_closed (hcare.closedRead (by dsimp only; omega) hlast)⟩
  | releaseWriteEnd =>
    simp only [pipeAct, releaseWriteEnd] at h
    split at h
    · cases h
    split at h
    · cases h
      exact ⟨hok, stay_drain, stay_same id⟩
    next hlast =>
    cases h
    exact ⟨hok, stay_closed (hcare.closedWrite (by dsimp only; omega) hlast), stay_same id⟩

end Acts

/-! ### Runs -/

/-- The states of a pipe and its tasks that are reached by critical sections that meet a
condition. -/
abbrev PipeReachable (cond : PipeState → TaskView → PipeState → Prop) (limits : PipeLimits) (fifo : Bool) :
    Parking.World PipeState PipeCall → Prop :=
  Reachable (· = boot (makePipe limits fifo)) (Blocking.Step (pipeSystem cond))

/-- Every task that waits has a reason to. -/
theorem held_of_careful {fifo : Bool} {w : Parking.World PipeState PipeCall}
    (h : PipeReachable Careful limits fifo w) : RingOk w.shared.ring ∧ Parking.AllHeld PipeHeld w := by
  refine held_of_reachable (I := fun p => RingOk p.ring) ?_ ?_ (fun _ _ _ _ _ _ _ _ _ h => False.elim h)
    (holds_new limits).ok h
  · rintro phase p t c waited o n hok htrying ⟨env, other, view, hview, hround, hcare⟩
    obtain ⟨hkept, hwoken, hpark⟩ := pipeRound_kept hok hround hcare
    refine ⟨?_, hpark⟩
    have hpres := hkept.preserves hview fun _ _ heq hw => by
      cases heq
      rcases hw with hw | hw <;> rw [htrying] at hw <;> cases hw
    obtain ⟨_, woken, later⟩ := o
    obtain rfl : woken = [] := hwoken
    exact hpres
  · rintro phase p ⟨p', woken, later⟩ hok ⟨act, view, ws, hview, hact, hwoken, hlater, hcare⟩
    obtain rfl : woken = [] := hwoken
    obtain rfl : later = ws := hlater
    exact (pipeAct_kept hok hact hcare).preserves hview nofun

/-! ### Readers of single bytes -/

section SingleBytes

/-- No signal, no filter. -/
def quiet : RoundEnv := ⟨false, false, none, none⟩

/-- Every task exists. -/
def everyTask : TaskView := ⟨fun _ => true, fun _ => true⟩

theorem everyTask_viewOf : ViewOf phase everyTask :=
  ⟨fun _ _ => rfl, fun _ _ _ => rfl⟩

def oneByte : ReadCall := ⟨.read 1, false, true, false⟩

def twoBytes : WriteCall := ⟨[1, 2], 0, false, true, false, false, 0⟩

def smallLimits : PipeLimits := ⟨true, ⟨pipeBuf, Nat.le_refl _, by decide⟩⟩

def pipeWith (ring : PipeRingBuffer) (readers : List Task) : PipeState :=
  { makePipe smallLimits false with ring := ring, readWaiters := readers }

theorem round_empty (h : Holds ring []) {t : Task} :
    pipeRound (pipeWith ring readers) t (.read oneByte) quiet false everyTask =
      some (⟨pipeWith ring (pushWaiter everyTask t readers), [], []⟩, .park (.read oneByte)) := by
  have hlen : ring.availableRead = 0 := h.length
  simp [pipeRound, readRound, readDecision, pipeWith, makePipe, oneByte, quiet, ReadCall.isEmpty,
    satisfied, allWriteEndsClosed, settleRead, hlen, PipeRound.outcome, RoundEnd.next]

theorem round_write (h : Holds ring []) : ∃ ring', Holds ring' [1, 2] ∧
    pipeRound (pipeWith ring (1 :: readers)) 3 (.write twoBytes) quiet false everyTask =
      some (⟨pipeWith ring' readers, [], [1]⟩, .finish) := by
  obtain ⟨ring', hwrite, hholds, -⟩ := h.writeFromSliceBytes_spec [1, 2]
  have hroom : 2 ≤ ring.availableWrite := by
    have hleast := h.ok.least
    rw [h.room]
    unfold pipeBuf at hleast
    simp only [length_nil]
    omega
  have hfits : ([1, 2] : List UInt8).take ring.availableWrite = [1, 2] := take_of_length_le hroom
  have hmin : min 2 ring.availableWrite = 2 := Nat.min_eq_left hroom
  rw [hfits] at hholds
  refine ⟨ring', hholds, ?_⟩
  have hslice : twoBytes.slice ring.availableWrite = [1, 2] := by simp [slice, twoBytes, hmin]
  have hwait : twoBytes.mustWait ring.availableWrite = false := by
    rw [Bool.eq_false_iff, Ne, mustWait_iff]
    exact Nat.not_lt.mpr hroom
  have hwrite' : ring.writeFromSliceBytes [1, 2] = some (2, ring') := by
    rw [hwrite]
    simp [hmin]
  have hchunk : writeChunk ring twoBytes quiet = some ⟨ring', 2, false, false, .done (.ok 2)⟩ := by
    simp only [writeChunk, hslice, RoundEnv.filterSlice, quiet, applyFilter]
    simp [twoBytes, result, hwrite']
  have hdecision : writeDecision ring false twoBytes quiet = some ⟨ring', 2, false, false, .done (.ok 2)⟩ := by
    simp only [writeDecision, hwait, hchunk]
    simp [twoBytes]
  have hopen : (pipeWith ring (1 :: readers)).allReadEndsClosed = false := rfl
  unfold pipeRound writeRound
  dsimp only
  rw [hopen, show (pipeWith ring (1 :: readers)).ring = ring from rfl, hdecision]
  rfl

theorem round_read {b : UInt8} {bytes : List UInt8} (h : Holds ring (b :: bytes)) :
    ∃ ring', Holds ring' bytes ∧
    pipeRound (pipeWith ring readers) 1 (.read oneByte) quiet false everyTask =
      some (⟨pipeWith ring' readers, [], []⟩, .finish) := by
  obtain ⟨ring', hread, hholds, -⟩ := h.readIntoSlice_spec 1
  have hlen : ring.availableRead = bytes.length + 1 := h.length
  refine ⟨ring', hholds, ?_⟩
  have hdecision : readDecision ring false oneByte quiet = some ⟨ring', true, false, .done (.ok [b])⟩ := by
    simp [readDecision, oneByte, ReadCall.isEmpty, satisfied, readReturn, hlen, hread]
  have hopen : (pipeWith ring readers).allWriteEndsClosed = false := rfl
  unfold pipeRound readRound
  dsimp only
  rw [hopen, show (pipeWith ring readers).ring = ring from rfl, hdecision]
  rfl

variable {cond : PipeState → TaskView → PipeState → Prop} {w : Parking.World PipeState PipeCall} {t : Task}

theorem PipeReachable.round (h : PipeReachable cond smallLimits false w) {call : PipeCall}
    (ht : w.phase t = .trying call waited)
    (hr : pipeRound w.shared t call quiet false everyTask = some (o, next))
    (hcond : cond w.shared everyTask o.shared) :
    PipeReachable cond smallLimits false (after w o (update w.phase t (next.phase waited))) :=
  h.step (.round ht ⟨quiet, false, everyTask, everyTask_viewOf, hr, hcond⟩)

/-- A reader blocks on the empty pipe. -/
theorem PipeReachable.blocks (h : PipeReachable cond smallLimits false w) (hring : Holds ring [])
    (ht : w.phase t = .idle) (hw : w.shared = pipeWith ring readers) (hl : w.later = [])
    (hcond : ∀ readers', cond (pipeWith ring readers) everyTask (pipeWith ring readers')) :
    PipeReachable cond smallLimits false ⟨pipeWith ring (pushWaiter everyTask t readers),
        update w.phase t (.blocked (.read oneByte)), []⟩ := by
  obtain ⟨shared, phase, later⟩ := w
  obtain rfl : later = [] := hl
  obtain rfl : shared = _ := hw
  have hround := enter (S := pipeSystem cond) (c := .read oneByte) h t ht trivial
    ⟨quiet, false, everyTask, everyTask_viewOf, round_empty hring, hcond _⟩
  have hparked : update (update phase t (.trying (.read oneByte) false)) t
      (.parking (.read oneByte) false) t = .parking (.read oneByte) false := update_self ..
  have hout := hround.step (.switchOut hparked trivial)
  simpa [goto, Blocking.after] using hout

/-- With one reader and no writer on the lists nobody is passed over. -/
theorem careful_pipeWith {ring' : PipeRingBuffer} {readers' : List Task} (h : readers.length ≤ 1) :
    Careful (pipeWith ring readers) everyTask (pipeWith ring' readers') where
  wrote _ := (length_filter_le ..).trans h
  took _ := Nat.zero_le _
  grew _ := rfl
  closedWrite h := absurd h (Nat.lt_irrefl _)
  closedRead h := absurd h (Nat.lt_irrefl _)

end SingleBytes

/-! ### No lost wakeup -/

/-- **Pipes lose no wakeup** in the runs in which no reader is passed over when bytes are written,
no writer when bytes are read or the pipe grows, and no waiter when an end is closed without being
dropped: a reader that is blocked with no wakeup under way finds no byte and an open write end, and
a writer no room for its next chunk and an open read end. -/
theorem pipe_no_lost_wakeup {limits : PipeLimits} {fifo : Bool} {w : Parking.World PipeState PipeCall}
    (h : PipeReachable Careful limits fifo w) {t : Task} (hl : t ∉ w.later) :
    (∀ call, w.phase t = .blocked (.read call) → (∃ len, call.kind = .read len ∨ call.kind = .peek len) →
      w.shared.ring.availableRead = 0 ∧ w.shared.allWriteEndsClosed = false) ∧
    (∀ call, w.phase t = .blocked (.write call) →
      w.shared.ring.availableWrite < call.nextChunk ∧ w.shared.allReadEndsClosed = false) := by
  obtain ⟨-, hheld⟩ := held_of_careful h
  refine ⟨fun call hblocked hkind => ?_, fun call hblocked => ?_⟩
  · obtain ⟨-, hsat⟩ := hheld t (.read call) (.inl hblocked) hl
    obtain ⟨_, hk | hk⟩ := hkind <;>
    · simp only [satisfied, hk, Bool.or_eq_false_iff, decide_eq_false_iff_not, not_not] at hsat
      exact hsat
  · obtain ⟨-, hopen, hroom⟩ := hheld t (.write call) (.inl hblocked) hl
    exact ⟨hroom, hopen⟩

/-- A reader blocks on the empty pipe, two bytes are written, it is woken and takes one byte, takes
the other, and blocks again. -/
theorem pipe_no_lost_wakeup_readers : ∃ w : Parking.World PipeState PipeCall,
    PipeReachable Careful smallLimits false w ∧ (1 : Task) ∉ w.later ∧
      w.phase 1 = .blocked (.read oneByte) ∧ w.shared.ring.availableRead = 0 := by
  have hboot : PipeReachable Careful smallLimits false (boot (makePipe smallLimits false)) := .start rfl
  have hnone := holds_new smallLimits
  have hblocked := hboot.blocks (t := 1) hnone rfl rfl rfl fun _ => careful_pipeWith (Nat.zero_le 1)
  have hstart : (pipeSystem Careful).start (.write twoBytes) := ⟨cons_ne_nil _ _, rfl, rfl⟩
  obtain ⟨_, hboth, hwrite⟩ := round_write hnone
  have hwritten := PipeReachable.round (hblocked.step (.call 3 rfl hstart)) rfl hwrite
    (careful_pipeWith (Nat.le_refl 1))
  have hlater : [1] = [] ++ 1 :: ([] : List Task) := rfl
  have hready := (hwritten.step (.deliver hlater)).step (.resume (t := 1) rfl)
  obtain ⟨_, hone, hread⟩ := round_read hboth
  have hfirst := PipeReachable.round hready rfl hread (careful_pipeWith (Nat.zero_le 1))
  have hagain : (pipeSystem Careful).start (.read oneByte) := trivial
  obtain ⟨_, hempty, hread'⟩ := round_read hone
  have hsecond := PipeReachable.round (hfirst.step (.call 1 rfl hagain)) rfl hread'
    (careful_pipeWith (Nat.zero_le 1))
  have hrun := hsecond.blocks (t := 1) hempty rfl rfl rfl fun _ => careful_pipeWith (Nat.zero_le 1)
  have hheld := pipe_no_lost_wakeup hrun (t := 1) not_mem_nil
  exact ⟨_, hrun, not_mem_nil, rfl, (hheld.1 oneByte rfl ⟨1, .inl rfl⟩).1⟩

/-- **A lost wakeup.** Two readers are blocked, two bytes are written, and the reader that is woken
takes one: the other stays blocked while the ring holds a byte. -/
theorem pipe_loses_wakeup : ∃ w : Parking.World PipeState PipeCall,
    PipeReachable (fun _ _ _ => True) smallLimits false w ∧ w.later = [] ∧
      w.phase 2 = .blocked (.read oneByte) ∧ w.shared.ring.availableRead = 1 := by
  have hboot : PipeReachable (fun _ _ _ => True) smallLimits false
    (boot (makePipe smallLimits false)) := .start rfl
  have hnone := holds_new smallLimits
  have hfirst := hboot.blocks (t := 1) hnone rfl rfl rfl fun _ => trivial
  have hblocked := PipeReachable.blocks (t := 2) hfirst hnone rfl rfl rfl fun _ => trivial
  -- the write takes the first reader off the list
  have hstart : (pipeSystem fun _ _ _ => True).start (.write twoBytes) := ⟨cons_ne_nil _ _, rfl, rfl⟩
  obtain ⟨_, hholds, hwrite⟩ := round_write hnone
  have hwritten := PipeReachable.round (hblocked.step (.call 3 rfl hstart)) rfl hwrite trivial
  -- it is woken, and reads one byte
  have hlater : [1] = [] ++ 1 :: ([] : List Task) := rfl
  have hready := (hwritten.step (.deliver hlater)).step (.resume (t := 1) rfl)
  obtain ⟨_, hholds', hread⟩ := round_read hholds
  have hfinal := PipeReachable.round hready rfl hread trivial
  exact ⟨_, hfinal, rfl, rfl, hholds'.length⟩

end HitOS.Pipe
