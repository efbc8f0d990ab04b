import HitOS.Syscall.RecordLockCalls

/-!
# Deadlocks of record locks

`F_SETLKW` looks for a cycle of waiting processes before it blocks. The search itself is right
(`detectRecordLockDeadlock_iff`), but the conflict test, the search and the entry in
`RECORD_LOCK_BLOCKED` are three critical sections. Two processes that are all in between do not see
each other, and both block.

`Careful` excludes that: a process enters itself only while no other is between its conflict test
and its own entry, and the threads of a process make one request at a time (each request removes the
entry of its process at its start). Then no cycle is ever closed (`no_record_lock_deadlock`).

The graph of the proof has an edge from a process that has entered itself to each owner of a lock
that it waits for (`Edge`). Three kinds of steps matter for it:

* a lock is granted: the owner gets edges to it, and has none, as it is not waiting;
* the search finds nothing: no path leads from the owners of the locks to the process;
* the process enters itself: it gets edges to these owners.

All others take edges away (`DeadlockInv.shrink`).
-/

namespace HitOS.RecordLocks

open List Function Digraph OrdMap Option

open Parking (Task Phase wakeAll)
open Relation (ReflTransGen TransGen)
open Digraph (Acyclic)

/-! ### The search -/

/-- A lock of the process keeps the request from being granted. -/
def Blocks (table : OrdMap FileLockKey (List RecordLock)) (req : LockRequest) (pid : Nat) : Prop :=
  ∃ lock ∈ locksOf table req.key, lock.owner = .process pid ∧ req.conflictsWith lock = true

theorem mem_collectConflictProcessOwners {locks : List RecordLock} {reqType : LockType} {range : LockRange}
    {ownerPid pid : Nat} : pid ∈ collectConflictProcessOwners locks reqType range ownerPid ↔
    ∃ lock ∈ locks, lock.owner = .process pid ∧ lockConflicts reqType range
      (.process ownerPid) lock = true := by
  unfold collectConflictProcessOwners
  rw [mem_insertionSort, mem_dedup, mem_filterMap]
  refine exists_congr fun lock => and_congr_right fun _ => ?_
  cases lock.owner with
  | process => simp [and_comm]
  | openFile => simp

variable {table : OrdMap FileLockKey (List RecordLock)} {blocked : OrdMap Nat WaitingRecordLock} {s : LockTables}
  {pid pid' : Nat} {req : LockRequest} {t : Task}

/-- The graph of the tables: an edge from a process that has entered itself to each process with a
lock that conflicts with what it waits for. -/
def WaitEdge (table : OrdMap FileLockKey (List RecordLock)) (blocked : OrdMap Nat WaitingRecordLock)
    (pid pid' : Nat) : Prop :=
  ∃ waiting, blocked.get? pid = some waiting ∧ ∃ lock ∈ locksOf table waiting.key,
    lock.owner = .process pid' ∧ lockConflicts waiting.reqType waiting.range (.process pid) lock = true

theorem mem_waitsOn : pid' ∈ waitsOn table blocked pid ↔ WaitEdge table blocked pid pid' := by
  unfold waitsOn WaitEdge
  cases blocked.get? pid with
  | none => simp
  | some => simp only [some.injEq, exists_eq_left', mem_collectConflictProcessOwners]

/-- What the tables say of a process that has entered itself. -/
theorem Blocks.waitEdge {req : LockRequest} (h : Blocks table req pid) (hposix : req.ofd = false)
    (hentry : blocked.get? req.ownerPid = some req.waiting) : WaitEdge table blocked req.ownerPid pid := by
  obtain ⟨lock, hlock, howner, hconflict⟩ := h
  exact ⟨req.waiting, hentry, lock, hlock, howner, req.posix hposix ▸ hconflict⟩

/-- A process that has not entered itself waits for nobody. -/
theorem waitsOn_eq_nil (h : pid ∉ blocked.keys) : waitsOn table blocked pid = [] := by
  have hnone : blocked.get? pid = none := by
    refine get?_eq_none_iff.mpr fun v hv => h ?_
    exact mem_map.mpr ⟨_, hv, rfl⟩
  unfold waitsOn
  rw [hnone]

/-- **The search** answers exactly if a chain of entries leads from one of the owners to the
process. -/
theorem detectRecordLockDeadlock_iff {waiterPid : Nat} {conflictOwners : List Nat} :
    detectRecordLockDeadlock table blocked waiterPid conflictOwners = true ↔
      ∃ pid ∈ conflictOwners, ReflTransGen (WaitEdge table blocked) pid waiterPid := by
  simp only [detectRecordLockDeadlock, search_iff fun _ => waitsOn_eq_nil, mem_waitsOn]

/-- **The search is exact** on the tables as they are: it ends, and it answers that the process
would wait for itself exactly if it does so in the graph with its request. -/
theorem deadlock_search_exact (table : OrdMap FileLockKey (List RecordLock))
    (blocked : OrdMap Nat WaitingRecordLock) (waiterPid : Nat) (request : WaitingRecordLock) :
    let owners := collectConflictProcessOwners (locksOf table request.key) request.reqType
      request.range waiterPid
    (∃ rounds, FuelLoop.run (searchRound (waitsOn table blocked) waiterPid) rounds ⟨owners.reverse, []⟩ =
      some (detectRecordLockDeadlock table blocked waiterPid owners)) ∧
    (detectRecordLockDeadlock table blocked waiterPid owners = true ↔
      TransGen (WaitEdge table (blocked.insert waiterPid request)) waiterPid waiterPid) := by
  intro owners
  have howners pid : pid ∈ owners ↔ WaitEdge table (blocked.insert waiterPid request) waiterPid pid := by
    unfold WaitEdge
    rw [mem_collectConflictProcessOwners]
    simp
  have hedge a b (ha : a ≠ waiterPid) :
      WaitEdge table (blocked.insert waiterPid request) a b ↔ WaitEdge table blocked a b := by
    unfold WaitEdge
    rw [get?_insert, if_neg ha]
  refine ⟨⟨_, search_returns fun _ => waitsOn_eq_nil⟩, ?_⟩
  rw [detectRecordLockDeadlock_iff, TransGen.head'_iff]
  simp only [howners]
  refine exists_congr fun pid => and_congr_right fun _ => ⟨?_, ?_⟩
  · exact path_mono_to fun a b ha => (hedge a b ha).mpr
  · exact path_mono_to fun a b ha => (hedge a b ha).mp

/-! ### The graph -/

/-- The request of a task that is inside a call. -/
def callOf : Phase LockCall → Option LockCall
  | .trying c _ | .parking c _ | .blocked c | .ready c => some c
  | .idle | .gone => none

/-- The task is in a request of this process, without `F_OFD_`. -/
def InRequest (pid : Nat) (phase : Phase LockCall) : Prop :=
  ∃ call, callOf phase = some call ∧ call.req.ofd = false ∧ call.req.ownerPid = pid

/-- The task is between the conflict test and the entry. -/
def Deciding : Phase LockCall → Prop
  | .trying ⟨_, .detect _⟩ _ | .trying ⟨_, .register⟩ _ => True
  | _ => False

/-- Only requests without `F_OFD_` are looked at. -/
def posixOnly (req : LockRequest) : Option LockRequest := if req.ofd then none else some req

/-- The request that the task waits with: it has entered itself, and goes on to block or has. -/
def waitingRequest : Phase LockCall → Option LockRequest
  | .trying ⟨req, .enqueue⟩ _ | .trying ⟨req, .recheck⟩ _ | .trying ⟨req, .signal⟩ _
  | .parking ⟨req, _⟩ _ | .blocked ⟨req, _⟩ => posixOnly req
  | _ => none

variable (w : LockWorld)

/-- The process waits. -/
def IsWaiting (pid : Nat) : Prop :=
  ∃ t req, waitingRequest (w.phase t) = some req ∧ req.ownerPid = pid

/-- One process waits for a lock of another. -/
def Edge (pid pid' : Nat) : Prop :=
  ∃ t req, waitingRequest (w.phase t) = some req ∧ req.ownerPid = pid ∧ Blocks w.shared.locks req pid'

/-- **Where no deadlock is entered.** -/
def Careful : LockEvent → Prop
  | .call t cmd _ _ pid => cmd.ofd = false → ∀ t', t' ≠ t → ¬ InRequest pid (w.phase t')
  | .advance t _ =>
    ∀ req waited, w.phase t = .trying ⟨req, .register⟩ waited → ∀ t', t' ≠ t → ¬ Deciding (w.phase t')
  | .exitClear pid => ∀ t, ¬ InRequest pid (w.phase t)
  | _ => True

/-- What a task knows between the conflict test and the entry: at first all waiting owners of locks
in its way, and after the search that no path leads from such an owner to its process. -/
def DecidingOk : Phase LockCall → Prop
  | .trying ⟨req, .detect owners⟩ _ =>
    req.ofd = false ∧ ∀ pid, Blocks w.shared.locks req pid → IsWaiting w pid → pid ∈ owners
  | .trying ⟨req, .register⟩ _ =>
    req.ofd = false ∧ ∀ pid, Blocks w.shared.locks req pid → ¬ ReflTransGen (Edge w) pid req.ownerPid
  | _ => True

/-- What holds in every state of a careful run. -/
structure DeadlockInv (w : LockWorld) : Prop where
  /-- A process makes one request at a time. -/
  single : ∀ t t' pid, InRequest pid (w.phase t) → InRequest pid (w.phase t') → t = t'
  /-- A process that waits has its entry. -/
  entry : ∀ t req, waitingRequest (w.phase t) = some req →
    w.shared.blocked.get? req.ownerPid = some req.waiting
  deciding : ∀ t, DecidingOk w (w.phase t)
  acyclic : Acyclic (Edge w)

section Graph

variable {w w' : LockWorld} {p p' : Phase LockCall}

theorem posixOnly_eq_some {req' : LockRequest} (h : posixOnly req = some req') :
    req = req' ∧ req.ofd = false := by
  unfold posixOnly at h
  split at h
  · cases h
  · next hofd => exact ⟨some.inj h, Bool.eq_false_iff.mpr hofd⟩

theorem waitingRequest_eq_some (h : waitingRequest p = some req) :
    req.ofd = false ∧ ∃ stage, callOf p = some ⟨req, stage⟩ := by
  unfold waitingRequest at h
  split at h
  case h_6 => cases h
  all_goals
    obtain ⟨rfl, hofd⟩ := posixOnly_eq_some h
    exact ⟨hofd, _, rfl⟩

theorem InRequest.of_waiting (h : waitingRequest p = some req) : InRequest req.ownerPid p := by
  obtain ⟨hofd, _, hcall⟩ := waitingRequest_eq_some h
  exact ⟨_, hcall, hofd, rfl⟩

/-- The stage does not matter for what a request is. -/
theorem InRequest.of_callOf {stage stage' : LockStage} (h : InRequest pid p')
    (hcall' : callOf p' = some ⟨req, stage'⟩) (hcall : callOf p = some ⟨req, stage⟩) : InRequest pid p := by
  obtain ⟨_, hsome, hofd, hpid⟩ := h
  obtain rfl := some.inj (hsome.symm.trans hcall')
  exact ⟨_, hcall, hofd, hpid⟩

theorem decidingOk_of_not (h : ¬ Deciding p) : DecidingOk w p := by
  unfold DecidingOk
  split
  · exact absurd trivial h
  · exact absurd trivial h
  · trivial

theorem Edge.isWaiting (h : Edge w pid pid') : IsWaiting w pid := by
  obtain ⟨t, req, hwait, hpid, -⟩ := h
  exact ⟨t, req, hwait, hpid⟩

/-- A request does not wait for its own process. -/
theorem Blocks.ne (h : Blocks table req pid) (hofd : req.ofd = false) : pid ≠ req.ownerPid := by
  obtain ⟨_, -, howner, hconflict⟩ := h
  rintro rfl
  exact (lockConflicts_iff.mp hconflict).1 (howner.trans (req.posix hofd).symm)

/-- What is in the way of a request, byte by byte. -/
theorem blocks_iff_held : Blocks table req pid ↔
    req.lockType ≠ .unlck ∧ .process pid ≠ req.owner ∧ ∃ lockType byte, lockType ≠ .unlck ∧
      (req.lockType = .wrlck ∨ lockType = .wrlck) ∧ req.range.Covers byte ∧
      Held (locksOf table req.key) (.process pid) lockType byte := by
  constructor
  · rintro ⟨lock, hlock, howner, hconflict⟩
    obtain ⟨hne, hlockType, hreqType, hwrite, byte, hreq, hcovers⟩ := lockConflicts_iff.mp hconflict
    exact ⟨hreqType, howner ▸ hne, lock.lockType, byte, hlockType, hwrite, hreq, lock, hlock,
      howner, rfl, hcovers⟩
  · rintro ⟨hreqType, hne, _, byte, hlockType, hwrite, hreq, lock, hlock, howner, rfl, hcovers⟩
    exact ⟨lock, hlock, howner,
      lockConflicts_iff.mpr ⟨howner ▸ hne, hlockType, hreqType, hwrite, byte, hreq, hcovers⟩⟩

/-- A request that is granted puts nobody else's locks in the way of anyone. -/
theorem Blocks.of_granted {granted : LockRequest} (hne : .process pid ≠ granted.owner)
    (h : Blocks (setLocks table granted.key (applyRecordLockForOwner (locksOf table granted.key)
      granted.owner granted.ownerPid granted.lockType granted.range).1) req pid) : Blocks table req pid := by
  rw [blocks_iff_held] at h ⊢
  obtain ⟨hreqType, howner, lockType, byte, hlockType, hwrite, hreq, hheld⟩ := h
  refine ⟨hreqType, howner, lockType, byte, hlockType, hwrite, hreq, ?_⟩
  rw [locksOf_setLocks] at hheld
  split at hheld
  · next heq =>
    rw [heq]
    obtain ⟨-, ⟨hold, -⟩ | ⟨heq, -⟩⟩ := held_apply.mp hheld
    · exact hold
    · exact absurd heq hne
  · exact hheld

end Graph

/-! ### Steps that take edges away -/

section Steps

variable {w w' : LockWorld} {p p' : Phase LockCall} {waited signal : Bool} {later : List Task}

/-- What a task becomes enters no request, decides nothing new, and waits for nothing new. -/
structure Recedes (p p' : Phase LockCall) : Prop where
  request : ∀ pid, InRequest pid p' → InRequest pid p
  decides : p' = p ∨ ¬ Deciding p'
  waits : ∀ req, waitingRequest p' = some req → waitingRequest p = some req

theorem Recedes.refl : Recedes p p := ⟨fun _ => id, .inl rfl, fun _ => id⟩

theorem Recedes.idle : Recedes p .idle := by
  refine ⟨fun pid h => ?_, .inr id, nofun⟩
  obtain ⟨_, hcall, -⟩ := h
  cases hcall

theorem Recedes.wake : Recedes p p.wake := by
  cases p with
  | parking => exact ⟨fun _ h => h, .inr id, fun _ h => h⟩
  | blocked => exact ⟨fun _ h => h, .inr id, nofun⟩
  | idle | trying | ready | gone => exact .refl

theorem Recedes.wakeAll (ts : List Task) (t : Task) : Recedes (w.phase t) (wakeAll ts w.phase t) := by
  unfold Parking.wakeAll
  split
  · exact .wake
  · exact .refl

/-- One task recedes, the others stay. -/
theorem Recedes.update (h : Recedes (w.phase t) p') (t' : Task) :
    Recedes (w.phase t') (update w.phase t p' t') :=
  (forall_update_iff w.phase fun t' p => Recedes (w.phase t') p).mpr ⟨h, fun _ _ => .refl⟩ t'

/-- No task waits for anything new. -/
def WaitsLess (w w' : LockWorld) : Prop :=
  ∀ t req, waitingRequest (w'.phase t) = some req → waitingRequest (w.phase t) = some req

theorem IsWaiting.recede (hwaits : WaitsLess w w') (h : IsWaiting w' pid) : IsWaiting w pid := by
  obtain ⟨t, req, hwait, hpid⟩ := h
  exact ⟨t, req, hwaits t req hwait, hpid⟩

theorem Edge.recede (hwaits : WaitsLess w w')
    (hblocks : ∀ req, Blocks w'.shared.locks req pid' → Blocks w.shared.locks req pid')
    (h : Edge w' pid pid') : Edge w pid pid' := by
  obtain ⟨t, req, hwait, hpid, hb⟩ := h
  exact ⟨t, req, hwaits t req hwait, hpid, hblocks req hb⟩

/-- What a task knows stays true while edges are taken away. -/
theorem DecidingOk.recede (hwaits : WaitsLess w w')
    (hblocks : ∀ req pid, Blocks w'.shared.locks req pid → Blocks w.shared.locks req pid)
    (h : DecidingOk w p) : DecidingOk w' p := by
  unfold DecidingOk at h ⊢
  split at h
  · exact ⟨h.1, fun pid hb hwait => h.2 pid (hblocks _ _ hb) (hwait.recede hwaits)⟩
  · exact ⟨h.1, fun pid hb hpath => h.2 pid (hblocks _ _ hb)
      (ReflTransGen.mono (fun _ pid' hedge => hedge.recede hwaits fun req => hblocks req pid') _ _ hpath)⟩
  · trivial

/-- **A step that takes edges away.** -/
theorem DeadlockInv.shrink (h : DeadlockInv w) (hphase : ∀ t, Recedes (w.phase t) (w'.phase t))
    (hentry : ∀ t req, waitingRequest (w'.phase t) = some req →
      w'.shared.blocked.get? req.ownerPid = w.shared.blocked.get? req.ownerPid)
    (hblocks : ∀ req pid, Blocks w'.shared.locks req pid → Blocks w.shared.locks req pid) :
    DeadlockInv w' := by
  have hwaits : WaitsLess w w' := fun t => (hphase t).waits
  refine ⟨fun t t' pid ht ht' => h.single t t' pid ((hphase t).request pid ht) ((hphase t').request pid ht'),
    fun t req hwait => (hentry t req hwait).trans (h.entry t req (hwaits t req hwait)), fun t => ?_,
    h.acyclic.mono fun _ pid hedge => hedge.recede hwaits fun req => hblocks req pid⟩
  rcases (hphase t).decides with heq | hnot
  · rw [heq]
    exact (h.deciding t).recede hwaits hblocks
  · exact decidingOk_of_not hnot

/-- The next stage of a request. -/
theorem Recedes.stage {stage stage' : LockStage} (hdecides : ¬ Deciding (.trying ⟨req, stage'⟩ waited))
    (hwaits : waitingRequest (.trying ⟨req, stage'⟩ waited) = none ∨
      waitingRequest (.trying ⟨req, stage'⟩ waited) = waitingRequest (.trying ⟨req, stage⟩ waited)) :
    Recedes (.trying ⟨req, stage⟩ waited) (.trying ⟨req, stage'⟩ waited) := by
  refine ⟨fun pid h => h.of_callOf rfl rfl, .inr hdecides, fun req' h => ?_⟩
  rcases hwaits with hnone | hsame
  · rw [hnone] at h
    cases h
  · rwa [hsame] at h

namespace DeadlockInv

variable (h : DeadlockInv w)

include h

/-- A task goes on, and the tables that matter stay. -/
theorem goesOn (hrec : Recedes (w.phase t) p') (hlocks : s.locks = w.shared.locks)
    (hblocked : s.blocked = w.shared.blocked) : DeadlockInv ⟨s, update w.phase t p', later⟩ :=
  h.shrink hrec.update fun _ _ _ => by simp only [hblocked] fun _ _ hb => by simpa only [hlocks] using hb

/-- A task goes on, and the entry of its process is removed. -/
theorem clears {stage : LockStage} (ht : w.phase t = .trying ⟨req, stage⟩ waited)
    (hrec : Recedes (w.phase t) p')
    (hnone : waitingRequest p' = none) :
    DeadlockInv ⟨req.clearWaiting w.shared, update w.phase t p', later⟩ := by
  unfold LockRequest.clearWaiting
  split_ifs with hofd
  · exact h.goesOn hrec rfl rfl
  refine h.shrink hrec.update (fun t' req' hwait => get?_erase.trans (if_neg fun hpid => ?_)) fun _ _ hb => hb
  -- another task that waits would be in a request of the same process
  have hne : t' ≠ t := by
    rintro rfl
    simp only [update_self, hnone] at hwait
    cases hwait
  rw [show (⟨_, update w.phase t p', later⟩ : LockWorld).phase t' = w.phase t'
    from update_of_ne hne ..] at hwait
  have hin : InRequest req.ownerPid (w.phase t) := ⟨_, by rw [ht]; rfl, Bool.eq_false_iff.mpr hofd, rfl⟩
  exact hne (h.single t' t _ (hpid ▸ InRequest.of_waiting hwait) hin)

/-- **A lock is granted.** Its owner does not wait, so no edge leaves it. -/
theorem granted (pid : Nat) (hphase : ∀ t, Recedes (w.phase t) (w'.phase t))
    (hblocked : w'.shared.blocked = w.shared.blocked)
    (hblocks : ∀ req pid', pid' ≠ pid → Blocks w'.shared.locks req pid' → Blocks w.shared.locks req pid')
    (hnot : ∀ t, InRequest pid (w'.phase t) → ¬ Deciding (w'.phase t) ∧ waitingRequest (w'.phase t) = none) :
    DeadlockInv w' := by
  have hidle : ¬ IsWaiting w' pid := by
    rintro ⟨t, req, hwait, rfl⟩
    have hnone := (hnot t (InRequest.of_waiting hwait)).2
    rw [hnone] at hwait
    cases hwait
  have hsink : ∀ b, ¬ Edge w' pid b := fun b hedge => hidle hedge.isWaiting
  have hedge a b (hab : Edge w' a b) (hb : b ≠ pid) : Edge w a b :=
    hab.recede (fun t => (hphase t).waits) fun req => hblocks req b hb
  refine ⟨fun t t' pid ht ht' => h.single t t' pid ((hphase t).request pid ht) ((hphase t').request pid ht'),
    fun t req hwait => ?_, fun t => ?_, acyclic_of_sink h.acyclic hsink hedge⟩
  · rw [hblocked]
    exact h.entry t req ((hphase t).waits req hwait)
  rcases (hphase t).decides with heq | hnot'
  swap
  · exact decidingOk_of_not hnot'
  have hok := h.deciding t
  have hin := hnot t
  rw [heq] at hin ⊢
  unfold DecidingOk at hok ⊢
  split at hok
  · exact ⟨hok.1, fun pid' hb hwait => hok.2 pid' (hblocks _ _ (fun heq => hidle (heq ▸ hwait)) hb)
      (hwait.recede fun t => (hphase t).waits)⟩
  · next req _ hp =>
    refine ⟨hok.1, fun pid' hb hpath => ?_⟩
    -- the process that decides is another one than the owner of the new lock
    have hne : req.ownerPid ≠ pid := by
      intro hpid
      rw [hp] at hin
      exact (hin ⟨_, rfl, hok.1, hpid⟩).1 trivial
    by_cases hpid' : pid' = pid
    · subst hpid'
      exact hne ((Relation.reflTransGen_iff_eq hsink).mp hpath)
    · exact hok.2 pid' (hblocks _ _ hpid' hb) (path_of_sink hsink hedge hpath hne)
  · trivial

/-- A task goes on, and what it is in requests of was so already. -/
theorem single_update (hrequest : ∀ pid, InRequest pid p' → InRequest pid (w.phase t)) :
    ∀ t₁ t₂ pid, InRequest pid (update w.phase t p' t₁) → InRequest pid (update w.phase t p' t₂) →
      t₁ = t₂ := by
  have hin := (forall_update_iff w.phase fun t' p => ∀ pid, InRequest pid p → InRequest pid (w.phase t')).mpr
    ⟨hrequest, fun _ _ _ => id⟩
  exact fun t₁ t₂ pid h₁ h₂ => h.single t₁ t₂ pid (hin t₁ pid h₁) (hin t₂ pid h₂)

/-- A task that knows what it has to goes on; the tables stay. -/
theorem decides
    (hsingle : ∀ t₁ t₂ pid, InRequest pid (update w.phase t p' t₁) →
      InRequest pid (update w.phase t p' t₂) → t₁ = t₂)
    (hnone : waitingRequest p' = none) (hok : DecidingOk w p') :
    DeadlockInv ⟨w.shared, update w.phase t p', later⟩ := by
  have hwaits : WaitsLess w ⟨w.shared, update w.phase t p', later⟩ := by
    intro t' req hwait
    dsimp only at hwait
    rw [update_apply] at hwait
    split at hwait
    · cases hnone.symm.trans hwait
    · exact hwait
  refine ⟨hsingle, fun t' req hwait => h.entry t' req (hwaits t' req hwait),
    fun t' => DecidingOk.recede hwaits (fun _ _ => id) ?_,
    h.acyclic.mono fun _ _ hedge => hedge.recede hwaits fun _ => id⟩
  dsimp only
  rw [update_apply]
  split
  · exact hok
  · exact h.deciding t'

/-- The tables know all edges. -/
theorem waitEdge (hedge : Edge w pid pid') : WaitEdge w.shared.locks w.shared.blocked pid pid' := by
  obtain ⟨t, req, hwait, rfl, hb⟩ := hedge
  exact hb.waitEdge (waitingRequest_eq_some hwait).1 (h.entry t req hwait)

/-- **The search finds what would close a cycle.** -/
theorem detects {owners : List Nat} (ht : w.phase t = .trying ⟨req, .detect owners⟩ waited)
    (hb : Blocks w.shared.locks req pid) (hpath : ReflTransGen (Edge w) pid req.ownerPid) :
    detectRecordLockDeadlock w.shared.locks w.shared.blocked req.ownerPid owners = true := by
  have hok := h.deciding t
  rw [ht] at hok
  obtain ⟨hofd, hfound⟩ := hok
  -- the owner is not the process itself, so it waits, and the search starts there
  have hwaiting : IsWaiting w pid := by
    rcases ReflTransGen.cases_head hpath with heq | ⟨next, hedge, -⟩
    · exact absurd heq (hb.ne hofd)
    · exact hedge.isWaiting
  exact detectRecordLockDeadlock_iff.mpr
    ⟨pid, hfound pid hb hwaiting, ReflTransGen.mono (fun _ _ => h.waitEdge) _ _ hpath⟩

/-- **A process enters itself.** -/
theorem registers
    (ht : w.phase t = .trying ⟨req, .register⟩ waited) (hcare : ∀ t', t' ≠ t → ¬ Deciding (w.phase t')) :
    DeadlockInv ⟨{ w.shared with blocked := w.shared.blocked.insert req.ownerPid req.waiting },
      update w.phase t (.trying ⟨req, .enqueue⟩ waited), later⟩ := by
  have hok := h.deciding t
  rw [ht] at hok
  obtain ⟨hofd, hopen⟩ := hok
  have hmine : InRequest req.ownerPid (w.phase t) := ⟨_, by rw [ht]; rfl, hofd, rfl⟩
  -- who waits now is this request, or waited before, for another process
  have hcases t' req' (hwait : waitingRequest (update w.phase t (.trying ⟨req, .enqueue⟩ waited) t') =
      some req') : req' = req ∨ waitingRequest (w.phase t') = some req' ∧ req'.ownerPid ≠ req.ownerPid := by
    rw [update_apply] at hwait
    split at hwait
    · exact .inl (posixOnly_eq_some hwait).1.symm
    · next ht' =>
      exact .inr ⟨hwait, fun hpid => ht' (h.single t' t _ (hpid ▸ InRequest.of_waiting hwait) hmine)⟩
  refine ⟨h.single_update fun _ hin => hin.of_callOf rfl (by rw [ht]; rfl),
    fun t' req' hwait => ?_, fun t' => decidingOk_of_not ?_, ?_⟩
  · rcases hcases t' req' hwait with rfl | ⟨hold, hne⟩
    · exact get?_insert_self
    · rw [get?_insert, if_neg hne]
      exact h.entry t' req' hold
  · exact (forall_update_iff w.phase fun _ p => ¬ Deciding p).mpr ⟨id, hcare⟩ t'
  · -- all new edges leave the process, and lead to where no path comes back from
    refine acyclic_of_add (p := req.ownerPid) h.acyclic ?_ ?_
    · rintro a b ⟨t', req', hwait, hpid, hb⟩
      rcases hcases t' req' hwait with rfl | ⟨hold, -⟩
      · exact .inr hpid.symm
      · exact .inl ⟨t', req', hold, hpid, hb⟩
    · rintro b ⟨t', req', hwait, hpid, hb⟩
      rcases hcases t' req' hwait with rfl | ⟨-, hne⟩
      · exact hopen b hb
      · exact absurd hpid hne

/-- The conflict test. -/
theorem tests (ht : w.phase t = .trying ⟨req, .test⟩ waited) :
    DeadlockInv ⟨(lockStage w.shared t req signal .test).1,
      update w.phase t ((lockStage w.shared t req signal .test).2.2.phase req waited), later⟩ := by
  have hleave : ∀ result, Recedes (w.phase t) (.trying ⟨req, .leave result⟩ waited) := fun _ =>
    ht ▸ .stage id (.inl rfl)
  simp only [lockStage]
  split
  · by_cases hblocking : req.blocking = false
    · simp only [if_pos hblocking]
      exact h.goesOn (hleave _) rfl rfl
    simp only [if_neg hblocking]
    by_cases hofd : req.ofd = true
    · simp only [if_pos hofd]
      have hnone : waitingRequest (.trying ⟨req, .enqueue⟩ waited) = none := by
        simp [waitingRequest, posixOnly, hofd]
      exact h.goesOn (ht ▸ .stage id (.inl hnone)) rfl rfl
    · simp only [if_neg hofd]
      refine h.decides (h.single_update fun _ hin => hin.of_callOf rfl (by rw [ht]; rfl)) rfl
        ⟨Bool.eq_false_iff.mpr hofd, fun pid hb _ => ?_⟩
      -- the owners are those of the locks that conflict now
      obtain ⟨lock, hlock, howner, hlockConflict⟩ := hb
      refine mem_collectConflictProcessOwners.mpr ⟨lock, hlock, howner, ?_⟩
      rwa [← req.posix (eq_false_of_ne_true hofd)]
  · generalize happly : applyRecordLockForOwner (locksOf w.shared.locks req.key) req.owner req.ownerPid
      req.lockType req.range = applied
    have hrec : Recedes (w.phase t) (.trying ⟨req, if applied.2 then .wake else .leave (.ok ())⟩ waited) := by
      cases applied.2
      · exact hleave _
      · exact ht ▸ .stage id (.inl rfl)
    have hquiet : ¬ Deciding (.trying ⟨req, if applied.2 then .wake else .leave (.ok ())⟩ waited) ∧
        waitingRequest (.trying ⟨req, if applied.2 then .wake else .leave (.ok ())⟩ waited) = none := by
      cases applied.2 <;> exact ⟨id, rfl⟩
    have hblocks req' pid (hne : .process pid ≠ req.owner) (hb :
        Blocks (setLocks w.shared.locks req.key applied.1) req' pid) : Blocks w.shared.locks req' pid := by
      rw [← happly] at hb
      exact hb.of_granted hne
    by_cases hofd : req.ofd = true
    · -- the lock of an open file is in nobody's graph
      obtain ⟨_, howner⟩ := req.openFile hofd
      refine h.shrink hrec.update (fun _ _ _ => rfl) fun req' pid hb => hblocks req' pid ?_ hb
      rw [howner]
      exact (by rintro ⟨⟩)
    · have hposix : req.ofd = false := Bool.eq_false_iff.mpr hofd
      refine h.granted req.ownerPid hrec.update rfl (fun req' pid' hne hb => ?_) fun t' hin => ?_
      · refine hblocks req' pid' ?_ hb
        rw [req.posix hposix]
        exact fun heq => hne (RecordLockOwner.process.inj heq)
      · have hmine : InRequest req.ownerPid (w.phase t) := ⟨_, by rw [ht]; rfl, hposix, rfl⟩
        obtain rfl := h.single t' t _ ((hrec.update t').request _ hin) hmine
        dsimp only
        rwa [update_self]

/-- **A stage of a request.** -/
theorem advance (hcare : Careful w (.advance t signal))
    (hstep : step w (.advance t signal) = some w') : DeadlockInv w' := by
  simp only [step] at hstep
  split at hstep
  swap
  · cases hstep
  next req stage waited ht =>
  cases hstep
  -- all stages but three take edges away
  cases stage with
  | clear => exact h.clears ht (ht ▸ .stage id (.inl rfl)) rfl
  | test => exact h.tests ht
  | wake | dequeue => exact h.goesOn (ht ▸ .stage id (.inl rfl)) rfl rfl
  | detect =>
    simp only [lockStage]
    split
    · exact h.goesOn (ht ▸ .stage id (.inl rfl)) rfl rfl
    next hdetect =>
    have hok := h.deciding t
    rw [ht] at hok
    exact h.decides (h.single_update fun _ hin => hin.of_callOf rfl (by rw [ht]; rfl)) rfl
      ⟨hok.1, fun _ hb hpath => hdetect (h.detects ht hb hpath)⟩
  | register => exact h.registers ht (hcare req waited ht)
  | enqueue =>
    refine h.goesOn (ht ▸ .stage id (.inr rfl)) enqueueRecordLockWaiter_locks ?_
    simp only [lockStage, enqueueRecordLockWaiter]
    split <;> rfl
  | recheck =>
    simp only [lockStage]
    split
    · exact h.goesOn (ht ▸ .stage id (.inr rfl)) rfl rfl
    · exact h.goesOn (ht ▸ .stage id (.inl rfl)) rfl rfl
  | signal =>
    simp only [lockStage]
    split
    · exact h.goesOn (ht ▸ .stage id (.inl rfl)) rfl rfl
    · exact h.goesOn (ht ▸ ⟨fun _ hin => hin.of_callOf rfl rfl, .inr id, fun _ hwait => hwait⟩) rfl rfl
  | resumed | leave =>
    simp only [lockStage]
    split <;> exact h.goesOn (ht ▸ .stage id (.inl rfl)) rfl rfl
  | unregister error =>
    cases error <;> exact h.clears ht (ht ▸ .stage id (.inl rfl)) rfl
  | finish => exact h.clears ht .idle rfl

/-- **A call begins.** -/
theorem calls (hcare : req.ofd = false → ∀ t', t' ≠ t → ¬ InRequest req.ownerPid (w.phase t')) :
    DeadlockInv (w.goto t (.trying ⟨req, .clear⟩ false)) := by
  refine h.decides (fun t₁ t₂ pid h₁ h₂ => ?_) rfl trivial
  have hmine : ∀ t', t' ≠ t → InRequest pid (.trying ⟨req, .clear⟩ false) → ¬ InRequest pid (w.phase t') := by
    rintro t' ht' ⟨call, hcall, hofd, hpid⟩
    cases hcall
    exact hpid ▸ hcare hofd t' ht'
  rw [update_apply] at h₁ h₂
  split_ifs at h₁ h₂ with ht₁ ht₂ ht₂
  · exact ht₁.trans ht₂.symm
  · exact absurd h₂ (hmine t₂ ht₂ h₁)
  · exact absurd h₁ (hmine t₁ ht₁ h₂)
  · exact h.single t₁ t₂ pid h₁ h₂

/-- Only the tables change, and they lose locks at most. -/
theorem releases (hblocked : s.blocked = w.shared.blocked)
    (hlocks : ∀ key, locksOf s.locks key ⊆ locksOf w.shared.locks key) : DeadlockInv ⟨s, w.phase, later⟩ :=
  h.shrink (fun _ => .refl)
    fun _ _ _ => by simp only [hblocked] fun _ _ ⟨lock, hlock, hb⟩ => ⟨lock, hlocks _ hlock, hb⟩

theorem step {e : LockEvent} (hcare : Careful w e) (hstep : RecordLocks.step w e = some w') :
    DeadlockInv w' := by
  cases e with
  | call =>
    simp only [RecordLocks.step] at hstep
    split at hstep
    · next req _ hreq =>
      cases hstep
      obtain ⟨hpid, hofd⟩ := lockRequest_owner hreq
      exact h.calls fun hposix => hpid ▸ hcare (hofd ▸ hposix)
    · cases hstep
      exact h
    · cases hstep
  | advance => exact h.advance hcare hstep
  | switchOut =>
    simp only [RecordLocks.step] at hstep
    split at hstep
    · next c woken ht =>
      cases hstep
      refine h.goesOn ?_ rfl rfl
      rw [ht]
      cases woken with
      | false => exact ⟨fun _ hin => hin, .inr id, fun _ hwait => hwait⟩
      | true => exact ⟨fun _ hin => hin, .inr id, (by intros; contradiction)⟩
    · cases hstep
  | resume =>
    simp only [RecordLocks.step] at hstep
    split at hstep
    · next c ht =>
      cases hstep
      refine h.goesOn ?_ rfl rfl
      rw [ht]
      exact ⟨fun _ hin => hin.of_callOf rfl rfl, .inr id, (by intros; contradiction)⟩
    · cases hstep
  | deliver t =>
    simp only [RecordLocks.step] at hstep
    split at hstep
    · cases hstep
      exact h.shrink (Recedes.wakeAll [t]) (fun _ _ _ => rfl) fun _ _ hb => hb
    · cases hstep
  | disturb t =>
    cases hstep
    exact h.shrink (Recedes.wakeAll [t]) (fun _ _ _ => rfl) fun _ _ hb => hb
  | close =>
    cases hstep
    refine h.releases rfl fun _ => ?_
    simp only [locksOf_setLocks]
    split
    · next heq =>
      rw [heq]
      exact filter_sublist.subset
    · exact Subset.refl _
  | exitClear =>
    cases hstep
    refine h.shrink (fun _ => .refl) (fun t req hwait => get?_erase.trans (if_neg fun hpid => ?_))
      fun _ _ hb => hb
    exact hcare t (hpid ▸ InRequest.of_waiting hwait)
  | exitRelease =>
    cases hstep
    refine h.releases rfl fun _ => ?_
    simp only [locksOf_exitRelease]
    exact filter_sublist.subset
  | wakeKey =>
    simp only [RecordLocks.step] at hstep
    split at hstep
    · cases hstep
      exact h.releases rfl fun _ => Subset.refl _
    · cases hstep

end DeadlockInv

theorem deadlockInv_boot : DeadlockInv lockBoot := by
  have hnone : ∀ a b, ¬ Edge lockBoot a b := nofun
  refine ⟨fun t t' pid hin => ?_, nofun, fun _ => trivial, fun a hpath => ?_⟩
  · obtain ⟨_, hcall, -⟩ := hin
    cases hcall
  · obtain ⟨b, hfirst, -⟩ := TransGen.head'_iff.mp hpath
    exact hnone a b hfirst

theorem deadlockInv_of_careful (h : LockReachable Careful w) : DeadlockInv w := by
  refine Reachable.invariant ?_ ?_ h
  · rintro _ rfl
    exact deadlockInv_boot
  · rintro w w' hinv ⟨e, hcare, hstep⟩
    exact hinv.step hcare hstep

end Steps

/-! ### Runs of a few tasks -/

section Among

instance : DecidablePred Deciding
  | .trying ⟨_, .detect _⟩ _ | .trying ⟨_, .register⟩ _ => .isTrue trivial
  | .trying ⟨_, .clear⟩ _ | .trying ⟨_, .test⟩ _ | .trying ⟨_, .wake⟩ _ | .trying ⟨_, .enqueue⟩ _
  | .trying ⟨_, .recheck⟩ _ | .trying ⟨_, .signal⟩ _ | .trying ⟨_, .resumed⟩ _ | .trying ⟨_, .dequeue _⟩ _
  | .trying ⟨_, .unregister _⟩ _ | .trying ⟨_, .leave _⟩ _ | .trying ⟨_, .finish _⟩ _
  | .idle | .parking _ _ | .blocked _ | .ready _ | .gone => .isFalse id

instance (pid : Nat) : DecidablePred (InRequest pid) := fun phase =>
  decidable_of_iff ((callOf phase).any (fun call => !call.req.ofd && call.req.ownerPid == pid) = true) (by
    unfold InRequest
    cases callOf phase with
    | none => simp
    | some call => simp)

/-- The event is one of these tasks, and the condition holds among them. -/
def CarefulAmong (ts : List Task) (w : LockWorld) : LockEvent → Prop
  | .call t _ _ _ pid => t ∈ ts ∧ ∀ t' ∈ ts, t' ≠ t → ¬ InRequest pid (w.phase t')
  | .advance t _ => t ∈ ts ∧ ∀ t' ∈ ts, t' ≠ t → ¬ (Deciding (w.phase t) ∧ Deciding (w.phase t'))
  | .switchOut t => t ∈ ts
  | _ => False

instance (ts : List Task) (w : LockWorld) : DecidablePred (CarefulAmong ts w)
  | .call t _ _ _ pid => inferInstanceAs
    (Decidable (t ∈ ts ∧ ∀ t' ∈ ts, t' ≠ t → ¬ InRequest pid (w.phase t')))
  | .advance t _ =>
    inferInstanceAs (Decidable (t ∈ ts ∧ ∀ t' ∈ ts, t' ≠ t → ¬ (Deciding (w.phase t) ∧ Deciding (w.phase t'))))
  | .switchOut t => inferInstanceAs (Decidable (t ∈ ts))
  | .resume _ | .deliver _ | .disturb _ | .close _ _ | .exitClear _ | .exitRelease _ | .wakeKey _ =>
    .isFalse id

/-- The events of a list, if the condition holds among these tasks. -/
def runAmong (ts : List Task) (w : LockWorld) (es : List LockEvent) : Option LockWorld :=
  es.foldlM (fun w e => if CarefulAmong ts w e then step w e else none) w

variable {ts : List Task} {w w' : LockWorld} {e : LockEvent}

theorem CarefulAmong.careful (h : CarefulAmong ts w e) (hidle : ∀ t, t ∉ ts → w.phase t = .idle) :
    Careful w e := by
  cases e with
  | call =>
    intro _ t' ht' hin
    by_cases hmem : t' ∈ ts
    · exact h.2 t' hmem ht' hin
    · rw [hidle t' hmem] at hin
      obtain ⟨_, hcall, -⟩ := hin
      cases hcall
  | advance =>
    intro _ _ ht t' ht' hdec
    by_cases hmem : t' ∈ ts
    · exact h.2 t' hmem ht' ⟨by rw [ht]; trivial, hdec⟩
    · rwa [hidle t' hmem] at hdec
  | switchOut => trivial
  | resume | deliver | disturb | close | exitClear | exitRelease | wakeKey => exact absurd h id

/-- The other tasks stay outside. -/
theorem CarefulAmong.idle (h : CarefulAmong ts w e) (hidle : ∀ t, t ∉ ts → w.phase t = .idle)
    (hstep : step w e = some w') : ∀ t, t ∉ ts → w'.phase t = .idle := by
  intro t' hmem
  have hother : ∀ {t p}, t ∈ ts → update w.phase t p t' = .idle := by
    intro t p ht
    have hne : t' ≠ t := fun heq => hmem (heq ▸ ht)
    exact (update_of_ne hne ..).trans (hidle t' hmem)
  cases e with
  | call =>
    simp only [step] at hstep
    split at hstep
    · cases hstep
      exact hother h.1
    · cases hstep
      exact hidle t' hmem
    · cases hstep
  | advance =>
    simp only [step] at hstep
    split at hstep
    · cases hstep
      exact hother h.1
    · cases hstep
  | switchOut =>
    simp only [step] at hstep
    split at hstep
    · cases hstep
      exact hother h
    · cases hstep
  | resume | deliver | disturb | close | exitClear | exitRelease | wakeKey => exact absurd h id

theorem LockReachable.among {es : List LockEvent} (h : LockReachable Careful w)
    (hidle : ∀ t, t ∉ ts → w.phase t = .idle) (hrun : runAmong ts w es = some w') :
    LockReachable Careful w' := by
  refine (foldlM_invariant (I := fun w => LockReachable Careful w ∧ ∀ t, t ∉ ts → w.phase t = .idle)
    ⟨h, hidle⟩ ?_ hrun).1
  rintro w e _ - ⟨h, hidle⟩ hexec
  obtain ⟨hcare, hstep⟩ := ite_none_right_eq_some.mp hexec
  exact ⟨h.step ⟨e, hcare.careful hidle, hstep⟩, hcare.idle hidle hstep⟩

end Among

/-! ### No deadlock -/

/-- The process is blocked in `F_SETLKW` on a lock of the other. -/
def WaitsFor (pid pid' : Nat) : Prop :=
  ∃ t call, w.phase t = .blocked call ∧ call.req.ofd = false ∧ call.req.ownerPid = pid ∧
    Blocks w.shared.locks call.req pid'

theorem WaitsFor.edge {w : LockWorld} (h : WaitsFor w pid pid') : Edge w pid pid' := by
  obtain ⟨t, call, ht, hofd, hpid, hb⟩ := h
  refine ⟨t, call.req, ?_, hpid, hb⟩
  rw [ht]
  simp [waitingRequest, posixOnly, hofd]

/-- **No deadlock of record locks is entered** in the runs in which a process enters itself as
waiting only while no other is between its conflict test and its own entry, and makes one request at
a time: no cycle of processes is blocked, each on a lock of the next, and a request that would close
one returns `EDEADLK`. -/
theorem no_record_lock_deadlock {w : LockWorld} (h : LockReachable Careful w) :
    (∀ pid, ¬ TransGen (WaitsFor w) pid pid) ∧
    ∀ t req owners waited pid, w.phase t = .trying ⟨req, .detect owners⟩ waited →
      Blocks w.shared.locks req pid → ReflTransGen (WaitsFor w) pid req.ownerPid →
      ∀ signal, ∃ w', step w (.advance t signal) = some w' ∧
        w'.phase t = .trying ⟨req, .leave (.error .edeadlk)⟩ waited := by
  have hinv := deadlockInv_of_careful h
  refine ⟨fun pid hpath => hinv.acyclic pid (TransGen.mono (fun _ _ => WaitsFor.edge) _ _ hpath),
    fun t req owners waited pid ht hb hpath signal => ?_⟩
  have hdetect := hinv.detects ht hb (ReflTransGen.mono (fun _ _ => WaitsFor.edge) _ _ hpath)
  refine ⟨⟨w.shared, update w.phase t (.trying ⟨req, .leave (.error .edeadlk)⟩ waited),
    w.later ++ []⟩, ?_, update_self ..⟩
  simp only [step, ht, lockStage, if_pos hdetect, LockNext.phase]

/-- A write lock on one byte. -/
def oneByte (byte : Int) : FcntlFlock := ⟨1, 0, byte, 1, 0⟩

/-- A blocking request on one byte up to where it looks for a deadlock. -/
def upToDetect (t : Task) (byte : Int) (pid : Nat) : List LockEvent :=
  [.call t ⟨false, true⟩ someFile (oneByte byte) pid, .advance t false, .advance t false]

def upToBlocked (t : Task) : List LockEvent :=
  [.advance t false, .advance t false, .advance t false, .advance t false, .advance t false, .switchOut t]

/-- The request of the process for the byte. -/
def byteRequest (byte : Int) (h : 0 ≤ byte ∧ byte ≤ i64Max) (pid : Nat) : LockRequest :=
  ⟨⟨1, 2⟩, .process pid, pid, .wrlck, ⟨byte, some byte, h.1, Int.le_refl _, h.2⟩, false, true, fun _ => rfl,
    fun h => nomatch h⟩

/-- The lock of the process on the byte. -/
def byteLock (byte : Int) (h : 0 ≤ byte ∧ byte ≤ i64Max) (pid : Nat) : RecordLock :=
  ⟨.process pid, pid, .wrlck, ⟨byte, some byte, h.1, Int.le_refl _, h.2⟩⟩

/-- Two processes have a byte each. The first blocks on the byte of the second, and the second then
asks for that of the first: it gets `EDEADLK`. -/
theorem no_record_lock_deadlock_refused : ∃ w w', LockReachable Careful w ∧ WaitsFor w 1 2 ∧
    step w (.advance 2 false) = some w' ∧
    w'.phase 2 = .trying ⟨byteRequest 0 (by decide) 2, .leave (.error .edeadlk)⟩ false := by
  let events := grantedCall 1 true (oneByte 0) 1 ++ grantedCall 2 true (oneByte 1) 2 ++ upToDetect 1 1 1 ++
    upToBlocked 1 ++ upToDetect 2 0 2
  let lock1 := byteLock 0 (by decide) 1
  let lock2 := byteLock 1 (by decide) 2
  have hstate : (runAmong [1, 2] lockBoot events).map
      (fun w => (w.phase 1, w.phase 2, locksOf w.shared.locks ⟨1, 2⟩)) =
        some (.blocked ⟨byteRequest 1 (by decide) 1, .resumed⟩,
          .trying ⟨byteRequest 0 (by decide) 2, .detect [1]⟩ false, [lock1, lock2]) := by
    decide +kernel
  obtain ⟨w, hrun, hw⟩ := map_eq_some_iff.mp hstate
  simp only [Prod.mk.injEq] at hw
  obtain ⟨hphase1, hphase2, hlocks⟩ := hw
  have hreach : LockReachable Careful w := LockReachable.among (.start rfl) (fun _ _ => rfl) hrun
  have hwaits : WaitsFor w 1 2 := by
    refine ⟨1, _, hphase1, rfl, rfl, lock2, ?_, rfl, by decide⟩
    simp [byteRequest, hlocks]
  have hblocks : Blocks w.shared.locks (byteRequest 0 (by decide) 2) 1 := by
    refine ⟨lock1, ?_, rfl, by decide⟩
    simp [byteRequest, hlocks]
  obtain ⟨w', hstep, hleave⟩ := (no_record_lock_deadlock hreach).2 2 _ [1] false 1 hphase2 hblocks
    (.single hwaits) false
  exact ⟨w, w', hreach, hwaits, hstep, hleave⟩

/-- **A deadlock.** Both look for a deadlock before either has entered itself, and both block. -/
theorem record_lock_deadlock : ∃ w, LockReachable (fun _ _ => True) w ∧ TransGen (WaitsFor w) 1 1 := by
  let events := grantedCall 1 true (oneByte 0) 1 ++ grantedCall 2 true (oneByte 1) 2 ++ upToDetect 1 1 1 ++
    upToDetect 2 0 2 ++ [.advance 1 false] ++ upToBlocked 2 ++ (upToBlocked 1).tail
  let lock1 := byteLock 0 (by decide) 1
  let lock2 := byteLock 1 (by decide) 2
  have hstate : (events.foldlM step lockBoot).map
      (fun w => (w.phase 1, w.phase 2, locksOf w.shared.locks ⟨1, 2⟩)) =
        some (.blocked ⟨byteRequest 1 (by decide) 1, .resumed⟩,
          .blocked ⟨byteRequest 0 (by decide) 2, .resumed⟩, [lock1, lock2]) := by
    decide +kernel
  obtain ⟨w, hrun, hw⟩ := map_eq_some_iff.mp hstate
  simp only [Prod.mk.injEq] at hw
  obtain ⟨hphase1, hphase2, hlocks⟩ := hw
  have hwaits : WaitsFor w 1 2 := by
    refine ⟨1, _, hphase1, rfl, rfl, lock2, ?_, rfl, by decide⟩
    simp [byteRequest, hlocks]
  have hwaits' : WaitsFor w 2 1 := by
    refine ⟨2, _, hphase2, rfl, rfl, lock1, ?_, rfl, by decide⟩
    simp [byteRequest, hlocks]
  exact ⟨w, LockReachable.run (.start rfl) hrun, .tail (.single hwaits) hwaits'⟩

end HitOS.RecordLocks
