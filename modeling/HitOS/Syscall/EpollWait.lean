import HitOS.Lib.Usize
import HitOS.Syscall.EpollNesting

/-!
# What `epoll_wait` reports

An iteration of `epoll_wait` (`should_block`) looks at the interests in the order of their
descriptors and reports those that fire, up to `maxevents`. It takes note of the readiness of all of
them, and disables every interest with `EPOLLONESHOT` that fires (`gather_ready_events`,
`apply_updates`).

So an interest that fires when there is no more room is used up without a report if it is one-shot
or edge-triggered (`unreported_consumed`). `consumed_reported`: an event is used up without a report
exactly if there is such an interest and the events can be written.
-/

namespace HitOS.Epoll

open List Function Option OrdMap

def epollOneshot : BitVec 32 := 0x40000000

structure EntryUpdate where
  fd : Nat
  lastReady : BitVec 32
  disableOneshot : Bool

namespace Files

open Digraph (HeightLe)

def isOneshot (events : BitVec 32) : Bool := events &&& epollOneshot ≠ 0

variable (s : Files)

/-- `snapshot_interests`, with the descriptors. -/
def snapshotEntries (ep : Nat) : List (Nat × EpollInterest) :=
  (s.interests ep).entries.filter fun e => (s.file e.2.file).isSome

/-- The readiness of the file of an interest; the walk into an epoll file begins with nothing
visited. -/
def readyNow (pollMask : Nat → BitVec 32) (fuel : Nat) (snap : EpollInterest) : Option (BitVec 32) :=
  s.fileReadyMask pollMask (fun child => s.peekHasReadyInternal pollMask fuel child []) snap.file
    (eventWatchMask snap.events)

/-- Whether an interest fires at a readiness. -/
def fired (snap : EpollInterest) (ready : BitVec 32) : Bool :=
  if isEdgeTrigger snap.events then ready &&& ~~~snap.lastReady ≠ 0 else ready ≠ 0

/-- The loop of `gather_ready_events`. -/
def gatherFrom (ready : EpollInterest → Option (BitVec 32)) (maxevents : Nat) :
    List (Nat × EpollInterest) → List UserEpollEvent → List EntryUpdate →
      Option (List UserEpollEvent × List EntryUpdate)
  | [], events, updates => some (events, updates)
  | (fd, snap) :: snaps, events, updates =>
    if snap.oneshotDisabled then gatherFrom ready maxevents snaps events updates
    else
      match ready snap with
      | none => none
      | some mask =>
        gatherFrom ready maxevents snaps (if fired snap mask && events.length < maxevents then
            events ++ [⟨mask &&& eventWatchMask snap.events, snap.data⟩]
          else events)
          (updates ++ [⟨fd, mask, fired snap mask && isOneshot snap.events⟩])

def gatherReadyEvents (pollMask : Nat → BitVec 32) (fuel ep maxevents : Nat) :
    Option (List UserEpollEvent × List EntryUpdate) :=
  if maxevents = 0 then some ([], [])
  else gatherFrom (s.readyNow pollMask fuel) maxevents (s.snapshotEntries ep) [] []

def applyEntry (update : EntryUpdate) (entry : EpollInterest) : EpollInterest :=
  { entry with
    lastReady := update.lastReady
    oneshotDisabled := if update.disableOneshot then true else entry.oneshotDisabled }

def applyUpdate (interests : OrdMap Nat EpollInterest) (update : EntryUpdate) : OrdMap Nat EpollInterest :=
  match interests.get? update.fd with
  | none => interests
  | some entry => interests.insert update.fd (applyEntry update entry)

def applyUpdates (ep : Nat) (updates : List EntryUpdate) : Files :=
  if updates.isEmpty then s
  else s.setInterests ep (updates.foldl applyUpdate (s.pruneStale (s.interests ep)))

/-- `write_ready_events`: whether every event could be written. -/
def writeReadyEvents (eventsPtr : Nat) (writable : Nat → Bool) (events : List UserEpollEvent) : Bool :=
  (List.range events.length).all fun i => eventsPtr + i * 16 ≤ usizeMax && writable (eventsPtr + i * 16)

/-- `should_block`, with the events that it has written; the source returns their number. -/
def shouldBlock (pollMask : Nat → BitVec 32) (fuel ep maxevents eventsPtr : Nat)
    (writable : Nat → Bool) : Option (Files × Except SyscallError (List UserEpollEvent)) :=
  match s.gatherReadyEvents pollMask fuel ep maxevents with
  | none => none
  | some (events, updates) =>
    if events.isEmpty then some (s.applyUpdates ep updates, .ok [])
    else if writeReadyEvents eventsPtr writable events then some (s.applyUpdates ep updates, .ok events)
    else some (s, .error .efault)

/-! ### The scan -/

/-- The interest is not disabled, and fires. -/
def firing (ready : EpollInterest → Option (BitVec 32)) (e : Nat × EpollInterest) : Bool :=
  !e.2.oneshotDisabled && (ready e.2).any (fired e.2)

def eventOf (ready : EpollInterest → Option (BitVec 32)) (e : Nat × EpollInterest) : UserEpollEvent :=
  ⟨(ready e.2).getD 0 &&& eventWatchMask e.2.events, e.2.data⟩

/-- What is taken note of. -/
def updateOf (ready : EpollInterest → Option (BitVec 32)) (e : Nat × EpollInterest) : EntryUpdate :=
  ⟨e.1, (ready e.2).getD 0, (ready e.2).any (fired e.2) && isOneshot e.2.events⟩

variable {s s' : Files} {ready : EpollInterest → Option (BitVec 32)} {maxevents ep fuel eventsPtr fd : Nat}
  {pollMask : Nat → BitVec 32} {writable : Nat → Bool} {snaps : List (Nat × EpollInterest)}
  {events : List UserEpollEvent} {updates : List EntryUpdate} {r : List UserEpollEvent × List EntryUpdate}

theorem gatherFrom_returns (h : ∀ e ∈ snaps, ∃ mask, ready e.2 = some mask) :
    ∃ r, gatherFrom ready maxevents snaps events updates = some r := by
  induction snaps generalizing events updates with
  | nil => exact ⟨_, rfl⟩
  | cons e snaps ih =>
    have ih : ∀ {events updates}, ∃ r, gatherFrom ready maxevents snaps events updates = some r :=
      ih fun e he => h e (.tail _ he)
    obtain ⟨_, hmask⟩ := h e (.head _)
    unfold gatherFrom
    split
    · exact ih
    · rw [hmask]
      exact ih

/-- The first interests that fire are reported, as many as there is room for, and all are taken note
of. -/
theorem gatherFrom_eq (h : gatherFrom ready maxevents snaps events updates = some r) :
    r = (events ++ ((snaps.filter (firing ready)).take (maxevents - events.length)).map (eventOf ready),
      updates ++ (snaps.filter fun e => !e.2.oneshotDisabled).map (updateOf ready)) := by
  induction snaps generalizing events updates with
  | nil =>
    cases h
    simp
  | cons e _ ih =>
    unfold gatherFrom at h
    split at h
    · next hdis =>
      rw [ih h, filter_cons_of_neg (by simp [firing, hdis]), filter_cons_of_neg (by simp [hdis])]
    next hlive =>
    split at h
    · cases h
    next mask hmask =>
    rw [ih h]
    refine Prod.ext ?_ (by simp [updateOf, hmask, hlive])
    by_cases hfired : fired e.2 mask = true
    · rw [filter_cons_of_pos (by simp [firing, hlive, hmask, hfired])]
      by_cases hroom : events.length < maxevents
      · have hleft : maxevents - events.length = maxevents - (events.length + 1) + 1 := by omega
        simp [hfired, hroom, hleft, eventOf, hmask]
      · simp [hroom, Nat.sub_eq_zero_of_le (not_lt.mp hroom)]
    · rw [filter_cons_of_neg (by simp [firing, hmask, hfired])]
      simp [hfired]

/-! ### The updates -/

section Updates

variable {interests : OrdMap Nat EpollInterest} {u : EntryUpdate}

theorem get?_applyUpdate : (applyUpdate interests u).get? fd =
    if fd = u.fd then (interests.get? fd).map (applyEntry u) else interests.get? fd := by
  unfold applyUpdate
  cases hentry : interests.get? u.fd with
  | none =>
    dsimp only
    split
    · next heq =>
      rw [heq, hentry]
      rfl
    · rfl
  | some entry =>
    dsimp only
    rw [get?_insert]
    split
    · next heq =>
      rw [heq, hentry]
      rfl
    · rfl

/-- If there is one update of a descriptor, its interest is as this one leaves it. -/
theorem get?_foldl_applyUpdate (hfd : u.fd = fd) (hone : ∀ v ∈ updates, v.fd = fd → v = u)
    (hmem : u ∈ updates ∨ (interests.get? fd).map (applyEntry u) = interests.get? fd) :
    (updates.foldl applyUpdate interests).get? fd = (interests.get? fd).map (applyEntry u) := by
  induction updates generalizing interests with
  | nil => exact (hmem.resolve_left not_mem_nil).symm
  | cons v updates ih =>
    obtain ⟨hv, hone⟩ := forall_mem_cons.mp hone
    rw [foldl_cons]
    by_cases heq : v.fd = fd
    · obtain rfl := hv heq
      have hget : (applyUpdate interests v).get? fd = (interests.get? fd).map (applyEntry v) := by
        rw [get?_applyUpdate, if_pos heq.symm]
      -- a second application changes nothing
      have hagain : ((interests.get? fd).map (applyEntry v)).map (applyEntry v) =
          (interests.get? fd).map (applyEntry v) := by
        rw [Option.map_map]
        congr 1
        funext entry
        cases hdis : v.disableOneshot <;> simp [applyEntry, hdis]
      rw [ih hone (.inr (by rw [hget]; exact hagain)), hget, hagain]
    · have hget : (applyUpdate interests v).get? fd = interests.get? fd := by
        rw [get?_applyUpdate, if_neg (Ne.symm heq)]
      rw [ih hone ?_, hget]
      rw [hget]
      exact hmem.imp_left fun hm => (mem_cons.mp hm).resolve_left (by rintro rfl; exact heq hfd)

end Updates

/-! ### An iteration -/

/-- The interests of an epoll file that fire, in the order of their descriptors. -/
def allFiring (s : Files) (pollMask : Nat → BitVec 32) (fuel ep : Nat) : List (Nat × EpollInterest) :=
  (s.snapshotEntries ep).filter (firing (s.readyNow pollMask fuel))

theorem gatherReadyEvents_returns {n : Nat} (h : HeightLe s.Watches (n + 1) ep) :
    ∃ r, s.gatherReadyEvents pollMask n ep maxevents = some r := by
  unfold gatherReadyEvents
  split
  · exact ⟨_, rfl⟩
  refine gatherFrom_returns fun e he => fileReadyMask_returns fun hepoll => ?_
  obtain ⟨hmem, hfile⟩ := mem_filter.mp he
  have hsnap : e.2 ∈ s.snapshotInterests ep :=
    mem_snapshotInterests.mpr ⟨⟨e.1, get?_eq_some_iff.mpr hmem⟩, hfile⟩
  exact peekHasReadyInternal_returns (h _ (watches_of_snapshot hsnap hepoll))

theorem gatherReadyEvents_eq (hmax : 1 ≤ maxevents)
    (h : s.gatherReadyEvents pollMask fuel ep maxevents = some (events, updates)) :
    events = ((s.allFiring pollMask fuel ep).take maxevents).map (eventOf (s.readyNow pollMask fuel)) ∧
      updates = ((s.snapshotEntries ep).filter fun e => !e.2.oneshotDisabled).map
        (updateOf (s.readyNow pollMask fuel)) := by
  unfold gatherReadyEvents at h
  rw [if_neg (by omega)] at h
  cases gatherFrom_eq h
  exact ⟨rfl, rfl⟩

theorem mem_allFiring {i : EpollInterest} : (fd, i) ∈ s.allFiring pollMask fuel ep ↔
    (s.interests ep).get? fd = some i ∧ (s.file i.file).isSome = true ∧
      firing (s.readyNow pollMask fuel) (fd, i) = true := by
  rw [allFiring, snapshotEntries, mem_filter, mem_filter, get?_eq_some_iff, and_assoc]

section Iteration

variable {i i' : EpollInterest} (hmax : 1 ≤ maxevents)
  (hgather : s.gatherReadyEvents pollMask fuel ep maxevents = some (events, updates))
  (hi : (s.interests ep).get? fd = some i) (hlive : i.oneshotDisabled = false)

include hmax hgather hi hlive

/-- **An interest after the updates**: its file is open, and it is as its update leaves it; or its
file is gone, and it is removed, unless there are no updates. -/
theorem get?_applyUpdates :
    if (s.file i.file).isSome then ((s.applyUpdates ep updates).interests ep).get? fd =
      some (applyEntry (updateOf (s.readyNow pollMask fuel) (fd, i)) i)
    else ∀ i' ∈ ((s.applyUpdates ep updates).interests ep).get? fd, i' = i := by
  obtain ⟨-, hupdates⟩ := gatherReadyEvents_eq hmax hgather
  -- the only update of the descriptor is that of its interest
  have hone : ∀ v ∈ updates, v.fd = fd →
      v = updateOf (s.readyNow pollMask fuel) (fd, i) ∧ (s.file i.file).isSome = true := by
    rintro _ hv rfl
    obtain ⟨e, he, rfl⟩ := mem_map.mp (hupdates ▸ hv)
    obtain ⟨hmem, hfile⟩ := mem_filter.mp (mem_filter.mp he).1
    obtain rfl := some.inj (hi.symm.trans (get?_eq_some_iff.mpr hmem))
    exact ⟨rfl, hfile⟩
  have hget (hmem : _ ∈ updates ∨ _) :
      (updates.foldl applyUpdate (s.pruneStale (s.interests ep))).get? fd = _ :=
    get?_foldl_applyUpdate rfl (fun v hv hfd => (hone v hv hfd).1) hmem
  split
  · next hfile =>
    have hmem : updateOf (s.readyNow pollMask fuel) (fd, i) ∈ updates := by
      rw [hupdates]
      refine mem_map_of_mem (mem_filter.mpr ⟨mem_filter.mpr ⟨get?_eq_some_iff.mp hi, hfile⟩, ?_⟩)
      simp [hlive]
    unfold applyUpdates
    rw [if_neg fun hc => not_mem_nil (isEmpty_iff.mp hc ▸ hmem), interests_setInterests_self,
      hget (.inl hmem), get?_pruneStale.mpr ⟨hi, hfile⟩]
    rfl
  · next hfile =>
    have hpruned : (s.pruneStale (s.interests ep)).get? fd = none := by
      rw [eq_none_iff_forall_ne_some]
      intro j hj
      obtain ⟨hj, hopen⟩ := get?_pruneStale.mp hj
      obtain rfl := some.inj (hi.symm.trans hj)
      exact hfile hopen
    intro i' hi'
    unfold applyUpdates at hi'
    split at hi'
    · exact some.inj (hi'.symm.trans hi)
    · rw [interests_setInterests_self, hget (.inr (by rw [hpruned]; rfl)), hpruned] at hi'
      cases hi'

/-- Who is disabled by the updates has fired. -/
theorem firing_of_disabled (hi' : ((s.applyUpdates ep updates).interests ep).get? fd = some i')
    (hdis : i'.oneshotDisabled = true) :
    (fd, i) ∈ s.allFiring pollMask fuel ep ∧ isOneshot i.events = true := by
  have hafter := get?_applyUpdates hmax hgather hi hlive
  split at hafter
  · next hfile =>
    obtain rfl := some.inj (hi'.symm.trans hafter)
    have hboth : (updateOf (s.readyNow pollMask fuel) (fd, i)).disableOneshot = true := by
      by_contra hno
      simp [applyEntry, hno, hlive] at hdis
    obtain ⟨hfired, hone⟩ := Bool.and_eq_true_iff.mp hboth
    exact ⟨mem_allFiring.mpr ⟨hi, hfile, by simp [firing, hlive, hfired]⟩, hone⟩
  · rw [hafter i' hi', hlive] at hdis
    cases hdis

end Iteration

/-- One of the places of the events to be reported cannot be written. -/
def Unwritable (eventsPtr : Nat) (writable : Nat → Bool) (n : Nat) : Prop :=
  ∃ i < n, ¬ (eventsPtr + i * 16 ≤ usizeMax ∧ writable (eventsPtr + i * 16) = true)

/-- An iteration cannot write the events, and nothing changes, or makes all updates. -/
theorem shouldBlock_eq {res : Except SyscallError (List UserEpollEvent)}
    (h : s.shouldBlock pollMask fuel ep maxevents eventsPtr writable = some (s', res)) :
    ∃ events updates, s.gatherReadyEvents pollMask fuel ep maxevents = some (events, updates) ∧
      (Unwritable eventsPtr writable events.length ∧ s' = s ∧ res = .error .efault ∨
        ¬ Unwritable eventsPtr writable events.length ∧ s' = s.applyUpdates ep updates ∧
          res = .ok events) := by
  have hwrite events : writeReadyEvents eventsPtr writable events = true ↔
      ¬ Unwritable eventsPtr writable events.length := by
    simp [writeReadyEvents, Unwritable]
  unfold shouldBlock at h
  split at h
  · cases h
  next events updates hgather =>
  refine ⟨events, updates, hgather, ?_⟩
  split at h
  · next hempty =>
    obtain rfl := isEmpty_iff.mp hempty
    cases h
    exact .inr ⟨fun ⟨_, hlt, _⟩ => absurd hlt (Nat.not_lt_zero _), rfl, rfl⟩
  split at h
  · next hok =>
    cases h
    exact .inr ⟨(hwrite events).mp hok, rfl, rfl⟩
  · next hfail =>
    cases h
    exact .inl ⟨not_not.mp (mt (hwrite events).mpr hfail), rfl, rfl⟩

/-- **What is used up was reported**: an interest is disabled only if it was; and an edge-triggered
one that fired and was not reported fires again, as long as its file is ready as before. -/
def ReportsUsed (s s' : Files) (pollMask : Nat → BitVec 32) (fuel ep : Nat)
    (reported : List (Nat × EpollInterest)) : Prop :=
  (∀ fd i i', (s.interests ep).get? fd = some i → i.oneshotDisabled = false →
    (s'.interests ep).get? fd = some i' → i'.oneshotDisabled = true → (fd, i) ∈ reported) ∧
  ∀ fd i, (fd, i) ∈ s.allFiring pollMask fuel ep → isEdgeTrigger i.events = true → (fd, i) ∉ reported →
    ∃ i', (s'.interests ep).get? fd = some i' ∧ firing (s.readyNow pollMask fuel) (fd, i') = true

/-- The updates use up what was reported, if nothing else is one-shot or edge-triggered, and only
then. -/
theorem reportsUsed_applyUpdates (hmax : 1 ≤ maxevents)
    (hgather : s.gatherReadyEvents pollMask fuel ep maxevents = some (events, updates)) :
    ReportsUsed s (s.applyUpdates ep updates) pollMask fuel ep
      ((s.allFiring pollMask fuel ep).take maxevents) ↔
      ∀ e ∈ (s.allFiring pollMask fuel ep).drop maxevents,
        isOneshot e.2.events = false ∧ isEdgeTrigger e.2.events = false := by
  have hsplit := take_append_drop maxevents (s.allFiring pollMask fuel ep)
  constructor
  · rintro ⟨hone, hedge⟩ ⟨fd, i⟩ hdrop
    have hfiring := hsplit ▸ mem_append_right _ hdrop
    obtain ⟨hi, hfile, hfires⟩ := mem_allFiring.mp hfiring
    obtain ⟨hlive, hfired⟩ := Bool.and_eq_true_iff.mp hfires
    have hlive : i.oneshotDisabled = false := by simpa using hlive
    have hnot : (fd, i) ∉ (s.allFiring pollMask fuel ep).take maxevents := fun htake =>
      disjoint_of_nodup_append (hsplit.symm ▸ (((s.interests ep).entries_nodup.filter _).filter _))
        htake hdrop
    have hafter := get?_applyUpdates hmax hgather hi hlive
    rw [if_pos hfile] at hafter
    refine ⟨eq_false_of_ne_true fun hshot => ?_, eq_false_of_ne_true fun het => ?_⟩
    · -- it is disabled
      exact hnot (hone fd i _ hi hlive hafter (by simp [applyEntry, updateOf, hfired, hshot]))
    · -- its readiness is no longer new
      obtain ⟨i', hi', hagain⟩ := hedge fd i hfiring het hnot
      obtain rfl := some.inj (hi'.symm.trans hafter)
      cases hready : s.readyNow pollMask fuel i with
      | none =>
        rw [hready] at hfired
        cases hfired
      | some mask =>
        have hfires : (s.readyNow pollMask fuel i).any
            (fired (applyEntry (updateOf (s.readyNow pollMask fuel) (fd, i)) i)) = true :=
          (Bool.and_eq_true_iff.mp hagain).2
        simp [fired, applyEntry, updateOf, hready, het] at hfires
  · intro hrest
    have htake {fd i} (hfiring : (fd, i) ∈ s.allFiring pollMask fuel ep)
        (hkind : isOneshot i.events = true ∨ isEdgeTrigger i.events = true) :
        (fd, i) ∈ (s.allFiring pollMask fuel ep).take maxevents := by
      rw [← hsplit] at hfiring
      refine (mem_append.mp hfiring).resolve_right fun hdrop => ?_
      obtain ⟨hshot, het⟩ := hrest _ hdrop
      simp [hshot, het] at hkind
    refine ⟨fun fd i i' hi hlive hi' hdis => ?_, fun fd i hfiring het hnot => ?_⟩
    · obtain ⟨hfiring, hshot⟩ := firing_of_disabled hmax hgather hi hlive hi' hdis
      exact htake hfiring (.inl hshot)
    · exact absurd (htake hfiring (.inr het)) hnot

/-- **Events are used up by being reported**, in an iteration, if and only if its events cannot be
written, or no interest that fires after the first `maxevents` ones is one-shot or
edge-triggered. -/
theorem consumed_reported (s : Files) (pollMask : Nat → BitVec 32) (ep maxevents eventsPtr : Nat)
    (writable : Nat → Bool) (hmax : 1 ≤ maxevents) :
    (∀ n, HeightLe s.Watches (n + 1) ep → ∃ r, s.shouldBlock pollMask n ep maxevents eventsPtr
      writable = some r) ∧
    ∀ fuel s' res, s.shouldBlock pollMask fuel ep maxevents eventsPtr writable = some (s', res) →
      ∃ reported, (res = .error .efault ∧ reported = [] ∨
          res = .ok (reported.map (eventOf (s.readyNow pollMask fuel))) ∧
            reported = (s.allFiring pollMask fuel ep).take maxevents) ∧
        (ReportsUsed s s' pollMask fuel ep reported ↔
          Unwritable eventsPtr writable (min maxevents (s.allFiring pollMask fuel ep).length) ∨
          ∀ e ∈ (s.allFiring pollMask fuel ep).drop maxevents,
            isOneshot e.2.events = false ∧ isEdgeTrigger e.2.events = false) := by
  constructor
  · intro n hn
    obtain ⟨r, hr⟩ : ∃ r, s.gatherReadyEvents pollMask n ep maxevents = some r := gatherReadyEvents_returns hn
    simp only [shouldBlock, hr]
    repeat' split
    all_goals exact ⟨_, rfl⟩
  intro fuel s' res hrun
  obtain ⟨events, updates, hgather, hcases⟩ := shouldBlock_eq hrun
  obtain ⟨hevents, -⟩ := gatherReadyEvents_eq hmax hgather
  rw [hevents, length_map, length_take] at hcases
  rcases hcases with ⟨hfail, rfl, rfl⟩ | ⟨hok, rfl, rfl⟩
  · -- nothing has changed, so nothing is used up
    refine ⟨[], .inl ⟨rfl, rfl⟩, iff_of_true ⟨fun fd i i' hi hlive hi' hdis => ?_,
      fun fd i hfiring _ _ => ?_⟩ (.inl hfail)⟩
    · cases hi.symm.trans hi'
      cases hlive.symm.trans hdis
    · obtain ⟨hi, -, hfires⟩ := mem_allFiring.mp hfiring
      exact ⟨i, hi, hfires⟩
  · exact ⟨_, .inr ⟨rfl, rfl⟩, (reportsUsed_applyUpdates hmax hgather).trans (or_iff_right hok).symm⟩

/-- An epoll file that watches two files, for the same events. -/
def watchTwo (events : BitVec 32) : Files where
  next := 3
  file := update (update (update init.file 0
    (some (.epoll ((empty.insert 3 ⟨1, events, 7, 0, false⟩).insert 4 ⟨2, events, 8, 0, false⟩))))
    1 (some (.other true))) 2 (some (.other true))
  pollWaiters := init.pollWaiters

/-- With room for both, both are disabled, and both were reported. -/
theorem consumed_reported_both :
    ∃ s', (watchTwo (epollIn ||| epollOneshot)).shouldBlock (fun _ => epollIn) 0 0 2 0 (fun _ => true) =
        some (s', .ok [⟨epollIn, 7⟩, ⟨epollIn, 8⟩]) ∧
      ((s'.interests 0).get? 4).map (·.oneshotDisabled) = some true ∧
      ∃ reported, ReportsUsed (watchTwo (epollIn ||| epollOneshot)) s' (fun _ => epollIn) 0 0 reported := by
  obtain ⟨reported, -, hiff⟩ :=
    (consumed_reported (watchTwo (epollIn ||| epollOneshot)) (fun _ => epollIn) 0 2 0
    (fun _ => true) (by decide)).2 0 _ _ rfl
  exact ⟨_, rfl, rfl, reported, hiff.mpr (.inr (by decide))⟩

/-- **Events that are lost.** With room for one event, the second of two one-shot interests is
disabled and was not reported; and the second of two new edges is not reported by the next call
either. -/
theorem unreported_consumed :
    (∃ s', (watchTwo (epollIn ||| epollOneshot)).shouldBlock (fun _ => epollIn) 0 0 1 0 (fun _ => true) =
        some (s', .ok [⟨epollIn, 7⟩]) ∧ ((s'.interests 0).get? 4).map (·.oneshotDisabled) = some true) ∧
    ∃ s', (watchTwo (epollIn ||| epollEt)).shouldBlock (fun _ => epollIn) 0 0 1 0 (fun _ => true) =
        some (s', .ok [⟨epollIn, 7⟩]) ∧
      ∃ s'', s'.shouldBlock (fun _ => epollIn) 0 0 1 0 (fun _ => true) = some (s'', .ok []) :=
  ⟨⟨_, rfl, rfl⟩, _, rfl, _, rfl⟩

end Files

end HitOS.Epoll
