import HitOS.Lib.Reachable
import HitOS.Lib.Usize

/-!
# Alarms and interval timers

`task/block_sleep.rs`: the entries of `ALARM_TIMERS`, the calls that set them (`setItimerTimer`) and
the loop that runs on every hart and makes them expire (`process_alarm_timers`). The loop takes an
expired entry out, unlocks the table, sends the signal, and only then puts the entry back for its
next period. A step of a run is one critical section, or one of the actions in between.

While an entry is out of the table the calls do not see it. If no timer is set while a hart has its
entry, every timer has one entry at most, and a disarmed timer sends no signal (`TimersOnce`,
`itimers_of_careful_run`). A timer that is set at that moment gets its old entry back:
`rearmed_after_disarm` has a run in which a disarmed timer goes on sending signals, and one in which
a timer has two entries.
-/

namespace HitOS.Alarm

open List Option

/-- An entry of the table. -/
structure AlarmTimer where
  pid : Nat
  which : Nat
  signum : Nat
  deadlineMs : Nat
  intervalMs : Nat
  deriving DecidableEq

/-- Which timer of which process an entry is for. -/
def AlarmTimer.key (t : AlarmTimer) : Nat × Nat := (t.pid, t.which)

def minAlarmDeadlineMs (timers : List AlarmTimer) : Nat :=
  ((timers.map AlarmTimer.deadlineMs).min?).getD usizeMax

/-- `Vec::swap_remove`: the last entry takes the place of the removed one. -/
def swapRemove {α : Type} (l : List α) (i : Nat) : List α :=
  match l.getLast? with
  | none => []
  | some x => (l.set i x).dropLast

/-- The first entry that passes the test, and the table without it. -/
def takeFirst {α : Type} (p : α → Bool) (l : List α) : Option (α × List α) :=
  match l.findIdx? p with
  | none => none
  | some i => l[i]?.map fun x => (x, swapRemove l i)

/-- Where a hart is in `process_alarm_timers`. -/
inductive Phase
  | idle
  | scanning (currentMs : Nat)
  /-- It has an expired entry, and has not sent the signal. -/
  | took (currentMs : Nat) (timer : AlarmTimer)
  | delivered (currentMs : Nat) (timer : AlarmTimer)
  /-- The entry is in the table again, but not counted. -/
  | rearmed (currentMs : Nat)
  deriving DecidableEq

/-- The entry that is out of the table meanwhile. -/
def Phase.carried : Phase → Option AlarmTimer
  | .took _ timer | .delivered _ timer => some timer
  | _ => none

/-- What has happened to the timers. -/
inductive Event
  | armed (key : Nat × Nat)
  | disarmed (key : Nat × Nat)
  | signalled (key : Nat × Nat) (signum : Nat)
  deriving DecidableEq

/-- The table, its two counters, the harts, and the history with the latest event first. -/
structure AlarmState where
  timers : List AlarmTimer
  activeCount : Nat
  nextDeadlineMs : Nat
  harts : List Phase
  log : List Event

namespace AlarmState

def boot (n : Nat) : AlarmState := ⟨[], 0, usizeMax, List.replicate n .idle, []⟩

variable (s : AlarmState)

/-- The entry that a hart has. -/
def carried (h : Nat) : Option AlarmTimer := s.harts[h]?.bind Phase.carried

/-- The first half of `set_itimer_timer`: the table and the count without the entry of the timer,
and the time it had left and its interval. -/
def removeTimer (pid which now : Nat) : List AlarmTimer × Nat × Nat × Nat :=
  match takeFirst (fun t => t.pid == pid && t.which == which) s.timers with
  | some (old, timers) => (timers, s.activeCount - 1, old.deadlineMs - now, old.intervalMs)
  | none => (s.timers, s.activeCount, 0, 0)

/-- `set_itimer_timer` at time `now`; it returns the time that was left and the old interval. -/
def setItimerTimer (pid which signum : Nat) (delayMs : Option Nat) (intervalMs now : Nat) :
    AlarmState × Nat × Nat :=
  let (timers, activeCount, remainingMs, oldIntervalMs) := s.removeTimer pid which now
  let delay := delayMs.getD 0
  if 0 < delay then
    -- no look at what a hart has taken out of the table
    let timers := timers ++ [⟨pid, which, signum, satAdd now delay, intervalMs⟩]
    ({ s with
        timers := timers
        activeCount := activeCount + 1
        nextDeadlineMs := minAlarmDeadlineMs timers
        log := .armed (pid, which) :: s.log }, remainingMs, oldIntervalMs)
  else
    ({ s with
        timers := timers
        activeCount := activeCount
        nextDeadlineMs := minAlarmDeadlineMs timers
        log := .disarmed (pid, which) :: s.log }, remainingMs, oldIntervalMs)

def goto (h : Nat) (p : Phase) : AlarmState := { s with harts := s.harts.set h p }

/-- The first critical section of the loop of `process_alarm_timers`. -/
def takeExpired (h currentMs : Nat) : AlarmState :=
  match takeFirst (fun t => t.deadlineMs ≤ currentMs) s.timers with
  | none => s.goto h .idle
  | some (timer, timers) =>
    { s.goto h (.took currentMs timer) with
      timers := timers
      activeCount := s.activeCount - 1
      nextDeadlineMs := minAlarmDeadlineMs timers }

/-- The deadline after the last one that has passed. -/
def nextDeadline (timer : AlarmTimer) (currentMs : Nat) : Nat :=
  let interval := max timer.intervalMs 1
  let expirations := (currentMs - timer.deadlineMs) / interval + 1
  satAdd timer.deadlineMs (min (expirations * interval) usizeMax)

/-- The second one: a periodic timer of a process that still exists goes back into the table. -/
def rearm (h currentMs : Nat) (timer : AlarmTimer) (alive : Bool) : AlarmState :=
  if 0 < timer.intervalMs ∧ alive then
    let timers := s.timers ++ [{ timer with deadlineMs := nextDeadline timer currentMs }]
    -- the active count follows in a step of its own
    { s.goto h (.rearmed currentMs) with timers := timers, nextDeadlineMs := minAlarmDeadlineMs timers }
  else s.goto h (.scanning currentMs)

end AlarmState

/-- The steps of a run: `found` says whether the process has a task that takes the signal, `alive`
whether the process exists. -/
inductive Op
  | set (pid which signum : Nat) (delayMs : Option Nat) (intervalMs now : Nat)
  | check (h currentMs : Nat)
  | take (h : Nat)
  | deliver (h : Nat) (found : Bool)
  | rearm (h : Nat) (alive : Bool)
  | count (h : Nat)

def AlarmState.exec (s : AlarmState) : Op → Option AlarmState
  | .set pid which signum delayMs intervalMs now =>
    some (s.setItimerTimer pid which signum delayMs intervalMs now).1
  | .check h currentMs =>
    match s.harts[h]? with
    | some .idle => some (s.goto h (.scanning currentMs))
    | _ => none
  | .take h =>
    match s.harts[h]? with
    | some (.scanning currentMs) => some (s.takeExpired h currentMs)
    | _ => none
  | .deliver h found =>
    match s.harts[h]? with
    | some (.took currentMs timer) =>
      some { s.goto h (.delivered currentMs timer) with
        log := if found then .signalled timer.key timer.signum :: s.log else s.log }
    | _ => none
  | .rearm h alive =>
    match s.harts[h]? with
    | some (.delivered currentMs timer) => some (s.rearm h currentMs timer alive)
    | _ => none
  | .count h =>
    match s.harts[h]? with
    | some (.rearmed currentMs) =>
      some { s.goto h (.scanning currentMs) with activeCount := s.activeCount + 1 }
    | _ => none

def Step (s s' : AlarmState) : Prop := ∃ op, s.exec op = some s'

/-- No timer is set while its entry is out of the table. -/
def Op.Careful (s : AlarmState) : Op → Prop
  | .set pid which _ _ _ _ => ∀ p ∈ s.harts, ∀ t ∈ p.carried, t.key ≠ (pid, which)
  | _ => True

def CarefulStep (s s' : AlarmState) : Prop := ∃ op, s.exec op = some s' ∧ op.Careful s

instance (s : AlarmState) : (op : Op) → Decidable (op.Careful s)
  | .set pid which _ _ _ _ =>
    inferInstanceAs (Decidable (∀ p ∈ s.harts, ∀ t ∈ p.carried, t.key ≠ (pid, which)))
  | .check _ _ | .take _ | .deliver _ _ | .rearm _ _ | .count _ => inferInstanceAs (Decidable True)

/-- No hart is in the loop. -/
def AlarmState.Quiescent (s : AlarmState) : Prop := ∀ p ∈ s.harts, p = .idle

instance (s : AlarmState) : Decidable s.Quiescent := inferInstanceAs (Decidable (∀ p ∈ s.harts, p = .idle))

/-- The last time the timer was set, it was disarmed. -/
def disarmedLast (key : Nat × Nat) : List Event → Bool
  | [] => false
  | .armed key' :: log => if key' = key then false else disarmedLast key log
  | .disarmed key' :: log => if key' = key then true else disarmedLast key log
  | .signalled _ _ :: log => disarmedLast key log

/-! ### Taking an entry out -/

section Take

variable {α : Type} {p : α → Bool} {l l' : List α} {x : α}

theorem perm_swapRemove {i : Nat} (hx : l[i]? = some x) : l.Perm (x :: swapRemove l i) := by
  obtain ⟨hi, rfl⟩ := List.getElem?_eq_some_iff.mp hx
  rcases eq_nil_or_concat' l with rfl | ⟨l, y, rfl⟩
  · exact absurd hi (Nat.not_lt_zero _)
  unfold swapRemove
  rw [getLast?_concat]
  dsimp only
  by_cases hlast : i < l.length
  · -- the last entry moves to the place of the removed one
    have hset : (l ++ [y]).set i y = l.set i y ++ [y] := set_append_left _ _ hlast
    rw [hset, dropLast_concat, getElem_append_left hlast, set_eq_take_append_cons_drop, if_pos hlast]
    have hsplit := take_append_drop i l
    rw [drop_eq_getElem_cons hlast] at hsplit
    nth_rewrite 1 [← hsplit]
    rw [append_assoc]
    refine perm_middle.trans (Perm.cons _ ?_)
    exact (perm_append_singleton ..).append_left _
  · -- the last entry is the removed one
    obtain rfl : i = l.length := by
      rw [length_append, length_singleton] at hi
      omega
    simp

theorem takeFirst_spec (h : takeFirst p l = some (x, l')) : l.Perm (x :: l') ∧ p x = true := by
  unfold takeFirst at h
  split at h
  · cases h
  next i hi =>
  obtain ⟨y, hy, heq⟩ := map_eq_some_iff.mp h
  cases heq
  obtain ⟨hlt, hp, -⟩ := findIdx?_eq_some_iff_getElem.mp hi
  refine ⟨perm_swapRemove hy, ?_⟩
  rw [getElem?_eq_getElem hlt] at hy
  cases hy
  exact hp

theorem takeFirst_eq_none (h : takeFirst p l = none) : ∀ x ∈ l, p x = false := by
  unfold takeFirst at h
  split at h
  · next hi => exact findIdx?_eq_none_iff.mp hi
  · next i hi =>
    obtain ⟨hlt, -, -⟩ := findIdx?_eq_some_iff_getElem.mp hi
    rw [getElem?_eq_getElem hlt] at h
    cases h

end Take

/-! ### One entry for every timer -/

variable {s s' : AlarmState} {timer : AlarmTimer} {p : Phase}

/-- The timer has an entry, in the table or on a hart. -/
def AlarmState.Pending (s : AlarmState) (key : Nat × Nat) : Prop :=
  key ∈ s.timers.map AlarmTimer.key ∨ ∃ h t, s.carried h = some t ∧ t.key = key

/-- **The invariant**: a timer has one entry at most, and none if it was disarmed last. -/
structure TimersOnce (s : AlarmState) : Prop where
  nodup : (s.timers.map AlarmTimer.key).Nodup
  apart : ∀ h t, s.carried h = some t → t.key ∉ s.timers.map AlarmTimer.key
  once : ∀ h h' t t', s.carried h = some t → s.carried h' = some t' → t.key = t'.key → h = h'
  quiet : ∀ key, disarmedLast key s.log = true → ¬ s.Pending key
  silent : ∀ later key signum earlier, s.log = later ++ .signalled key signum :: earlier →
    disarmedLast key earlier = false

/-- What a hart carries after a step of some hart. -/
theorem carried_goto {h h' : Nat} {t : AlarmTimer} (ht : (s.goto h p).carried h' = some t) :
    h' = h ∧ p.carried = some t ∨ h' ≠ h ∧ s.carried h' = some t := by
  obtain ⟨q, hq, hcarried⟩ := bind_eq_some_iff.mp ht
  obtain ⟨hlt, rfl⟩ := List.getElem?_eq_some_iff.mp hq
  dsimp only [AlarmState.goto] at hq hlt hcarried
  rw [getElem_set] at hcarried
  split at hcarried
  · next heq => exact .inl ⟨heq.symm, hcarried⟩
  next hne =>
  rw [length_set] at hlt
  refine .inr ⟨fun heq => hne heq.symm, ?_⟩
  rwa [AlarmState.carried, getElem?_eq_getElem hlt]

section

variable (hI : TimersOnce s)

include hI

/-- A hart that carries the same entry as before, or none. -/
theorem TimersOnce.goto {h : Nat}
    (hp : ∀ t, p.carried = some t → s.carried h = some t) : TimersOnce (s.goto h p) := by
  have hold h' t (ht : (s.goto h p).carried h' = some t) : s.carried h' = some t := by
    rcases carried_goto ht with ⟨rfl, hc⟩ | ⟨-, hc⟩
    · exact hp t hc
    · exact hc
  refine ⟨hI.nodup, fun h' t ht => hI.apart h' t (hold h' t ht), fun h₁ h₂ t t' ht ht' =>
    hI.once h₁ h₂ t t' (hold _ _ ht) (hold _ _ ht'), fun key hkey hpend => hI.quiet key hkey ?_, hI.silent⟩
  exact hpend.imp_right fun ⟨h', t, ht, heq⟩ => ⟨h', t, hold _ _ ht, heq⟩

/-- **Taking** an entry moves it from the table to the hart. -/
theorem TimersOnce.takeExpired (h currentMs : Nat) : TimersOnce (s.takeExpired h currentMs) := by
  unfold AlarmState.takeExpired
  split
  · exact hI.goto nofun
  next timer timers htake =>
  -- the keys of the table are those of the rest and the one that was taken
  have hperm := (takeFirst_spec htake).1.map AlarmTimer.key
  rw [map_cons] at hperm
  obtain ⟨hnot, hnodup⟩ := nodup_cons.mp (hperm.nodup_iff.mp hI.nodup)
  have hmem : ∀ key, key ∈ s.timers.map AlarmTimer.key ↔
      key = timer.key ∨ key ∈ timers.map AlarmTimer.key := fun _ => by
    rw [hperm.mem_iff, mem_cons]
  have htimer : timer.key ∈ s.timers.map AlarmTimer.key := (hmem _).mpr (.inl rfl)
  refine ⟨hnodup, fun h' t ht => ?_, fun h₁ h₂ t t' ht ht' heq => ?_, fun key hkey hpend => ?_, hI.silent⟩
  · rcases carried_goto ht with ⟨-, ht⟩ | ⟨-, ht⟩
    · cases ht
      exact hnot
    · exact fun hin => hI.apart h' t ht ((hmem _).mpr (.inr hin))
  · rcases carried_goto ht with ⟨heq₁, hc⟩ | ⟨-, hc⟩ <;> rcases carried_goto ht' with ⟨heq₂, hc'⟩ | ⟨-, hc'⟩
    · exact heq₁.trans heq₂.symm
    · -- the entry that was taken was in the table, the other one was not
      cases hc
      exact absurd (heq ▸ htimer) (hI.apart h₂ t' hc')
    · cases hc'
      exact absurd (heq ▸ htimer) (hI.apart h₁ t hc)
    · exact hI.once h₁ h₂ t t' hc hc' heq
  · -- what is pending now was pending before
    refine hI.quiet key hkey ?_
    rcases hpend with hin | ⟨h', t, ht, rfl⟩
    · exact .inl ((hmem _).mpr (.inr hin))
    · rcases carried_goto ht with ⟨-, ht⟩ | ⟨-, ht⟩
      · cases ht
        exact .inl htimer
      · exact .inr ⟨h', t, ht, rfl⟩

/-- **Putting it back** moves it from the hart to the table. -/
theorem TimersOnce.rearm {h currentMs : Nat} (hh : s.harts[h]? = some (.delivered currentMs timer))
    (alive : Bool) :
    TimersOnce (s.rearm h currentMs timer alive) := by
  unfold AlarmState.rearm
  split
  swap
  · -- a timer without an interval is forgotten
    exact hI.goto nofun
  have hcarried : s.carried h = some timer := by rw [AlarmState.carried, hh]; rfl
  have hkeys : (s.timers ++ [{ timer with deadlineMs := AlarmState.nextDeadline timer currentMs }]).map
      AlarmTimer.key = s.timers.map AlarmTimer.key ++ [timer.key] := map_append
  have hmem : ∀ key, key ∈ s.timers.map AlarmTimer.key ++ [timer.key] ↔
      key ∈ s.timers.map AlarmTimer.key ∨ key = timer.key := fun _ => by
    rw [mem_append, mem_singleton]
  -- the other harts carry other entries
  have hother h' t (ht : (s.goto h (.rearmed currentMs)).carried h' = some t) : h' ≠ h ∧
    s.carried h' = some t := by
    rcases carried_goto ht with ⟨-, ht⟩ | hne
    · cases ht
    · exact hne
  refine ⟨?_, fun h' t ht => ?_, fun h₁ h₂ t t' ht ht' => ?_, fun key hkey hpend => hI.quiet key
    hkey ?_, hI.silent⟩
  · rw [hkeys]
    exact nodup_append.mpr ⟨hI.nodup, nodup_singleton _, fun a ha b hb heq =>
      hI.apart h timer hcarried (mem_singleton.mp hb ▸ heq ▸ ha)⟩
  · obtain ⟨hne, ht⟩ := hother h' t ht
    rw [hkeys, hmem]
    rintro (hin | heq)
    · exact hI.apart h' t ht hin
    · exact hne (hI.once h' h t timer ht hcarried heq)
  · exact hI.once h₁ h₂ t t' (hother _ _ ht).2 (hother _ _ ht').2
  · rcases hpend with hin | ⟨h', t, ht, heq⟩
    · rw [hkeys, hmem] at hin
      exact hin.imp id fun heq => ⟨h, timer, hcarried, heq.symm⟩
    · exact .inr ⟨h', t, (hother _ _ ht).2, heq⟩

/-- **Sending the signal** of an entry that a hart carries. -/
theorem TimersOnce.deliver {h currentMs : Nat} (hh : s.harts[h]? = some (.took currentMs timer))
    (found : Bool) :
    TimersOnce { s.goto h (.delivered currentMs timer) with
      log := if found then .signalled timer.key timer.signum :: s.log else s.log } := by
  have hcarried : s.carried h = some timer := by rw [AlarmState.carried, hh]; rfl
  have hgoto : TimersOnce (s.goto h (.delivered currentMs timer)) :=
    hI.goto fun t ht => by rw [hcarried]; exact ht
  cases found with
  | false => exact hgoto
  | true =>
  refine ⟨hgoto.nodup, hgoto.apart, hgoto.once, hgoto.quiet, ?_⟩
  intro _ key signum earlier heq
  rcases cons_eq_append_iff.mp heq with ⟨-, heq⟩ | ⟨later', -, heq⟩
  · -- the new signal: its timer is pending
    cases heq
    exact Bool.eq_false_iff.mpr fun hoff => hI.quiet _ hoff (.inr ⟨h, timer, hcarried, rfl⟩)
  · -- an older one
    exact hI.silent later' key signum earlier heq

/-- The table without the entry of a timer. -/
theorem TimersOnce.removed (pid which now : Nat) :
    ((s.removeTimer pid which now).1.map AlarmTimer.key).Nodup ∧
      ∀ key, key ∈ (s.removeTimer pid which now).1.map AlarmTimer.key ↔
        key ∈ s.timers.map AlarmTimer.key ∧ key ≠ (pid, which) := by
  unfold AlarmState.removeTimer
  split
  · next old _ htake =>
    -- keys occur once, so taking one entry out takes the key out
    obtain ⟨hperm, hp⟩ := takeFirst_spec htake
    have hold : old.key = (pid, which) := by simpa [AlarmTimer.key] using hp
    have hkeys := hperm.map AlarmTimer.key
    rw [map_cons, hold] at hkeys
    obtain ⟨hnot, hnodup⟩ := nodup_cons.mp (hkeys.nodup_iff.mp hI.nodup)
    refine ⟨hnodup, fun _ => ?_⟩
    rw [hkeys.mem_iff, mem_cons]
    constructor
    · exact fun hin => ⟨.inr hin, fun heq => hnot (heq ▸ hin)⟩
    · exact fun ⟨hin, hne⟩ => hin.resolve_left hne
  · next hnone =>
    refine ⟨hI.nodup, fun key => ⟨fun hin => ⟨hin, fun heq => ?_⟩, And.left⟩⟩
    obtain ⟨t, ht, rfl⟩ := mem_map.mp hin
    have hno := takeFirst_eq_none hnone t ht
    simp [(Prod.mk.inj heq).1, (Prod.mk.inj heq).2] at hno

/-- **Setting a timer** that no hart carries. -/
theorem TimersOnce.set {pid which : Nat} (signum : Nat) (delayMs : Option Nat)
    (intervalMs now : Nat) (hfree : ∀ h t, s.carried h = some t → t.key ≠ (pid, which)) :
    TimersOnce (s.setItimerTimer pid which signum delayMs intervalMs now).1 := by
  obtain ⟨hnodup, hmem⟩ := hI.removed pid which now
  -- the new event is no signal, so the signals of the history are the old ones
  have hsilent : ∀ {e : Event}, (∀ key n, e ≠ .signalled key n) → ∀ later key n earlier,
      e :: s.log = later ++ .signalled key n :: earlier → disarmedLast key earlier = false := by
    intro _ he _ key n earlier heq
    rcases cons_eq_append_iff.mp heq with ⟨-, heq⟩ | ⟨later', -, heq⟩
    · exact absurd (cons.inj heq).1.symm (he key n)
    · exact hI.silent later' key n earlier heq
  unfold AlarmState.setItimerTimer
  dsimp only
  generalize (s.removeTimer pid which now).1 = timers at *
  split
  · have hkeys : ∀ deadlineMs, (timers ++ [(⟨pid, which, signum, deadlineMs, intervalMs⟩ : AlarmTimer)]).map
        AlarmTimer.key = timers.map AlarmTimer.key ++ [(pid, which)] := fun _ => map_append
    refine ⟨?_, fun h t ht => ?_, hI.once, fun key hkey hpend => ?_, hsilent nofun⟩
    · rw [hkeys]
      exact nodup_append.mpr ⟨hnodup, nodup_singleton _, fun a ha b hb heq =>
        ((hmem a).mp ha).2 (heq.trans (mem_singleton.mp hb))⟩
    · rw [hkeys, mem_append, mem_singleton, hmem]
      rintro (⟨hin, -⟩ | heq)
      · exact hI.apart h t ht hin
      · exact hfree h t ht heq
    · -- the timer that was armed is not the disarmed one
      dsimp only [disarmedLast] at hkey
      split at hkey
      · cases hkey
      next hne =>
      refine hI.quiet key hkey (hpend.imp_left fun hin => ?_)
      rw [hkeys, mem_append, mem_singleton, hmem] at hin
      exact hin.elim And.left fun heq => absurd heq.symm hne
  · -- the disarmed timer has no entry in the table, and by assumption none on a hart
    refine ⟨hnodup, fun h t ht hin => hI.apart h t ht ((hmem _).mp hin).1, hI.once,
      fun key hkey hpend => ?_, hsilent nofun⟩
    rcases hpend with hin | ⟨h, t, ht, rfl⟩
    · obtain ⟨hin, hne⟩ := (hmem key).mp hin
      dsimp only [disarmedLast] at hkey
      rw [if_neg hne.symm] at hkey
      exact hI.quiet key hkey (.inl hin)
    · dsimp only [disarmedLast] at hkey
      rw [if_neg (hfree h t ht).symm] at hkey
      exact hI.quiet _ hkey (.inr ⟨h, t, ht, rfl⟩)

end

theorem TimersOnce.boot (n : Nat) : TimersOnce (.boot n) := by
  have hno : ∀ h t, (AlarmState.boot n).carried h ≠ some t := by
    intro h t ht
    obtain ⟨p, hp, ht⟩ := bind_eq_some_iff.mp ht
    rw [eq_of_mem_replicate (mem_of_getElem? hp)] at ht
    cases ht
  refine ⟨nodup_nil, fun h t ht => absurd ht (hno h t), fun h _ t _ ht => absurd ht (hno h t),
    nofun, fun later _ _ _ heq => ?_⟩
  exact absurd heq.symm (append_ne_nil_of_right_ne_nil _ (cons_ne_nil _ _))

theorem TimersOnce.step (hI : TimersOnce s) (hstep : CarefulStep s s') : TimersOnce s' := by
  obtain ⟨op, hexec, hcare⟩ := hstep
  cases op
  case set _ _ signum delayMs intervalMs now =>
    cases hexec
    -- the one step that needs the care
    refine hI.set signum delayMs intervalMs now fun h t ht => ?_
    obtain ⟨p, hp, ht⟩ := bind_eq_some_iff.mp ht
    exact hcare p (mem_of_getElem? hp) t ht
  all_goals
    simp only [AlarmState.exec] at hexec
    split at hexec <;> cases hexec
  · exact hI.goto nofun
  · exact hI.takeExpired ..
  · next hh => exact hI.deliver hh _
  · next hh => exact hI.rearm hh _
  · next h _ currentMs _ =>
    -- the invariant does not speak of the count
    have hgoto : TimersOnce (s.goto h (.scanning currentMs)) := hI.goto nofun
    exact ⟨hgoto.nodup, hgoto.apart, hgoto.once, hgoto.quiet, hgoto.silent⟩

/-- No timer is set, whatever the number of harts. -/
def Boot (s : AlarmState) : Prop := ∃ n, s = .boot n

/-- **Interval timers.** In a run in which no timer is set while a hart has its entry, a timer has
one entry at most whenever no hart is in the loop, and no signal is sent for a timer that was
disarmed last. -/
theorem itimers_of_careful_run {s : AlarmState} (h : Reachable Boot CarefulStep s) :
    (s.Quiescent → (s.timers.map AlarmTimer.key).Nodup) ∧
      ∀ later key signum earlier, s.log = later ++ .signalled key signum :: earlier →
        disarmedLast key earlier = false := by
  have hI : TimersOnce s := Reachable.invariant (fun _ ⟨n, h0⟩ => h0 ▸ TimersOnce.boot n)
    (fun _ _ hI hs => hI.step hs) h
  exact ⟨fun _ => hI.nodup, hI.silent⟩

/-- A periodic timer of one of two harts that expires once and is disarmed then. -/
theorem itimers_of_careful_run_disarmed : ∃ s : AlarmState,
    Reachable Boot CarefulStep s ∧ s.Quiescent ∧
      s.log = [.disarmed (1, 0), .signalled (1, 0) 14, .armed (1, 0)] ∧
      (s.timers.map AlarmTimer.key).Nodup ∧
      ∀ later key signum earlier, s.log = later ++ .signalled key signum :: earlier →
        disarmedLast key earlier = false := by
  have h0 : Reachable Boot CarefulStep (.boot 2) := .start ⟨2, rfl⟩
  have h1 := h0.step ⟨.set 1 0 14 (some 5) 3 0, rfl, by decide⟩
  have h2 := h1.step ⟨.check 0 10, rfl, trivial⟩
  have h3 := h2.step ⟨.take 0, rfl, trivial⟩
  have h4 := h3.step ⟨.deliver 0 true, rfl, trivial⟩
  have h5 := h4.step ⟨.rearm 0 true, rfl, trivial⟩
  have h6 := h5.step ⟨.count 0, rfl, trivial⟩
  have h7 := h6.step ⟨.take 0, rfl, trivial⟩
  have h8 := h7.step ⟨.set 1 0 14 none 0 10, rfl, by decide⟩
  exact ⟨_, h8, by decide, rfl, (itimers_of_careful_run h8).1 (by decide), (itimers_of_careful_run h8).2⟩

/-- **A timer that is set while its entry is out.** The entry goes back into the table after the
timer was armed again, and the timer has two; or after it was disarmed, and the next signal comes
all the same. -/
theorem rearmed_after_disarm : (∃ s, Reachable Boot Step s ∧ s.Quiescent ∧
        ¬ (s.timers.map AlarmTimer.key).Nodup) ∧
      ∃ s later key signum earlier, Reachable Boot Step s ∧
        s.log = later ++ .signalled key signum :: earlier ∧ disarmedLast key earlier = true := by
  have hrun (ops : List Op) {s : AlarmState} (h : ops.foldlM AlarmState.exec (.boot 2) = some s) :
      Reachable Boot Step s :=
    foldlM_invariant (.start ⟨2, rfl⟩) (fun _ op _ _ hs hop => hs.step ⟨op, hop⟩) h
  constructor
  · -- armed again between the taking and the putting back
    exact ⟨_, hrun [.set 1 0 14 (some 5) 3 0, .check 0 10, .take 0, .set 1 0 14 (some 100) 0 10,
      .deliver 0 true, .rearm 0 true, .count 0, .take 0] rfl, by decide, by decide⟩
  · -- disarmed there; the entry is put back and expires again
    exact ⟨_, [], (1, 0), 14, _, hrun [.set 1 0 14 (some 5) 3 0, .check 0 10, .take 0,
      .deliver 0 true, .set 1 0 14 none 0 10, .rearm 0 true, .count 0, .take 0, .check 0 12, .take 0,
      .deliver 0 true] rfl, rfl, rfl⟩

end HitOS.Alarm
