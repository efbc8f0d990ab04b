import HitOS.Syscall.Error

/-!
# Record locks

`syscall/filesystem/lock_utils.rs`: ranges of bytes, the list of locks of a file, and what a request
does to it. A range that is open to the end of the file has no last byte; offsets are numbers of
type `i64`, so it covers the bytes up to `i64::MAX`.

The list is read through `Held locks owner type byte`: the owner has a lock of this type on this
byte. `normalizeRecordLocks` sorts and merges and keeps what is held (`held_normalize`), and
`applyRecordLockForOwner` cuts the range out of the owner's locks and puts the new lock there
(`held_apply`). `Exclusive` says that no two owners hold a byte, one of them for writing; a request
that conflicts with nothing keeps it (`Exclusive.apply`).
-/

namespace HitOS.RecordLocks

open List

/-! ### Ranges -/

def i64Max : Int := 2 ^ 63 - 1

def i128Max : Int := 2 ^ 127 - 1

/-- The last byte of a range, for an end that may be open. -/
def limitOf (last : Option Int) : Int := last.getD i64Max

/-- A range of bytes: `start` and `end` of a lock or a request. -/
structure LockRange where
  start : Int
  /-- `end`; `none` is the end of the file, wherever that is. -/
  last : Option Int
  nonneg : 0 ≤ start
  ordered : start ≤ limitOf last
  bounded : limitOf last ≤ i64Max
  deriving DecidableEq

namespace LockRange

/-- The last byte. -/
def limit (r : LockRange) : Int := limitOf r.last

def Covers (r : LockRange) (byte : Int) : Prop := r.start ≤ byte ∧ byte ≤ r.limit

instance (r : LockRange) (byte : Int) : Decidable (r.Covers byte) := inferInstanceAs (Decidable (_ ∧ _))

def rangeEndI128 (last : Option Int) : Int := last.getD i128Max

def overlaps (a b : LockRange) : Bool :=
  decide (a.start ≤ rangeEndI128 b.last) && decide (b.start ≤ rangeEndI128 a.last)

def maxRangeEnd : Option Int → Option Int → Option Int
  | none, _ | _, none => none
  | some x, some y => some (max x y)

def touchesOrOverlapsSorted (leftEnd : Option Int) (rightStart : Int) : Bool :=
  match leftEnd with
  | none => true
  | some e => decide (rightStart ≤ min (e + 1) i64Max)

variable (a b : LockRange)

theorem start_le_max : a.start ≤ i64Max := a.ordered.trans a.bounded

theorem le_rangeEndI128_iff {x : Int} (hx : x ≤ i64Max) : x ≤ rangeEndI128 a.last ↔ x ≤ a.limit := by
  unfold rangeEndI128 limit limitOf
  cases a.last with
  | none =>
    simp only [Option.getD_none]
    unfold i64Max i128Max at *
    omega
  | some => rfl

/-- **Overlapping** is having a byte in common. -/
theorem overlaps_iff : a.overlaps b = true ↔ ∃ byte, a.Covers byte ∧ b.Covers byte := by
  have ha := a.ordered
  have hb := b.ordered
  unfold overlaps
  rw [Bool.and_eq_true, decide_eq_true_iff, decide_eq_true_iff, b.le_rangeEndI128_iff a.start_le_max,
    a.le_rangeEndI128_iff b.start_le_max]
  constructor
  · rintro ⟨hab, hba⟩
    exact ⟨max a.start b.start, ⟨le_max_left .., max_le ha hba⟩, ⟨le_max_right .., max_le hab hb⟩⟩
  · rintro ⟨byte, ⟨ha₁, ha₂⟩, hb₁, hb₂⟩
    exact ⟨ha₁.trans hb₂, hb₁.trans ha₂⟩

theorem limitOf_maxRangeEnd : limitOf (maxRangeEnd a.last b.last) = max a.limit b.limit := by
  have ha := a.bounded
  have hb := b.bounded
  unfold limit limitOf at *
  cases hla : a.last with
  | none =>
    cases hlb : b.last with
    | none => simp [maxRangeEnd]
    | some =>
      rw [hlb] at hb
      exact (max_eq_left hb).symm
  | some =>
    rw [hla] at ha
    cases hlb : b.last with
    | none => exact (max_eq_right ha).symm
    | some => rfl

/-- The range grows to the end of the other. -/
def extend : LockRange where
  start := a.start
  last := maxRangeEnd a.last b.last
  nonneg := a.nonneg
  ordered := by
    rw [limitOf_maxRangeEnd]
    exact a.ordered.trans (le_max_left _ _)
  bounded := by
    rw [limitOf_maxRangeEnd]
    exact max_le a.bounded b.bounded

theorem touchesOrOverlapsSorted_iff {a b : LockRange} :
    touchesOrOverlapsSorted a.last b.start = true ↔ b.start ≤ a.limit + 1 := by
  have hb := b.start_le_max
  unfold touchesOrOverlapsSorted limit limitOf
  cases a.last with
  | none => exact iff_of_true rfl (Int.le_add_one hb)
  | some =>
    simp only [decide_eq_true_eq, Option.getD_some]
    omega

/-- Two ranges that touch, the first of them starting first, together. -/
theorem extend_covers {a b : LockRange} (hstart : a.start ≤ b.start)
    (htouch : touchesOrOverlapsSorted a.last b.start = true) (byte : Int) :
    (a.extend b).Covers byte ↔ a.Covers byte ∨ b.Covers byte := by
  have hgap := touchesOrOverlapsSorted_iff.mp htouch
  have hlimit : (a.extend b).limit = max a.limit b.limit := limitOf_maxRangeEnd a b
  unfold Covers
  rw [hlimit]
  constructor
  · rintro ⟨hs, hl⟩
    rcases le_or_gt byte a.limit with hle | hgt
    · exact .inl ⟨hs, hle⟩
    · exact .inr ⟨by omega, by omega⟩
  · rintro (⟨hs, hl⟩ | ⟨hs, hl⟩)
    · exact ⟨hs, hl.trans (le_max_left ..)⟩
    · exact ⟨hstart.trans hs, hl.trans (le_max_right ..)⟩

/-- What lies before the other range. -/
def leftOf : Option LockRange :=
  if h : a.start < b.start then
    some
      { start := a.start
        last := some (b.start - 1)
        nonneg := a.nonneg
        ordered := Int.le_sub_one_of_lt h
        bounded := (Int.sub_le_self _ Int.one_nonneg).trans b.start_le_max }
  else none

/-- What lies behind the other range. Nothing does if that ends at `i64::MAX`. -/
def rightOf : Option LockRange :=
  match hb : b.last with
  | none => none
  | some reqEnd =>
    if hmax : reqEnd < i64Max then
      if hright : a.last.all (fun lockEnd => decide (lockEnd ≥ reqEnd + 1)) = true then
        some
          { start := reqEnd + 1
            last := a.last
            nonneg := by
              have h₁ := b.nonneg
              have h₂ := b.ordered
              rw [hb] at h₂
              exact Int.add_nonneg (h₁.trans h₂) Int.one_nonneg
            ordered := by
              cases ha : a.last with
              | none => exact hmax
              | some e =>
                rw [ha] at hright
                exact of_decide_eq_true hright
            bounded := a.bounded }
      else none
    else none

theorem leftOf_covers (byte : Int) : (∃ r ∈ a.leftOf b, r.Covers byte) ↔ a.start ≤ byte ∧ byte < b.start := by
  unfold leftOf
  by_cases h : a.start < b.start
  · rw [dif_pos h]
    simp only [Option.mem_some_iff, exists_eq_left', Covers, limit, limitOf, Option.getD_some]
    omega
  · rw [dif_neg h]
    simp only [Option.not_mem_none, false_and, exists_false, false_iff]
    omega

theorem rightOf_covers (byte : Int) :
    (∃ r ∈ a.rightOf b, r.Covers byte) ↔ b.limit < byte ∧ byte ≤ a.limit := by
  have ha := a.bounded
  unfold rightOf
  split
  · next hb =>
    simp only [Option.not_mem_none, false_and, exists_false, false_iff, limit, hb, limitOf,
      Option.getD_none] at ha ⊢
    omega
  next reqEnd hb =>
  have hlimit : b.limit = reqEnd := by simp [limit, limitOf, hb]
  rw [hlimit]
  by_cases hmax : reqEnd < i64Max
  · rw [dif_pos hmax]
    by_cases hright : a.last.all (fun lockEnd => decide (lockEnd ≥ reqEnd + 1)) = true
    · rw [dif_pos hright]
      simp only [Option.mem_some_iff, exists_eq_left', Covers, limit]
      omega
    rw [dif_neg hright]
    simp only [Option.not_mem_none, false_and, exists_false, false_iff]
    cases hl : a.last with
    | none => simp [hl] at hright
    | some =>
      simp only [hl, Option.all_some, decide_eq_true_eq] at hright
      simp only [limit, limitOf, hl, Option.getD_some]
      omega
  · rw [dif_neg hmax]
    simp only [Option.not_mem_none, false_and, exists_false, false_iff]
    unfold limit
    omega

end LockRange

/-! ### Locks -/

/-- `F_RDLCK`, `F_WRLCK` and `F_UNLCK`. -/
inductive LockType where
  | rdlck
  | wrlck
  | unlck
  deriving DecidableEq

/-- The number in `l_type`. -/
def LockType.value : LockType → Nat
  | .rdlck => 0
  | .wrlck => 1
  | .unlck => 2

inductive RecordLockOwner where
  | process (pid : Nat)
  | openFile (id : Nat)
  deriving DecidableEq

structure RecordLock where
  owner : RecordLockOwner
  ownerPid : Nat
  lockType : LockType
  range : LockRange
  deriving DecidableEq

def lockConflicts (reqType : LockType) (req : LockRange) (owner : RecordLockOwner) (existing : RecordLock) :
    Bool :=
  if existing.owner = owner ∨ existing.lockType = .unlck then false
  else if req.overlaps existing.range then
    match reqType with
    | .rdlck => existing.lockType == .wrlck
    | .wrlck => existing.lockType == .rdlck || existing.lockType == .wrlck
    | .unlck => false
  else false

/-- The derived order of owners: processes before open files, then by number. -/
def RecordLockOwner.sortKey : RecordLockOwner → ℕ ×ₗ ℕ
  | .process pid => toLex (0, pid)
  | .openFile id => toLex (1, id)

/-- What the locks are sorted by, first to last. -/
def RecordLock.sortKey (lock : RecordLock) : (ℕ ×ₗ ℕ) ×ₗ ℤ ×ₗ ℤ ×ₗ ℕ ×ₗ ℕ :=
  toLex (lock.owner.sortKey, toLex (lock.range.start,
    toLex (LockRange.rangeEndI128 lock.range.last, toLex (lock.lockType.value, lock.ownerPid))))

/-- The order of `normalize_record_locks`. -/
def sortsBefore (a b : RecordLock) : Prop := a.sortKey ≤ b.sortKey

instance : DecidableRel sortsBefore := fun a b => inferInstanceAs (Decidable (a.sortKey ≤ b.sortKey))

instance : Std.Total sortsBefore := ⟨fun a b => le_total a.sortKey b.sortKey⟩

instance : IsTrans RecordLock sortsBefore := ⟨fun _ _ _ => le_trans⟩

/-- A round of the merging loop; the last lock comes first in the list. -/
def mergeLock (merged : List RecordLock) (lock : RecordLock) : List RecordLock :=
  match merged with
  | [] => [lock]
  | last :: rest =>
    if last.owner = lock.owner ∧ last.lockType = lock.lockType ∧
        LockRange.touchesOrOverlapsSorted last.range.last lock.range.start = true then
      { last with range := last.range.extend lock.range } :: rest
    else lock :: last :: rest

def normalizeRecordLocks (locks : List RecordLock) : List RecordLock :=
  (((locks.filter fun lock => lock.lockType != .unlck).insertionSort sortsBefore).foldl mergeLock []).reverse

/-- What a request leaves of a lock. -/
def cutOut (owner : RecordLockOwner) (req : LockRange) (lock : RecordLock) : List RecordLock :=
  if lock.owner ≠ owner ∨ req.overlaps lock.range = false then [lock]
  else
    ((lock.range.leftOf req).toList ++ (lock.range.rightOf req).toList).map
      fun range => { lock with range := range }

/-- `apply_record_lock_for_owner`: the new list, and whether it differs. -/
def applyRecordLockForOwner (locks : List RecordLock) (owner : RecordLockOwner) (ownerPid : Nat)
    (reqType : LockType) (req : LockRange) : List RecordLock × Bool :=
  let added := if reqType = .unlck then [] else [⟨owner, ownerPid, reqType, req⟩]
  let updated := normalizeRecordLocks (locks.flatMap (cutOut owner req) ++ added)
  (updated, locks != updated)

/-! ### What is held -/

def RecordLock.Holds (lock : RecordLock) (owner : RecordLockOwner) (lockType : LockType) (byte : Int) : Prop :=
  lock.owner = owner ∧ lock.lockType = lockType ∧ lock.range.Covers byte

/-- The owner has a lock of this type on the byte. -/
def Held (locks : List RecordLock) (owner : RecordLockOwner) (lockType : LockType) (byte : Int) : Prop :=
  ∃ lock ∈ locks, lock.Holds owner lockType byte

variable {locks : List RecordLock} {owner : RecordLockOwner} {reqType : LockType}

section Held

variable {locks' sorted : List RecordLock} {owner' : RecordLockOwner} {lockType : LockType} {byte : Int}
  {lock : RecordLock} {merged : List RecordLock}

theorem held_nil : ¬ Held [] owner lockType byte := by
  rintro ⟨_, h, -⟩
  cases h

theorem held_cons : Held (lock :: locks) owner lockType byte ↔
    lock.Holds owner lockType byte ∨ Held locks owner lockType byte := by
  simp [Held]

theorem held_append : Held (locks ++ locks') owner lockType byte ↔
    Held locks owner lockType byte ∨ Held locks' owner lockType byte := by
  simp [Held, or_and_right, exists_or]

theorem held_congr (h : ∀ lock, lock ∈ locks ↔ lock ∈ locks') :
    Held locks owner lockType byte ↔ Held locks' owner lockType byte := by
  simp [Held, h]

theorem held_flatMap {f : RecordLock → List RecordLock} : Held (locks.flatMap f) owner lockType byte ↔
    ∃ lock ∈ locks, Held (f lock) owner lockType byte := by
  constructor
  · rintro ⟨lock', hmem, hlock'⟩
    obtain ⟨lock, hlock, hf⟩ := mem_flatMap.mp hmem
    exact ⟨lock, hlock, lock', hf, hlock'⟩
  · rintro ⟨lock, hlock, lock', hf, hlock'⟩
    exact ⟨lock', mem_flatMap.mpr ⟨lock, hlock, hf⟩, hlock'⟩

/-- The part of the order that merging keeps: owners first, and the starts of the locks of one
owner. -/
def StartsBefore (a b : RecordLock) : Prop :=
  a.owner.sortKey ≤ b.owner.sortKey ∧ (a.owner = b.owner → a.range.start ≤ b.range.start)

theorem startsBefore_of_sortsBefore {a b : RecordLock} (h : sortsBefore a b) : StartsBefore a b := by
  rcases Prod.Lex.toLex_le_toLex.mp h with hlt | ⟨heq, hle⟩
  · exact ⟨le_of_lt hlt, fun howner => absurd hlt (by simp [howner])⟩
  · refine ⟨le_of_eq heq, fun _ => ?_⟩
    rcases Prod.Lex.toLex_le_toLex.mp hle with hlt | ⟨heq, -⟩
    · exact le_of_lt hlt
    · exact le_of_eq heq

theorem held_mergeLock (hstart : ∀ last ∈ merged, StartsBefore last lock) :
    Held (mergeLock merged lock) owner lockType byte ↔
      Held merged owner lockType byte ∨ lock.Holds owner lockType byte := by
  cases merged with
  | nil => simp only [mergeLock, held_cons, or_comm]
  | cons last =>
  unfold mergeLock
  by_cases h : last.owner = lock.owner ∧ last.lockType = lock.lockType ∧
      LockRange.touchesOrOverlapsSorted last.range.last lock.range.start = true
  · simp only [if_pos h]
    obtain ⟨howner, htype, htouch⟩ := h
    have hcovers := LockRange.extend_covers ((hstart last (.head _)).2 howner) htouch byte
    simp only [held_cons, RecordLock.Holds, howner, htype]
    tauto
  · simp only [if_neg h]
    rw [held_cons, or_comm]

/-- The locks that are merged so far start where locks from before did. -/
theorem mergeLock_starts {next : RecordLock} (hmerged : ∀ last ∈ merged, StartsBefore last next)
    (hlock : StartsBefore lock next) : ∀ last ∈ mergeLock merged lock, StartsBefore last next := by
  intro last hlast
  cases merged with
  | nil =>
    obtain rfl := mem_singleton.mp hlast
    exact hlock
  | cons first =>
    unfold mergeLock at hlast
    dsimp only at hlast
    split at hlast
    · rcases mem_cons.mp hlast with rfl | hrest
      · exact hmerged first (.head _)
      · exact hmerged last (.tail _ hrest)
    · rcases mem_cons.mp hlast with rfl | hrest
      · exact hlock
      · exact hmerged last hrest

theorem held_foldl_mergeLock (hsorted : sorted.Pairwise sortsBefore)
    (hstart : ∀ last ∈ merged, ∀ lock ∈ sorted, StartsBefore last lock) :
    Held (sorted.foldl mergeLock merged) owner lockType byte ↔
      Held merged owner lockType byte ∨ Held sorted owner lockType byte := by
  -- along the sorted list; what is merged so far starts before what is left
  induction sorted generalizing merged with
  | nil => simp only [foldl_nil, held_nil, or_false]
  | cons lock sorted ih =>
    obtain ⟨hbefore, hrest⟩ := pairwise_cons.mp hsorted
    have hnext last (hlast : last ∈ mergeLock merged lock) next (hnext : next ∈ sorted) :=
      mergeLock_starts (fun first hfirst => hstart first hfirst next (.tail _ hnext))
        (startsBefore_of_sortsBefore (hbefore next hnext)) last hlast
    rw [foldl_cons, ih hrest hnext,
      held_mergeLock fun last hlast => hstart last hlast lock (.head _), or_assoc, ← held_cons]

/-- **Sorting and merging** keeps what is held. -/
theorem held_normalize : Held (normalizeRecordLocks locks) owner lockType byte ↔
    lockType ≠ .unlck ∧ Held locks owner lockType byte := by
  unfold normalizeRecordLocks
  rw [held_congr fun _ => mem_reverse,
    held_foldl_mergeLock (pairwise_insertionSort sortsBefore _) fun _ h => absurd h not_mem_nil,
    held_congr fun _ => mem_insertionSort sortsBefore]
  constructor
  · rintro (h | ⟨lock, hmem, howner, htype, hcovers⟩)
    · exact absurd h held_nil
    · obtain ⟨hmem, hne⟩ := mem_filter.mp hmem
      exact ⟨by simpa [htype] using hne, lock, hmem, howner, htype, hcovers⟩
  · rintro ⟨hne, lock, hmem, howner, htype, hcovers⟩
    exact .inr ⟨lock, mem_filter.mpr ⟨hmem, by simpa [htype] using hne⟩, howner, htype, hcovers⟩

variable {req : LockRange}

theorem held_cutOut : Held (cutOut owner' req lock) owner lockType byte ↔
      lock.Holds owner lockType byte ∧ ¬ (owner = owner' ∧ req.Covers byte) := by
  unfold cutOut
  split_ifs with h
  · -- the lock stays, and has no byte of the range
    rw [held_cons, or_iff_left held_nil]
    refine ⟨fun hheld => ⟨hheld, ?_⟩, And.left⟩
    rintro ⟨rfl, hreq⟩
    obtain ⟨rfl, -, hcovers⟩ := hheld
    have hoverlap := (req.overlaps_iff lock.range).mpr ⟨byte, hreq, hcovers⟩
    exact h.elim (fun h => h rfl) fun h => Bool.false_ne_true (h.symm.trans hoverlap)
  obtain ⟨howner, hoverlap⟩ := not_or.mp h
  obtain ⟨byte', hreq', hlock'⟩ := (req.overlaps_iff lock.range).mp (Bool.not_eq_false _ ▸ hoverlap)
  have hleft := lock.range.leftOf_covers req byte
  have hright := lock.range.rightOf_covers req byte
  have hpieces : (∃ r, (r ∈ lock.range.leftOf req ∨ r ∈ lock.range.rightOf req) ∧ r.Covers byte) ↔
      lock.range.Covers byte ∧ ¬ req.Covers byte := by
    simp only [or_and_right, exists_or, hleft, hright]
    unfold LockRange.Covers at *
    omega
  simp only [Held, mem_map, mem_append, Option.mem_toList]
  constructor
  · rintro ⟨_, ⟨r, hr, rfl⟩, rfl, rfl, hcovers⟩
    obtain ⟨hlock, hreq⟩ := hpieces.mp ⟨r, hr, hcovers⟩
    exact ⟨⟨rfl, rfl, hlock⟩, fun h => hreq h.2⟩
  · rintro ⟨⟨rfl, rfl, hlock⟩, hreq⟩
    obtain ⟨r, hr, hcovers⟩ := hpieces.mpr ⟨hlock, fun h => hreq ⟨not_not.mp howner, h⟩⟩
    exact ⟨_, ⟨r, hr, rfl⟩, rfl, rfl, hcovers⟩

/-- **A request** takes the range from what its owner held, and gives it the new lock there. Nobody
else's locks change. -/
theorem held_apply {ownerPid : Nat} :
    Held (applyRecordLockForOwner locks owner' ownerPid reqType req).1 owner lockType byte ↔
      lockType ≠ .unlck ∧ (Held locks owner lockType byte ∧ ¬ (owner = owner' ∧ req.Covers byte) ∨
          owner = owner' ∧ lockType = reqType ∧ req.Covers byte) := by
  unfold applyRecordLockForOwner
  rw [held_normalize, held_append, held_flatMap]
  refine and_congr_right fun hne => or_congr ?_ ?_
  · simp only [held_cutOut, ← and_assoc, exists_and_right]
    rfl
  split
  · next htype =>
    refine iff_of_false held_nil ?_
    rintro ⟨-, rfl, -⟩
    exact hne htype
  · rw [held_cons, or_iff_left held_nil]
    simp only [RecordLock.Holds, eq_comm]

/-! ### How the locks are stored -/

/-- Two locks of the owner have no byte in common, and if they are of one type there is a byte
between them. -/
def Spaced (owner : RecordLockOwner) (a b : RecordLock) : Prop :=
  a.owner = owner → b.owner = owner →
    a.range.limit < b.range.start ∧ (a.lockType = b.lockType → a.range.limit + 1 < b.range.start)

theorem RecordLockOwner.sortKey_injective : Function.Injective sortKey := by
  rintro (pid | id) (pid' | id') h <;> cases h <;> rfl

theorem mergeLock_spaced (hmerged : merged.Pairwise fun b a => StartsBefore a b ∧ Spaced owner a b)
    (hstart : ∀ last ∈ merged, StartsBefore last lock)
    (htypes : ∀ last ∈ merged, last.owner = owner → lock.owner = owner →
      (∃ byte, last.range.Covers byte ∧ lock.range.Covers byte) → last.lockType = lock.lockType) :
    (mergeLock merged lock).Pairwise fun b a => StartsBefore a b ∧ Spaced owner a b := by
  cases merged with
  | nil => exact pairwise_singleton ..
  | cons last rest =>
  obtain ⟨hlast, hrest⟩ := pairwise_cons.mp hmerged
  unfold mergeLock
  dsimp only
  split
  · -- owner, type and start of the last lock stay
    exact pairwise_cons.mpr ⟨hlast, hrest⟩
  next hno =>
  refine pairwise_cons.mpr ⟨fun a ha => ⟨hstart a ha, fun hao hlo => ?_⟩, hmerged⟩
  -- the last lock is of the owner if any lock before is
  have hlastOwner : last.owner = owner := by
    rcases mem_cons.mp ha with rfl | ha
    · exact hao
    apply RecordLockOwner.sortKey_injective
    exact le_antisymm (hlo ▸ (hstart last (.head _)).1) (hao ▸ (hlast a ha).1.1)
  have hle := (hstart last (.head _)).2 (hlastOwner.trans hlo.symm)
  have hordered : last.range.start ≤ last.range.limit := last.range.ordered
  have hnew : last.range.limit < lock.range.start ∧
      (last.lockType = lock.lockType → last.range.limit + 1 < lock.range.start) := by
    by_cases htype : last.lockType = lock.lockType
    · have hgap : ¬ lock.range.start ≤ last.range.limit + 1 := fun h =>
        hno ⟨hlastOwner.trans hlo.symm, htype, LockRange.touchesOrOverlapsSorted_iff.mpr h⟩
      exact ⟨by omega, fun _ => by omega⟩
    · refine ⟨?_, fun h => absurd h htype⟩
      by_contra hover
      refine htype (htypes last (.head _) hlastOwner hlo ⟨lock.range.start, ⟨hle, not_lt.mp hover⟩, ?_⟩)
      exact ⟨le_rfl, lock.range.ordered⟩
  rcases mem_cons.mp ha with rfl | ha
  · exact hnew
  · have hbelow := ((hlast a ha).2 hao hlastOwner).1
    exact ⟨by omega, fun _ => by omega⟩

theorem foldl_mergeLock_spaced (hsorted : sorted.Pairwise sortsBefore)
    (hstart : ∀ last ∈ merged, ∀ lock ∈ sorted, StartsBefore last lock)
    (htypes : ∀ t t' byte, Held (sorted.foldl mergeLock merged) owner t byte →
      Held (sorted.foldl mergeLock merged) owner t' byte → t = t')
    (hmerged : merged.Pairwise fun b a => StartsBefore a b ∧ Spaced owner a b) :
    (sorted.foldl mergeLock merged).Pairwise fun b a => StartsBefore a b ∧ Spaced owner a b := by
  induction sorted generalizing merged with
  | nil => exact hmerged
  | cons lock sorted ih =>
    obtain ⟨hbefore, hrest⟩ := pairwise_cons.mp hsorted
    refine ih hrest (fun last hlast next hnext => ?_) htypes (mergeLock_spaced hmerged
      (fun last hlast => hstart last hlast lock (.head _)) ?_)
    · exact mergeLock_starts (fun first hfirst => hstart first hfirst next (.tail _ hnext))
        (startsBefore_of_sortsBefore (hbefore next hnext)) last hlast
    · rintro last hlast hlo hown ⟨byte, hcovers, hcovers'⟩
      apply htypes _ _ byte
      · exact (held_foldl_mergeLock hsorted hstart).mpr (.inl ⟨last, hlast, hlo, rfl, hcovers⟩)
      · exact (held_foldl_mergeLock hsorted hstart).mpr (.inr ⟨lock, .head _, hown, rfl, hcovers'⟩)

/-- **The update law of a request.** Inside the range the owner has the requested type, outside what
it had, and nobody else's locks change. If the owner had at most one type at each byte outside, its
locks are then disjoint and merged. -/
theorem apply_update_law (locks : List RecordLock) (owner : RecordLockOwner) (ownerPid : Nat)
    (reqType : LockType)
    (req : LockRange) :
    let after := (applyRecordLockForOwner locks owner ownerPid reqType req).1
    (∀ t byte, Held after owner t byte ↔
      t ≠ .unlck ∧ if req.Covers byte then t = reqType else Held locks owner t byte) ∧
    (∀ other t byte, other ≠ owner → (Held after other t byte ↔ t ≠ .unlck ∧ Held locks other t byte)) ∧
    ((∀ t t' byte, ¬ req.Covers byte → t ≠ .unlck → t' ≠ .unlck →
        Held locks owner t byte → Held locks owner t' byte → t = t') →
      (after.filter (·.owner = owner)).Pairwise fun a b => a.range.limit < b.range.start ∧
        (a.lockType = b.lockType → a.range.limit + 1 < b.range.start)) := by
  intro after
  have hown t byte : Held after owner t byte ↔
      t ≠ .unlck ∧ if req.Covers byte then t = reqType else Held locks owner t byte := by
    rw [held_apply]
    split_ifs with hcovers <;> simp [hcovers]
  refine ⟨hown, fun other t byte hne => ?_, fun htypes => ?_⟩
  · rw [held_apply]
    simp [hne]
  rw [pairwise_filter]
  have hone t t' byte (h : Held after owner t byte) (h' : Held after owner t' byte) : t = t' := by
    rw [hown] at h h'
    split_ifs at h h' with hcovers
    · exact h.2.trans h'.2.symm
    · exact htypes t t' byte hcovers h.1 h'.1 h.2 h'.2
  unfold after applyRecordLockForOwner normalizeRecordLocks at hone ⊢
  simp only [held_congr fun _ => mem_reverse] at hone
  refine pairwise_reverse.mpr ((foldl_mergeLock_spaced (pairwise_insertionSort ..)
    (fun _ h => absurd h not_mem_nil) hone .nil).imp ?_)
  rintro b a ⟨-, hspaced⟩ ha hb
  exact hspaced (of_decide_eq_true ha) (of_decide_eq_true hb)

/-- A list in which an owner has two types at a byte. Sorting puts the write lock between the read
locks, and these are not merged. -/
theorem apply_keeps_overlap :
    let range (s e : Int) (h : 0 ≤ s ∧ s ≤ e ∧ e ≤ i64Max) : LockRange := ⟨s, some e, h.1, h.2.1, h.2.2⟩
    let lock (t : LockType) (r : LockRange) : RecordLock := ⟨.process 1, 1, t, r⟩
    let locks := [lock .rdlck (range 0 10 (by decide)), lock .wrlck (range 2 3 (by decide)),
      lock .rdlck (range 5 8 (by decide))]
    let after := (applyRecordLockForOwner locks (.process 1) 1 .unlck (range 20 30 (by decide))).1
    after = locks ∧ ¬ after.Pairwise fun a b => a.range.overlaps b.range = false := by
  decide

end Held

/-! ### Exclusion -/

/-- **No two owners hold a byte, one of them for writing.** -/
def Exclusive (locks : List RecordLock) : Prop :=
  ∀ a ∈ locks, ∀ b ∈ locks, a.owner ≠ b.owner → a.lockType = .wrlck ∨ b.lockType = .wrlck →
    ¬ ∃ byte, a.range.Covers byte ∧ b.range.Covers byte

theorem exclusive_iff_held {locks : List RecordLock} : Exclusive locks ↔
    ∀ o o' t t' byte, o ≠ o' → t = .wrlck ∨ t' = .wrlck → Held locks o t byte → ¬ Held locks o' t' byte := by
  constructor
  · rintro h o o' t t' byte hne hwrite ⟨a, ha, rfl, rfl, hcovers⟩ ⟨b, hb, rfl, rfl, hcovers'⟩
    exact h a ha b hb hne hwrite ⟨byte, hcovers, hcovers'⟩
  · rintro h a ha b hb hne hwrite ⟨byte, hcovers, hcovers'⟩
    exact h a.owner b.owner a.lockType b.lockType byte hne hwrite ⟨a, ha, rfl, rfl, hcovers⟩
      ⟨b, hb, rfl, rfl, hcovers'⟩

theorem lockConflicts_iff {existing : RecordLock} : lockConflicts reqType req owner existing = true ↔
      existing.owner ≠ owner ∧ existing.lockType ≠ .unlck ∧ reqType ≠ .unlck ∧
        (reqType = .wrlck ∨ existing.lockType = .wrlck) ∧
        ∃ byte, req.Covers byte ∧ existing.range.Covers byte := by
  rw [← LockRange.overlaps_iff]
  unfold lockConflicts
  by_cases howner : existing.owner = owner
  · simp [howner]
  · cases htype : existing.lockType <;> cases reqType <;>
      cases hover : req.overlaps existing.range <;> simp [howner]

namespace Exclusive

theorem nil : Exclusive [] := nofun

/-- **A request without conflicts** keeps the locks exclusive. -/
theorem apply (h : Exclusive locks) {ownerPid : Nat}
    (hfree : ∀ lock ∈ locks, lockConflicts reqType req owner lock = false) :
    Exclusive (applyRecordLockForOwner locks owner ownerPid reqType req).1 := by
  -- what the new lock would have to share a byte with conflicts with the request
  have hnew : ∀ o' t' byte, owner ≠ o' → reqType = .wrlck ∨ t' = .wrlck → reqType ≠ .unlck → t' ≠ .unlck →
      req.Covers byte → ¬ Held locks o' t' byte := by
    rintro o' t' byte hne hwrite hreq ht' hcovers ⟨lock, hlock, rfl, rfl, hcovers'⟩
    have hconflict := lockConflicts_iff.mpr ⟨hne.symm, ht', hreq, hwrite, byte, hcovers, hcovers'⟩
    exact Bool.false_ne_true ((hfree lock hlock).symm.trans hconflict)
  rw [exclusive_iff_held] at h ⊢
  intro o o' t t' byte hne hwrite hheld hheld'
  obtain ⟨ht, ⟨hold, -⟩ | ⟨rfl, rfl, hcovers⟩⟩ := held_apply.mp hheld <;>
    obtain ⟨ht', ⟨hold', -⟩ | ⟨rfl, rfl, hcovers'⟩⟩ := held_apply.mp hheld'
  · exact h o o' t t' byte hne hwrite hold hold'
  · exact hnew o t byte hne.symm hwrite.symm ht' ht hcovers' hold
  · exact hnew o' t' byte hne hwrite ht ht' hcovers hold'
  · exact hne rfl

end Exclusive

end HitOS.RecordLocks
