import HitOS.Mm.RegionEffects

/-!
# The ranges locked by `mlock`

The list of locked ranges as a set of addresses: `LockOp.effect` says what each of the three
operations does to the set, and `lockedRanges_of_run` that after any of them in any order the list
is the one sorted list of ranges with gaps that holds the set, and the number of locked bytes is the
size of the set. No range of the list holds the last address, so that memory moved there is no
longer locked (`move_loses_last_address`).
-/

namespace HitOS

open List Intervals Set

def rangesTotalLen (ranges : List (Nat × Nat)) : Nat := (ranges.map fun r => r.2 - r.1).sum

def MemorySet.lockedBytes (s : MemorySet) : Nat := rangesTotalLen s.mlockedRanges

def MemorySet.lockedBytesAfterAdd (s : MemorySet) (start stop : Nat) : Nat :=
  rangesTotalLen (normalizeRanges (s.mlockedRanges ++ [(start, stop)]))

/-- A change to the locked ranges, with its arguments as the machine has them. -/
inductive LockOp where
  | add (start stop : Fin (usizeMax + 1))
  | trim (start stop : Fin (usizeMax + 1))
  | move (oldAddr oldLen newStart : Fin (usizeMax + 1))

namespace LockOp

def apply (s : MemorySet) : LockOp → MemorySet
  | add start stop => s.addLockedRange start stop
  | trim start stop => s.trimLockedRanges start stop
  | move oldAddr oldLen newStart => s.moveLockedRanges oldAddr oldLen newStart

/-- **What an operation is for**: the union, the difference, and the translated image of a part,
without what would come to the last address or behind it. -/
def effect (S : Set Nat) : LockOp → Set Nat
  | add start stop => S ∪ Set.Ico ↑start ↑stop
  | trim start stop => S \ Set.Ico ↑start ↑stop
  | move old len new => S \ Set.Ico ↑old (old + len : Nat) ∪
      Set.image (fun x => new + (x - old) : Nat → Nat) (S ∩ Set.Ico ↑old (old + len : Nat)) ∩ Set.Iio usizeMax

/-- A run from a state without locked ranges. -/
def run (s : MemorySet) (ops : List LockOp) : MemorySet := ops.foldl apply { s with mlockedRanges := [] }

end LockOp

/-- The list of locked ranges is sorted, with gaps, and has no empty range. -/
structure LockedOk (l : List (Nat × Nat)) : Prop where
  gaps : l.Pairwise fun r q => r.2 < q.1
  nonempty : ∀ r ∈ l, r.1 < r.2

variable {l : List (Nat × Nat)} {a b new x : Nat} {r : Nat × Nat} {s : MemorySet}

theorem LockedOk.normalizeRanges : LockedOk (normalizeRanges l) := by
  have hspec := sortAndMerge_spec (l := l.filter fun r => r.1 < r.2) fun r hr => by
    simpa using (mem_filter.mp hr).2
  exact ⟨hspec.2.1, hspec.2.2⟩

theorem mem_cover_flatMap {f : Nat × Nat → List (Nat × Nat)} :
    x ∈ cover (l.flatMap f) ↔ ∃ r ∈ l, x ∈ cover (f r) := by
  simp only [mem_cover, mem_flatMap]
  exact ⟨fun ⟨q, ⟨r, hr, hq⟩, hx⟩ => ⟨r, hr, q, hq, hx⟩, fun ⟨r, hr, q, hq, hx⟩ => ⟨q, ⟨r, hr, hq⟩, hx⟩⟩

theorem mem_cover_append {l' : List (Nat × Nat)} : x ∈ cover (l ++ l') ↔ x ∈ cover l ∨ x ∈ cover l' := by
  simp only [mem_cover, mem_append, or_and_right, exists_or]

theorem mem_cover_singleton : x ∈ cover [r] ↔ r.1 ≤ x ∧ x < r.2 := by
  simp [mem_cover]

/-- A part that is kept only if it is not empty. -/
theorem mem_cover_part : x ∈ cover (if a < b then [(a, b)] else []) ↔ a ≤ x ∧ x < b := by
  split
  · exact mem_cover_singleton
  · exact iff_of_false (by simp [cover]) (by omega)

theorem mem_cover_trimmed :
    x ∈ cover (trimmed a b r) ↔ (r.1 ≤ x ∧ x < r.2) ∧ ¬ (a ≤ x ∧ x < b) := by
  unfold trimmed
  split
  · next hout =>
    simp only [Bool.or_eq_true, decide_eq_true_eq] at hout
    rw [mem_cover_singleton]
    omega
  · next hmeets =>
    simp only [Bool.or_eq_true, decide_eq_true_eq] at hmeets
    rw [mem_cover_append, mem_cover_part, mem_cover_part]
    omega

theorem mem_cover_movedLock (hab : a < b) : x ∈ cover (movedLock a b new r) ↔
    (r.1 ≤ x ∧ x < r.2) ∧ ¬ (a ≤ x ∧ x < b) ∨
      (∃ y, ((r.1 ≤ y ∧ y < r.2) ∧ a ≤ y ∧ y < b) ∧ new + (y - a) = x) ∧ x < usizeMax := by
  -- the moved address `x` comes from `a + (x - new)`
  have himage : (∃ y, ((r.1 ≤ y ∧ y < r.2) ∧ a ≤ y ∧ y < b) ∧ new + (y - a) = x) ↔
      new + (max r.1 a - a) ≤ x ∧ x < new + (min r.2 b - a) := by
    constructor
    · rintro ⟨y, hy, rfl⟩
      omega
    · exact fun h => ⟨a + (x - new), by omega, by omega⟩
  rw [himage]
  unfold movedLock satAdd
  split
  · next hout =>
    simp only [Bool.or_eq_true, decide_eq_true_eq] at hout
    rw [mem_cover_singleton]
    omega
  · next hmeets =>
    simp only [Bool.or_eq_true, decide_eq_true_eq] at hmeets
    rw [mem_cover_append, mem_cover_append, mem_cover_part, mem_cover_singleton, mem_cover_part]
    omega

/-- **One operation** keeps the list in order and does to its set what it is for. -/
theorem LockOp.apply_spec (h : LockedOk s.mlockedRanges) (hle : ∀ x ∈ cover s.mlockedRanges, x < usizeMax)
    (op : LockOp) : LockedOk (op.apply s).mlockedRanges ∧
      ∀ x, x ∈ cover (op.apply s).mlockedRanges ↔ x ∈ op.effect (cover s.mlockedRanges) := by
  cases op with
  | add start stop =>
    refine ⟨.normalizeRanges, fun x => mem_cover_normalizeRanges.trans ?_⟩
    simp [effect, mem_cover]
  | trim start stop =>
    change LockedOk (trimRanges ..) ∧ ∀ x, x ∈ cover (trimRanges ..) ↔ _
    unfold trimRanges
    split
    · next hempty => exact ⟨h, fun x => by simp [effect, Ico_eq_empty_of_le hempty]⟩
    refine ⟨.normalizeRanges, fun x => mem_cover_normalizeRanges.trans (mem_cover_flatMap.trans ?_)⟩
    simp only [mem_cover_trimmed, ← and_assoc, exists_and_right]
    rw [effect, mem_sdiff, Finset.mem_coe, mem_cover]
    simp only [and_assoc, mem_Ico]
  | move old len new =>
    unfold apply MemorySet.moveLockedRanges
    -- the end is cut at the last address, which no range reaches
    have hend x (hx : x ∈ cover s.mlockedRanges) : x < satAdd old len ↔ x < old + len := by
      have := hle x hx
      unfold satAdd
      omega
    simp only [effect, mem_union, mem_sdiff, mem_inter_iff, mem_image, mem_Ico]
    split
    · next hempty =>
      refine ⟨h, fun x => ⟨fun hx => .inl ⟨hx, ?_⟩, ?_⟩⟩
      · rw [← hend x hx]
        omega
      · rintro (hx | ⟨⟨y, ⟨hy, hin⟩, -⟩, -⟩)
        · exact hx.1
        · rw [← hend y hy] at hin
          omega
    next hlt =>
    refine ⟨.normalizeRanges, fun x => mem_cover_normalizeRanges.trans (mem_cover_flatMap.trans ?_)⟩
    simp only [mem_cover_movedLock (not_le.mp hlt)]
    constructor
    · rintro ⟨r, hr, ⟨hx, hout⟩ | ⟨⟨y, ⟨hy, hin⟩, heq⟩, hlast⟩⟩
      · have hx := mem_cover.mpr ⟨r, hr, hx⟩
        exact .inl ⟨hx, by rwa [← hend x hx]⟩
      · have hy := mem_cover.mpr ⟨r, hr, hy⟩
        exact .inr ⟨⟨y, ⟨hy, by rwa [← hend y hy]⟩, heq⟩, hlast⟩
    · rintro (⟨hx, hout⟩ | ⟨⟨y, ⟨hy, hin⟩, heq⟩, hlast⟩)
      · rw [← hend x hx] at hout
        obtain ⟨r, hr, hx⟩ := mem_cover.mp hx
        exact ⟨r, hr, .inl ⟨hx, hout⟩⟩
      · rw [← hend y hy] at hin
        obtain ⟨r, hr, hy⟩ := mem_cover.mp hy
        exact ⟨r, hr, .inr ⟨⟨y, ⟨hy, hin⟩, heq⟩, hlast⟩⟩

theorem LockOp.lt_of_mem_effect {S : Set Nat} (hS : ∀ x ∈ S, x < usizeMax) {op : LockOp}
    (hx : x ∈ op.effect S) :
    x < usizeMax := by
  cases op with
  | add start stop => exact hx.elim (hS x) fun hin => hin.2.trans_le stop.is_le
  | trim => exact hS x hx.1
  | move => exact hx.elim (fun hold => hS x hold.1) fun hnew => hnew.2

/-- **The locked ranges after any operations**: sorted ranges with gaps that hold the addresses the
operations leave locked, and their total length is the number of these addresses. -/
theorem lockedRanges_of_run (s : MemorySet) (ops : List LockOp) :
    let t := LockOp.run s ops
    t.mlockedRanges.Pairwise (fun r q => r.2 < q.1) ∧ (∀ r ∈ t.mlockedRanges, r.1 < r.2) ∧
      (cover t.mlockedRanges : Set Nat) = ops.foldl LockOp.effect ∅ ∧
      t.lockedBytes = (cover t.mlockedRanges).card ∧
      ∀ start stop, t.lockedBytesAfterAdd start stop = (t.addLockedRange start stop).lockedBytes := by
  have hrun : ∀ (s : MemorySet) (S : Set Nat), LockedOk s.mlockedRanges →
    (cover s.mlockedRanges : Set Nat) = S →
      (∀ x ∈ S, x < usizeMax) → LockedOk (ops.foldl LockOp.apply s).mlockedRanges ∧
        (cover (ops.foldl LockOp.apply s).mlockedRanges : Set Nat) = ops.foldl LockOp.effect S := by
    induction ops with
    | nil => exact fun s S h hS _ => ⟨h, hS⟩
    | cons op ops ih =>
      rintro s _ h rfl hle
      obtain ⟨hok, hset⟩ := op.apply_spec h hle
      exact ih _ _ hok (ext hset) fun x hx => LockOp.lt_of_mem_effect hle hx
  obtain ⟨hok, hset⟩ := hrun { s with mlockedRanges := [] } ∅ ⟨.nil, nofun⟩ (by simp [cover]) nofun
  exact ⟨hok.gaps, hok.nonempty, hset, (card_cover (hok.gaps.imp fun hlt => .inl hlt.le)).symm, fun _ _ => rfl⟩

/-- Two locked bytes are moved to the end of the address space, and the last one is no longer
locked. -/
theorem move_loses_last_address : (LockOp.run {} [.add 0 2]).lockedBytes = 2 ∧
    (LockOp.run {} [.add 0 2, .move 0 2 (.ofNat _ (usizeMax - 1))]).mlockedRanges =
    [(usizeMax - 1, usizeMax)] :=
  ⟨rfl, rfl⟩

end HitOS
