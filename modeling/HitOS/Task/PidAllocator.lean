import HitOS.Lib.Reachable

/-!
# Process ids

The `PidAllocator` of `task/id.rs`, with the bound it reads. The search starts at a moving hint and
wraps around to 1, so it passes every id of `[1, pid_max)` (`exists_iterate_succ`) whatever the hint
is.
-/

namespace HitOS

open Function Finset

/-- `PidAllocator` and `PID_MAX_VALUE`. -/
structure PidAllocator where
  next : Nat
  active : Finset Nat
  pidMaxValue : Nat

namespace PidAllocator

/-- `clamp_pid_max`, between `PID_MAX_MIN` and `PID_MAX_HARD_LIMIT`. -/
def clampPidMax (n : Nat) : Nat := min (max n 2) (4 * 1024 * 1024)

variable (a : PidAllocator)

def pidMax : Nat := clampPidMax a.pidMaxValue

/-- `PidAllocator::new`, and `PID_MAX_DEFAULT`. -/
def new : PidAllocator := ⟨0, ∅, 32768⟩

/-- The id after `pid` in the order of the search. -/
def succ (pidMax pid : Nat) : Nat := if pid + 1 ≥ pidMax then 1 else pid + 1

/-- The loop of `alloc`, for `n` rounds. -/
def search (pidMax : Nat) : Nat → PidAllocator → Option Nat × PidAllocator
  | 0, a => (none, a)
  | n + 1, a =>
    let pid := a.next
    let a := { a with next := succ pidMax pid }
    if pid ∈ a.active then search pidMax n a
    else (some pid, { a with active := insert pid a.active })

def alloc : Option Nat × PidAllocator :=
  search a.pidMax a.pidMax (if a.next ≥ a.pidMax then { a with next := 1 } else a)

/-- `dealloc`, which only warns when the id is not active. -/
def dealloc (pid : Nat) : PidAllocator := { a with active := a.active.erase pid }

def setPidMax (n : Nat) : PidAllocator := { a with pidMaxValue := clampPidMax n }

/-- The operations. -/
inductive Op where
  | alloc
  | dealloc (pid : Nat)
  | setPidMax (n : Nat)

/-- The allocator after an operation. -/
def Op.apply : Op → PidAllocator
  | alloc => a.alloc.2
  | dealloc pid => a.dealloc pid
  | setPidMax n => a.setPidMax n

variable {a : PidAllocator} {m n x y : Nat}

theorem one_lt_pidMax (a : PidAllocator) : 1 < a.pidMax := by
  unfold pidMax clampPidMax
  omega

/-! ### The search -/

theorem succ_lt (h : 1 < m) : succ m x < m ∧ 1 ≤ succ m x := by
  unfold succ
  split <;> omega

theorem iterate_succ_of_lt (h : x + n < m) : (succ m)^[n] x = x + n := by
  induction n with
  | zero => rfl
  | succ n ih =>
    rw [iterate_succ_apply', ih (by omega), succ, if_neg (by omega)]
    rfl

/-- **The search passes every id.** -/
theorem exists_iterate_succ (hx : x < m) (hy : 1 ≤ y) (hym : y < m) : ∃ i < m, (succ m)^[i] x = y := by
  rcases lt_or_ge y x with hlt | hge
  · -- up to the bound, and on from 1
    have hwrap : (succ m)^[m - 1 - x + 1] x = 1 := by
      rw [iterate_succ_apply', iterate_succ_of_lt (by omega), succ, if_pos (by omega)]
    refine ⟨y - 1 + (m - 1 - x + 1), by omega, ?_⟩
    rw [iterate_add_apply, iterate_succ_of_lt (by omega)]
    omega
  · exact ⟨y - x, by omega, by rw [iterate_succ_of_lt (by omega)]; omega⟩

/-- The search gives up if it has met active ids only. -/
theorem search_none (h : (search m n a).1 = none) : ∀ i < n, (succ m)^[i] a.next ∈ a.active := by
  induction n generalizing a with
  | zero => exact nofun
  | succ n ih =>
    unfold search at h
    dsimp only at h
    split at h
    · next hmem =>
      intro i hi
      cases i with
      | zero => exact hmem
      | succ i => exact ih h i (by omega)
    · cases h

/-- An id the search finds was not active, and is so from then on. -/
theorem search_some (hm : 1 < m) (hnext : a.next < m) (h : (search m n a).1 = some x) :
    (x ∉ a.active ∧ x < m ∧ (search m n a).2.active = insert x a.active) ∧ (1 ≤ a.next → 1 ≤ x) := by
  induction n generalizing a with
  | zero => cases h
  | succ n ih =>
    unfold search at h ⊢
    dsimp only at h ⊢
    split at h
    · next hmem =>
      rw [if_pos hmem]
      obtain ⟨hfound, hpos⟩ := ih (succ_lt hm).1 h
      exact ⟨hfound, fun _ => hpos (succ_lt hm).2⟩
    · next hmem =>
      rw [if_neg hmem]
      cases h
      exact ⟨⟨hmem, hnext, rfl⟩, id⟩

/-- The search leaves the bound alone, and its hint is not 0 afterwards. -/
theorem search_next (hm : 1 < m) (h : 1 ≤ a.next ∨ 0 < n) :
    (search m n a).2.pidMaxValue = a.pidMaxValue ∧ 1 ≤ (search m n a).2.next := by
  induction n generalizing a with
  | zero => exact ⟨rfl, h.elim id nofun⟩
  | succ n ih =>
    unfold search
    dsimp only
    split
    · exact ih (.inl (succ_lt hm).2)
    · exact ⟨rfl, (succ_lt hm).2⟩

/-! ### Allocation -/

/-- The state the search of `alloc` starts from. -/
theorem alloc_eq : ∃ b : PidAllocator, a.alloc = search a.pidMax a.pidMax b ∧
    b.active = a.active ∧ b.pidMaxValue = a.pidMaxValue ∧ b.next < a.pidMax ∧ (1 ≤ a.next → 1 ≤ b.next) := by
  have hm := one_lt_pidMax a
  refine ⟨_, rfl, ?_⟩
  split
  · exact ⟨rfl, rfl, hm, fun _ => le_refl 1⟩
  · next hlt => exact ⟨rfl, rfl, by omega, id⟩

theorem alloc_some (h : a.alloc.1 = some x) :
    (x ∉ a.active ∧ x < a.pidMax ∧ a.alloc.2.active = insert x a.active) ∧ (1 ≤ a.next → 1 ≤ x) := by
  obtain ⟨b, heq, hactive, -, hnext, hpos⟩ := alloc_eq
  rw [heq] at h ⊢
  obtain ⟨hfound, hone⟩ := search_some (one_lt_pidMax a) hnext h
  rw [hactive] at hfound
  exact ⟨hfound, fun h => hone (hpos h)⟩

theorem alloc_none (h : a.alloc.1 = none) (hy : 1 ≤ y) (hlt : y < a.pidMax) : y ∈ a.active := by
  obtain ⟨b, heq, hactive, -, hnext, -⟩ := alloc_eq
  rw [heq] at h
  obtain ⟨i, hi, rfl⟩ := exists_iterate_succ hnext hy hlt
  exact hactive ▸ search_none h i hi

theorem alloc_next (a : PidAllocator) : a.alloc.2.pidMax = a.pidMax ∧ 1 ≤ a.alloc.2.next := by
  obtain ⟨b, heq, -, hmax, -⟩ := alloc_eq
  have hm := one_lt_pidMax a
  obtain ⟨hkeep, hone⟩ := search_next hm (.inr (Nat.zero_lt_of_lt hm))
  rw [heq]
  exact ⟨by rw [pidMax, hkeep, hmax, pidMax], hone⟩

/-- **An inactive id is allocated** sooner or later. -/
theorem exists_alloc (hx : 1 ≤ x) (hlt : x < a.pidMax) (hfree : x ∉ a.active) :
    ∃ n, ((fun b => (alloc b).2)^[n] a).alloc.1 = some x := by
  -- every allocation before that takes one of the inactive ids away
  induction hcard : (range a.pidMax \ a.active).card using Nat.strong_induction_on generalizing a with
  | _ c ih =>
    cases halloc : a.alloc.1 with
    | none => exact absurd (alloc_none halloc hx hlt) hfree
    | some y =>
    by_cases hyx : y = x
    · exact ⟨0, hyx ▸ halloc⟩
    obtain ⟨⟨hy, hylt, hactive⟩, -⟩ := alloc_some halloc
    have hmax := (alloc_next a).1
    have hsmaller : (range a.alloc.2.pidMax \ a.alloc.2.active).card < c := by
      rw [hmax, hactive, sdiff_insert, ← hcard]
      exact card_erase_lt_of_mem (by simp [hy, hylt])
    obtain ⟨n, hn⟩ := ih _ hsmaller (hmax ▸ hlt) (by simp [hactive, hfree, Ne.symm hyx]) rfl
    exact ⟨n + 1, hn⟩

/-- The hint is 0 only before the first allocation. -/
theorem next_pos_of_run (h : Reachable (· = new) (fun a b => ∃ op : Op, op.apply a = b) a) :
    1 ≤ a.next ∨ a.active = ∅ := by
  refine h.invariant (I := fun a => 1 ≤ a.next ∨ a.active = ∅) (fun _ h => .inr (h ▸ rfl)) ?_
  rintro a _ ha ⟨op, rfl⟩
  cases op with
  | alloc => exact .inl (alloc_next a).2
  | dealloc pid => exact ha.imp id fun he => by simp [Op.apply, dealloc, he]
  | setPidMax => exact ha

/-- **Process ids.** After any sequence of allocations, releases and changes of the bound, an
allocation returns an inactive id below the bound, fails just when all of `[1, pid_max)` is active,
and returns a released id of that range after finitely many others. -/
theorem alloc_of_run (h : Reachable (· = new) (fun a b => ∃ op : Op, op.apply a = b) a) :
    (∀ x, a.alloc.1 = some x → x ∉ a.active ∧ x < a.pidMax ∧ a.alloc.2.active = insert x a.active) ∧
    (a.alloc.1 = none ↔ ∀ y, 1 ≤ y → y < a.pidMax → y ∈ a.active) ∧
    ∀ x, 1 ≤ x → x < a.pidMax → ∃ n, ((fun b => (alloc b).2)^[n] (a.dealloc x)).alloc.1 = some x := by
  refine ⟨fun x hx => (alloc_some hx).1, ⟨fun hnone y => alloc_none hnone, fun hall => ?_⟩,
    fun x hx hlt => exists_alloc hx hlt (notMem_erase x _)⟩
  have hone := hall 1 (le_refl 1) (one_lt_pidMax a)
  have hnext : 1 ≤ a.next := (next_pos_of_run h).resolve_right fun he => by simp [he] at hone
  refine Option.eq_none_iff_forall_ne_some.mpr fun x hx => ?_
  obtain ⟨⟨hnot, hlt, -⟩, hpos⟩ := alloc_some hx
  exact hnot (hall x (hpos hnext) hlt)

/-- With the bound at 3 and ids 0, 1 and 2 taken, the release of 1 lets it be taken again. -/
theorem alloc_of_run_three :
    let a := (((new.setPidMax 3).alloc.2).alloc.2).alloc.2
    a.alloc.1 = none ∧ ∃ n, ((fun b => (alloc b).2)^[n] (a.dealloc 1)).alloc.1 = some 1 :=
  have h := alloc_of_run (.step (.step (.step (.step (.start rfl) ⟨.setPidMax 3, rfl⟩) ⟨.alloc, rfl⟩)
    ⟨.alloc, rfl⟩) ⟨.alloc, rfl⟩)
  ⟨by decide, h.2.2 1 (by decide) (by decide)⟩

end PidAllocator

end HitOS
