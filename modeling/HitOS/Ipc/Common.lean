import HitOS.Lib.OrdMap
import HitOS.Lib.Usize
import HitOS.Syscall.Error

/-!
# Common parts of the SysV IPC objects

`syscall/sysv_ipc/common.rs`: owners and permissions, and the queues of waiting tasks. A queue holds
weak references to tasks. A task that has gone is still in it, and waking it does nothing.

`nextFree` is the search for an unused identifier in the `alloc_id` of each kind of object;
`nextFree_unused` says that it finds one.
-/

namespace HitOS.Ipc

open Finset

/-- A task control block, by its identity. -/
abbrev TaskId := Nat

/-! ### Permissions -/

structure IpcPermKernel where
  key : Nat
  uid : Nat
  gid : Nat
  cuid : Nat
  cgid : Nat
  mode : Nat
  deriving DecidableEq, Repr

structure Cred where
  euid : Nat
  egid : Nat
  groups : List Nat
  pid : Nat
  deriving DecidableEq, Repr

def isOwnerOrRoot (perm : IpcPermKernel) (cred : Cred) : Bool :=
  cred.euid == 0 || cred.euid == perm.uid || cred.euid == perm.cuid

def checkIpcAccess (perm : IpcPermKernel) (req : Nat) (cred : Cred) : Bool :=
  if req = 0 ∨ cred.euid = 0 then true
  else
    let classShift :=
      if cred.euid = perm.uid ∨ cred.euid = perm.cuid then 6
      else if cred.egid = perm.gid ∨ cred.egid = perm.cgid ∨
        cred.groups.any (fun g => g == perm.gid || g == perm.cgid) then 3
      else 0
    let need := (req >>> 6) &&& 0x7
    let allow := (perm.mode >>> classShift) &&& 0x7
    (allow &&& need) == need

/-! ### Queues of waiting tasks -/

def addWaiterOnce (queue : List TaskId) (task : TaskId) : List TaskId :=
  if task ∈ queue then queue else queue ++ [task]

/-- `count_blocked_waiters`: the queue without the tasks that are gone, and the number of those that
are blocked. -/
def countBlockedWaiters (alive blocked : TaskId → Bool) (queue : List TaskId) : List TaskId × Nat :=
  (queue.filter alive, (queue.filter alive).countP blocked)

theorem mem_addWaiterOnce {queue : List TaskId} {task t : TaskId} :
    t ∈ addWaiterOnce queue task ↔ t ∈ queue ∨ t = task := by
  unfold addWaiterOnce
  split
  · next h =>
    refine ⟨.inl, ?_⟩
    rintro (ht | rfl)
    · exact ht
    · exact h
  · simp

/-! ### Identifiers -/

/-- `while used(next_id) { next_id += 1 }`, for at most `fuel` rounds. -/
def nextFree (used : Nat → Bool) : Nat → Nat → Nat
  | 0, n => n
  | fuel + 1, n => if used n then nextFree used fuel (wrapAdd n 1) else n

/-- The `i`-th identifier the search looks at. -/
def visited (n : Nat) : Nat → Nat
  | 0 => n
  | i + 1 => wrapAdd (visited n i) 1

theorem visited_succ (n i : Nat) : visited n (i + 1) = visited (wrapAdd n 1) i := by
  induction i with
  | zero => rfl
  | succ i ih => rw [visited, ih, visited]

theorem visited_add_one (n i : Nat) : visited n (i + 1) = wrapAdd n (i + 1) := by
  induction i with
  | zero => rfl
  | succ i ih => rw [visited, ih, wrapAdd_wrapAdd]

/-- The search does not look at an identifier twice. -/
theorem visited_injOn {n i j : Nat} (hi : i ≤ usizeMax) (hj : j ≤ usizeMax)
    (h : visited n i = visited n j) : i = j := by
  have hmod k (hk : k ≠ 0) : visited n k = (n + k) % (usizeMax + 1) := by
    obtain ⟨m, rfl⟩ := Nat.exists_eq_succ_of_ne_zero hk
    exact visited_add_one n m
  unfold usizeMax at *
  rcases Nat.eq_zero_or_pos i with rfl | hi0 <;> rcases Nat.eq_zero_or_pos j with rfl | hj0
  · rfl
  · rw [hmod j (by omega)] at h
    change n = _ at h
    omega
  · rw [hmod i (by omega)] at h
    change _ = n at h
    omega
  · rw [hmod i (by omega), hmod j (by omega)] at h
    omega

theorem used_visited {used : Nat → Bool} {fuel n : Nat} (h : used (nextFree used fuel n) = true) :
    ∀ i ≤ fuel, used (visited n i) = true := by
  induction fuel generalizing n with
  | zero =>
    intro i hi
    obtain rfl : i = 0 := Nat.le_zero.mp hi
    exact h
  | succ _ ih =>
    unfold nextFree at h
    split at h
    · next hn =>
      intro i hi
      cases i with
      | zero => exact hn
      | succ i =>
        rw [visited_succ]
        exact ih h i (Nat.le_of_succ_le_succ hi)
    · next hn => exact absurd h hn

/-- **The search finds an unused identifier**, if it may look at more of them than are used. -/
theorem nextFree_unused {V : Type} (m : OrdMap Nat V) (n : Nat) (hsize : m.size ≤ usizeMax) :
    m.get? (nextFree m.containsKey m.size n) = none := by
  by_contra hused
  have hall : ∀ i ≤ m.size, m.containsKey (visited n i) = true :=
    used_visited (Option.isSome_iff_ne_none.mpr hused)
  -- more identifiers than keys
  have hsub : (range (m.size + 1)).image (visited n) ⊆ m.keys.toFinset := by
    intro k hk
    obtain ⟨i, hi, rfl⟩ := mem_image.mp hk
    obtain ⟨v, hv⟩ := Option.isSome_iff_exists.mp (hall i (Nat.le_of_lt_succ (mem_range.mp hi)))
    rw [List.mem_toFinset, OrdMap.keys, List.mem_map]
    exact ⟨_, OrdMap.get?_eq_some_iff.mp hv, rfl⟩
  have hcard := card_le_card hsub
  rw [card_image_of_injOn, card_range] at hcard
  · have hkeys : m.keys.toFinset.card ≤ m.size := by
      refine (List.toFinset_card_le _).trans (le_of_eq ?_)
      rw [OrdMap.keys, List.length_map, OrdMap.size]
    omega
  · intro i hi j hj h
    have hi' := mem_range.mp (mem_coe.mp hi)
    have hj' := mem_range.mp (mem_coe.mp hj)
    exact visited_injOn (by omega) (by omega) h

end HitOS.Ipc
