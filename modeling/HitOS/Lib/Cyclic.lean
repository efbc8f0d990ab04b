import Mathlib

/-!
# Windows of a cyclic array

The first `cap` places of a list are taken as a circle. `window` reads a number of places from a
point on, `store` writes a list from a point on; both go over the end at most once, in two copies.

* `window_eq_copies` — reading in two copies is reading the window;
* `window_add` and `window_mod` — how a window follows its length and its start;
* `window_store` — what is stored behind a window extends it, as long as the circle has room.
-/

namespace Cyclic

open List Nat

universe u

variable {cap head n pos i : Nat}

variable {α : Type u} [Inhabited α] {a bs : List α}

/-- The `n` places from `head` on, in a circle of `cap`. -/
def window (a : List α) (cap head n : Nat) : List α :=
  (List.range n).map fun i => a.getD ((head + i) % cap) default

@[simp] theorem length_window : (window a cap head n).length = n := by
  simp [window]

theorem window_add {m : Nat} : window a cap head (m + n) = window a cap head m ++ window a cap
    (head + m) n := by
  unfold window
  rw [range_add, map_append, map_map]
  congr 1
  refine map_congr_left fun i _ => ?_
  rw [Function.comp_apply, Nat.add_assoc]

theorem window_mod : window a cap (head % cap) n = window a cap head n := by
  refine map_congr_left fun i _ => ?_
  rw [mod_add_mod]

/-- A window that ends before the end of the circle is a slice. -/
theorem window_eq_slice (h : head + n ≤ cap) (ha : cap ≤ a.length) :
    window a cap head n = (a.drop head).take n := by
  refine ext_getElem (by simp; omega) fun i hi hi' => ?_
  have hin : i < n := by simpa using hi
  have hmod : (head + i) % cap = head + i := mod_eq_of_lt (by omega)
  simp only [window, getElem_map, getElem_range, getElem_take, getElem_drop, hmod]
  exact (getElem_eq_getD _).symm

/-- **Reading in two copies.** -/
theorem window_eq_copies (hhead : head < cap) (hn : n ≤ cap) (ha : cap ≤ a.length) :
    (a.drop head).take (min n (cap - head)) ++ a.take (n - min n (cap - head)) = window a cap head n := by
  obtain ⟨k, hk⟩ : ∃ k, n = min n (cap - head) + k := ⟨n - min n (cap - head), by omega⟩
  have hfirst : window a cap head (min n (cap - head)) = (a.drop head).take (min n (cap - head)) :=
    window_eq_slice (by omega) ha
  have hsecond : window a cap (head + min n (cap - head)) k = a.take k := by
    rcases Nat.eq_zero_or_pos k with rfl | hpos
    · rfl
    · -- the first copy has reached the end
      have hend : head + min n (cap - head) = cap := by omega
      rw [hend, ← window_mod, mod_self, window_eq_slice (by omega) ha, drop_zero]
  calc (a.drop head).take (min n (cap - head)) ++ a.take (n - min n (cap - head))
      = window a cap head (min n (cap - head)) ++ window a cap (head + min n (cap - head)) k := by
        rw [hfirst, hsecond, show n - min n (cap - head) = k by omega]
    _ = window a cap head (min n (cap - head) + k) := window_add.symm
    _ = window a cap head n := by rw [← hk]

/-- Fewer steps than the circle has do not lead back. -/
theorem add_mod_ne_self {k : Nat} (hpos : pos < cap) (hk : 0 < k) (hlt : k < cap) : (pos + k) % cap ≠ pos := by
  rcases Nat.lt_or_ge (pos + k) cap with hl | hg
  · rw [mod_eq_of_lt hl]
    omega
  · rw [mod_eq_sub_mod hg, mod_eq_of_lt (by omega)]
    omega

/-! ### Writing -/

/-- The places from `pos` on are overwritten. -/
def splice (a : List α) (pos : Nat) (bs : List α) : List α := a.take pos ++ bs ++ a.drop (pos + bs.length)

omit [Inhabited α] in
theorem length_splice (h : pos + bs.length ≤ a.length) : (splice a pos bs).length = a.length := by
  simp only [splice, length_append, length_take, length_drop]
  omega

theorem getD_splice (h : pos + bs.length ≤ a.length) : (splice a pos bs).getD i default =
      if pos ≤ i ∧ i < pos + bs.length then bs.getD (i - pos) default else a.getD i default := by
  have htake : (a.take pos).length = pos := by rw [length_take]; omega
  unfold splice
  simp only [getD_eq_getElem?_getD]
  rw [append_assoc]
  by_cases hlow : i < pos
  · rw [if_neg (by omega), getElem?_append_left (by omega), getElem?_take_of_lt hlow]
  rw [getElem?_append_right (by omega), htake]
  by_cases hin : i - pos < bs.length
  · rw [if_pos (by omega), getElem?_append_left hin]
  · rw [if_neg (by omega), getElem?_append_right (by omega), getElem?_drop,
      show pos + bs.length + (i - pos - bs.length) = i by omega]

/-- A list is written from `pos` on, in two copies. -/
def store (a : List α) (cap pos : Nat) (bs : List α) : List α :=
  splice (splice a pos (bs.take (min bs.length (cap - pos)))) 0 (bs.drop (min bs.length (cap - pos)))

omit [Inhabited α] in
theorem length_store (hpos : pos < cap) (hbs : bs.length ≤ cap)
    (ha : cap ≤ a.length) : (store a cap pos bs).length = a.length := by
  have hfirst : (bs.take (min bs.length (cap - pos))).length = min bs.length (cap - pos) := by
    rw [length_take]; omega
  unfold store
  rw [length_splice, length_splice]
  · rw [hfirst]; omega
  · rw [length_splice (by rw [hfirst]; omega), length_drop]; omega

/-- Place by place, counted from where the writing starts. -/
theorem getD_store (hpos : pos < cap) (hbs : bs.length ≤ cap) (ha : cap ≤ a.length) (hi : i < cap) :
    (store a cap pos bs).getD ((pos + i) % cap) default =
      if i < bs.length then bs.getD i default else a.getD ((pos + i) % cap) default := by
  have hfirst : (bs.take (min bs.length (cap - pos))).length = min bs.length (cap - pos) := by
    rw [length_take]; omega
  have hsecond : (bs.drop (min bs.length (cap - pos))).length = bs.length - min bs.length (cap - pos) :=
    length_drop ..
  unfold store
  rw [getD_splice (by rw [length_splice (by rw [hfirst]; omega)]; omega), getD_splice (by rw [hfirst]; omega)]
  by_cases hwrap : pos + i < cap
  · -- before the end of the circle: only the first copy writes here
    rw [mod_eq_of_lt hwrap]
    rw [if_neg (by omega)]
    by_cases hlt : i < bs.length
    · rw [if_pos (by omega), if_pos hlt, Nat.add_sub_cancel_left]
      simp only [getD_eq_getElem?_getD]
      rw [getElem?_take_of_lt (by omega)]
    · rw [if_neg (by omega), if_neg hlt]
  · -- past the end: only the second copy does
    have hmod : (pos + i) % cap = pos + i - cap := by
      rw [mod_eq_sub_mod (by omega), mod_eq_of_lt (by omega)]
    by_cases hlt : i < bs.length
    · rw [if_pos (by omega), if_pos hlt]
      simp only [getD_eq_getElem?_getD, getElem?_drop]
      congr 2
      omega
    · rw [if_neg (by omega), if_neg (by omega), if_neg hlt]

/-- **What is stored behind a window extends it.** -/
theorem window_store (head : Nat) (hcap : 0 < cap) (hroom : n + bs.length ≤ cap) (ha : cap ≤ a.length) :
    window (store a cap ((head + n) % cap) bs) cap head (n + bs.length) = window a cap head n ++ bs := by
  have hpos : (head + n) % cap < cap := mod_lt _ hcap
  have hold : window (store a cap ((head + n) % cap) bs) cap head n = window a cap head n := by
    refine map_congr_left fun i hi => ?_
    have hi := mem_range.mp hi
    -- seen from where the writing starts, place `i` comes after what is written
    have hplace : (head + i) % cap = ((head + n) % cap + (cap - n + i)) % cap := by
      rw [mod_add_mod, show head + n + (cap - n + i) = head + i + cap by omega, add_mod_right]
    rw [hplace, getD_store hpos (by omega) ha (by omega), if_neg (by omega)]
  have hnew : window (store a cap ((head + n) % cap) bs) cap (head + n) bs.length = bs := by
    refine ext_getElem (by simp) fun i hi hi' => ?_
    have hplace : (head + n + i) % cap = ((head + n) % cap + i) % cap := by rw [mod_add_mod]
    simp only [window, getElem_map, getElem_range]
    rw [hplace, getD_store hpos (by omega) ha (by omega), if_pos hi']
    exact (getElem_eq_getD _).symm
  rw [window_add, hold, hnew]

end Cyclic
