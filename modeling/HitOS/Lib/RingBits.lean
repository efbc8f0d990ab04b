import Mathlib

/-!
# Sets of numbers in a ring of words

A ring of `N` words of `B` bits shows a set of numbers on its last `N` words: bit `b` of word `i`,
which is kept at place `i % N`, says whether `B * i + b` is in the set.

* `Shows.mem_iff` — the bit of a number that is not too far behind;
* `Shows.advance` — the ring moves on to a later word, and the words in between are cleared;
* `Shows.insert` — a bit is set.
-/

namespace RingBits

open Nat

variable {N B : Nat}

/-- The ring shows a set on the `N` words up to `top`. -/
def Shows (N B : Nat) (bits : Nat → Nat → Bool) (top : Nat) (S : Set Nat) : Prop :=
  ∀ i b, i ≤ top → top < i + N → b < B → (bits (i % N) b = true ↔ B * i + b ∈ S)

variable {bits bits' : Nat → Nat → Bool} {top top' n : Nat} {S : Set Nat}

theorem Shows.mem_iff (h : Shows N B bits top S) (hB : 0 < B) (hle : n / B ≤ top) (hlt : top < n / B + N) :
    bits (n / B % N) (n % B) = true ↔ n ∈ S := by
  rw [h (n / B) (n % B) hle hlt (mod_lt n hB), div_add_mod]

/-- Two words of which at most `N` are between have different places. -/
theorem mod_ne_mod {i j : Nat} (hij : i < j) (hlt : j < i + N) : j % N ≠ i % N := by
  intro heq
  obtain ⟨d, rfl⟩ := Nat.exists_eq_add_of_lt hij
  have hd : d + 1 < N := by omega
  have hmod : (i + (d + 1)) % N = (i + 0) % N := heq
  have hzero : d + 1 ≡ 0 [MOD N] := ModEq.add_left_cancel' i hmod
  rw [ModEq, mod_eq_of_lt hd] at hzero
  cases hzero

/-- The ring moves on: the places of the new words are cleared, the others stay. -/
theorem Shows.advance (h : Shows N B bits top S) (hS : ∀ n ∈ S, n / B ≤ top) (htop : top ≤ top')
    (hclear : ∀ i b, top < i → i ≤ top' → top' < i + N → bits' (i % N) b = false)
    (hkeep : ∀ i b, i ≤ top → top' < i + N → bits' (i % N) b = bits (i % N) b) : Shows N B bits' top' S := by
  intro i b hi hlt hb
  by_cases hnew : top < i
  · -- a new word, and all numbers of the set are in older ones
    rw [hclear i b hnew hi hlt]
    refine iff_of_false nofun fun hmem => ?_
    have hdiv : (B * i + b) / B = i := by
      rw [mul_add_div (zero_lt_of_lt hb), div_eq_of_lt hb, add_zero]
    have := hS _ hmem
    omega
  · have hle : i ≤ top := not_lt.mp hnew
    rw [hkeep i b hle hlt]
    exact h i b hle (by omega) hb

/-- A bit is set. -/
theorem Shows.insert (h : Shows N B bits top S) (hB : 0 < B) (hle : n / B ≤ top) (hlt : top < n / B + N)
    (hset : ∀ i b, i ≤ top → top < i + N → b < B →
      (bits' (i % N) b = true ↔ bits (i % N) b = true ∨ i % N = n / B % N ∧ b = n % B)) :
    Shows N B bits' top (insert n S) := by
  intro i b hi hlt' hb
  rw [hset i b hi hlt' hb, h i b hi hlt' hb, or_comm]
  refine or_congr ⟨fun ⟨hplace, hbit⟩ => ?_, fun heq => ?_⟩ Iff.rfl
  · -- the word is the one of the number, as both are in the ring
    have hword : i = n / B := by
      by_contra hne
      obtain hlt₁ | hlt₁ := lt_or_gt_of_ne hne
      · exact mod_ne_mod hlt₁ (by omega) hplace.symm
      · exact mod_ne_mod hlt₁ (by omega) hplace
    rw [hword, hbit, div_add_mod]
  · subst heq
    rw [mul_add_div hB, div_eq_of_lt hb, mul_add_mod, mod_eq_of_lt hb]
    exact ⟨rfl, rfl⟩

end RingBits
