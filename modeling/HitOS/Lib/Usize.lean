import Mathlib

/-!
# Machine-word arithmetic on natural numbers

A 64-bit `usize` is a natural number at most `usizeMax`. The saturating and wrapping additions are
written out; saturating subtraction is truncated subtraction of natural numbers. `clamp` is the
three-way clamp of an ordered type.
-/

/-- The greatest `usize` of a 64-bit target. -/
def usizeMax : Nat := 2 ^ 64 - 1

/-- `a.saturating_add(b)`. -/
def satAdd (a b : Nat) : Nat := min (a + b) usizeMax

/-- `a + b` as the release build computes it, modulo the word size. -/
def wrapAdd (a b : Nat) : Nat := (a + b) % (usizeMax + 1)

/-- `a.saturating_mul(b)`. -/
def satMul (a b : Nat) : Nat := min (a * b) usizeMax

def clamp (x lo hi : Nat) : Nat := if x < lo then lo else if hi < x then hi else x

theorem satAdd_of_le {a b : Nat} (h : a + b ≤ usizeMax) : satAdd a b = a + b := Nat.min_eq_left h

theorem satAdd_le_add (a b : Nat) : satAdd a b ≤ a + b := Nat.min_le_left _ _

theorem satAdd_le_max (a b : Nat) : satAdd a b ≤ usizeMax := Nat.min_le_right _ _

/-- Saturation is absorbed by a second saturating addition. -/
theorem satAdd_satAdd (a b c : Nat) : satAdd (satAdd a b) c = satAdd a (b + c) := by
  unfold satAdd
  omega

theorem wrapAdd_of_le {a b : Nat} (h : a + b ≤ usizeMax) : wrapAdd a b = a + b :=
  Nat.mod_eq_of_lt (Nat.lt_succ_of_le h)

theorem wrapAdd_wrapAdd (a b c : Nat) : wrapAdd (wrapAdd a b) c = wrapAdd a (b + c) := by
  unfold wrapAdd
  rw [Nat.mod_add_mod, Nat.add_assoc]
