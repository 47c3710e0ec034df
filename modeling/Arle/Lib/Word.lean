import Mathlib

/-!
# Machine words as natural numbers

A word of `w` bits is a natural number below `2 ^ w`. The operations are the ones a
systems language offers on it: arithmetic that wraps, addition that saturates, and arithmetic
that fails on overflow. A result of signed arithmetic is a natural number below half of that,
where it is not negative.
-/

namespace Word

/-- The largest value of a word of `w` bits. -/
def maxVal (w : Nat) : Nat := 2 ^ w - 1

/-- Addition modulo `2 ^ w`. -/
def wrappingAdd (w a b : Nat) : Nat := (a + b) % 2 ^ w

/-- Subtraction modulo `2 ^ w`. -/
def wrappingSub (w a b : Nat) : Nat := (a + 2 ^ w - b) % 2 ^ w

/-- Multiplication modulo `2 ^ w`. -/
def wrappingMul (w a b : Nat) : Nat := a * b % 2 ^ w

/-- Addition that stops at the largest word. -/
def saturatingAdd (w a b : Nat) : Nat := min (a + b) (maxVal w)

/-- Addition that fails on overflow. -/
def checkedAdd (w a b : Nat) : Option Nat := if a + b ≤ maxVal w then some (a + b) else none

/-- Subtraction that fails below zero. -/
def checkedSub (a b : Nat) : Option Nat := if b ≤ a then some (a - b) else none

/-- The exact result `n` of signed arithmetic in words of `w` bits; there is none on overflow. -/
def signed (w n : Nat) : Option Nat := if n < 2 ^ (w - 1) then some n else none

theorem wrappingAdd_of_lt {w a b : Nat} (h : a + b < 2 ^ w) : wrappingAdd w a b = a + b :=
  Nat.mod_eq_of_lt h

theorem wrappingSub_of_le {w a b : Nat} (h : b ≤ a) (ha : a < 2 ^ w) :
    wrappingSub w a b = a - b := by
  rw [wrappingSub, show a + 2 ^ w - b = a - b + 2 ^ w by omega, Nat.add_mod_right]
  exact Nat.mod_eq_of_lt (by omega)

theorem wrappingMul_of_lt {w a b : Nat} (h : a * b < 2 ^ w) : wrappingMul w a b = a * b :=
  Nat.mod_eq_of_lt h

theorem checkedAdd_eq_some {w a b c : Nat} :
    checkedAdd w a b = some c ↔ a + b ≤ maxVal w ∧ c = a + b := by
  unfold checkedAdd
  split
  · rename_i h
    simp [h, eq_comm]
  · rename_i h
    simp [h]

theorem checkedSub_eq_some {a b c : Nat} : checkedSub a b = some c ↔ b ≤ a ∧ c = a - b := by
  unfold checkedSub
  split
  · rename_i h
    simp [h, eq_comm]
  · rename_i h
    simp [h]

theorem signed_of_lt {w n : Nat} (h : n < 2 ^ (w - 1)) : signed w n = some n := if_pos h

theorem signed_bind {α : Type} {w n : Nat} {f : Nat → Option α} (h : n < 2 ^ (w - 1)) :
    (signed w n >>= f) = f n := by
  rw [signed_of_lt h]
  rfl

theorem signed_eq_some {w n m : Nat} : signed w n = some m ↔ n < 2 ^ (w - 1) ∧ n = m := by
  unfold signed
  split
  · rename_i h
    simp [h]
  · rename_i h
    simp [h]

end Word
