import Mathlib

/-!
# Maps keyed by the windows of a word

A word is cut into windows of `size` letters. `recordWindows` stores one value for each
prefix that ends a window, and `Covered M w k` says that the first `k` such prefixes of `w`
have a value. The first section is the arithmetic of an offset that moves within a window.
-/

universe u v

/-! ## Offsets within a window -/

section Offset

variable {size len k : Nat}

theorem add_mod_of_within (h : len % size + k < size) : (len + k) % size = len % size + k := by
  rw [Nat.add_mod, Nat.mod_eq_of_lt (show k < size by omega), Nat.mod_eq_of_lt h]

theorem add_div_of_within (h : len % size + k < size) : (len + k) / size = len / size := by
  have hsum := Nat.div_add_mod len size
  refine Nat.div_eq_of_lt_le ?_ ?_
  · rw [Nat.mul_comm]
    omega
  · rw [Nat.add_mul, Nat.one_mul, Nat.mul_comm]
    omega

/-- A move that stays within the window reaches its end only as a whole. -/
theorem within_of_not_dvd (h : len % size + k ≤ size) (hne : ¬ size ∣ len + k) :
    len % size + k < size := by
  refine Nat.lt_of_le_of_ne h fun heq => hne ?_
  have hsum := Nat.div_add_mod len size
  refine ⟨len / size + 1, ?_⟩
  rw [Nat.mul_add, Nat.mul_one]
  omega

theorem not_dvd_of_within (hk : 0 < k) (h : len % size + k < size) : ¬ size ∣ len + k := by
  intro hdvd
  have := Nat.mod_eq_zero_of_dvd hdvd
  rw [add_mod_of_within h] at this
  omega

theorem add_eq_of_dvd (hk : 0 < k) (h : len % size + k ≤ size) (hdvd : size ∣ len + k) :
    len + k = (len / size + 1) * size := by
  have hsum := Nat.div_add_mod len size
  rcases Nat.lt_or_eq_of_le h with hlt | heq
  · exact absurd hdvd (not_dvd_of_within hk hlt)
  · rw [Nat.add_mul, Nat.one_mul, Nat.mul_comm]
    omega

end Offset

/-! ## Recording windows -/

/-- A map from words to values. -/
abbrev WindowMap (τ : Type u) (β : Type v) := List τ → Option β

namespace WindowMap

variable {τ : Type u} {β : Type v} [DecidableEq τ]

/-- Store the first `n` values at the prefixes of `w` that end the first `n` windows. -/
def recordWindows (size : Nat) (w : List τ) (values : List β) (M : WindowMap τ β) :
    Nat → WindowMap τ β
  | 0 => M
  | n + 1 => Function.update (recordWindows size w values M n) (w.take ((n + 1) * size)) values[n]?

/-- Store a value for every full window of `w` that has one. -/
def record (size : Nat) (w : List τ) (values : List β) (M : WindowMap τ β) : WindowMap τ β :=
  recordWindows size w values M (min values.length (w.length / size))

/-- The prefixes of `w` that end its first `k` windows have a value. -/
def Covered (size : Nat) (M : WindowMap τ β) (w : List τ) (k : Nat) : Prop :=
  ∀ i < k, (i + 1) * size ≤ w.length ∧ M (w.take ((i + 1) * size)) ≠ none

section Record

variable {size : Nat} {w : List τ} {values : List β} {M : WindowMap τ β}

omit [DecidableEq τ] in
theorem take_window_inj (hsize : 0 < size) {i j : Nat} (hi : (i + 1) * size ≤ w.length)
    (hj : (j + 1) * size ≤ w.length)
    (h : w.take ((i + 1) * size) = w.take ((j + 1) * size)) : i = j := by
  have := congrArg List.length h
  rw [List.length_take, List.length_take, Nat.min_eq_left hi, Nat.min_eq_left hj] at this
  have := Nat.eq_of_mul_eq_mul_right hsize this
  omega

/-- A recorded window has its value. -/
theorem recordWindows_window (hsize : 0 < size) {n i : Nat} (hi : i < n)
    (hn : n * size ≤ w.length) :
    recordWindows size w values M n (w.take ((i + 1) * size)) = values[i]? := by
  induction n with
  | zero => omega
  | succ n ih =>
    rw [recordWindows]
    by_cases hin : i = n
    · rw [hin, Function.update_self]
    · have hle : ∀ {m}, m ≤ n + 1 → m * size ≤ w.length := fun hm =>
        Nat.le_trans (Nat.mul_le_mul_right size hm) hn
      rw [Function.update_of_ne fun h => hin (take_window_inj hsize (hle (by omega))
        (hle (Nat.le_refl _)) h)]
      exact ih (by omega) (hle (by omega))

/-- Other words keep their values. -/
theorem recordWindows_other {n : Nat} {p : List τ} (h : ∀ i < n, p ≠ w.take ((i + 1) * size)) :
    recordWindows size w values M n p = M p := by
  induction n with
  | zero => rfl
  | succ n ih =>
    rw [recordWindows, Function.update_of_ne (h n (Nat.lt_succ_self n))]
    exact ih fun i hi => h i (Nat.lt_succ_of_lt hi)

/-- Only the recorded part of the word matters. -/
theorem recordWindows_take {n len : Nat} (hn : n * size ≤ len) :
    recordWindows size (w.take len) values M n = recordWindows size w values M n := by
  induction n with
  | zero => rfl
  | succ n ih =>
    rw [recordWindows, recordWindows, ih (Nat.le_trans (Nat.mul_le_mul_right _ (by omega)) hn),
      List.take_take, Nat.min_eq_left hn]

end Record

end WindowMap
