import Mathlib

/-!
# Normalised rows of dual numbers

A normalised row divides each entry by a number that all entries of the row determine. Over dual
numbers the second component of the result is its first-order change, and its sum weighted by
`g` is a sum over the changes of the entries: the weights are the gradient of the row.
-/

namespace DualRow

open DualNumber TrivSqZeroExt Finset

/-- The dual number `a + εb`. -/
def along {K : Type} (a b : K) : K[ε] := (a, b)

variable {ι K : Type} [Field K]

theorem fst_inv_natCast (n : Nat) : ((n : K[ε])⁻¹).fst = (n : K)⁻¹ := by
  rw [fst_inv, fst_natCast]

theorem snd_inv_eq (u : K[ε]) : u⁻¹.snd = -(u.fst⁻¹ * u.fst⁻¹ * u.snd) := by
  rw [snd_inv, op_smul_eq_smul, smul_eq_mul, smul_eq_mul, mul_assoc]

theorem snd_inv_natCast (n : Nat) : ((n : K[ε])⁻¹).snd = 0 := by
  rw [snd_inv_eq, snd_natCast, mul_zero, neg_zero]

/-! ## Elementary functions -/

/-- `E (a + εb) = e a (1 + εb)`. -/
def IsExp (e : K → K) (E : K[ε] → K[ε]) : Prop :=
  ∀ a b, E (along a b) = inl (e a) * (1 + b • ε)

/-- `L (a + εb) = l a + εb/a`. -/
def IsLog (l : K → K) (L : K[ε] → K[ε]) : Prop :=
  ∀ a b, L (along a b) = inl (l a) + (b * a⁻¹) • ε

/-- `R (a + εb) = r a - ε(r a)³b/2`. -/
def IsRecipSqrt (r : K → K) (R : K[ε] → K[ε]) : Prop :=
  ∀ a b, R (along a b) = inl (r a) - (r a ^ 3 * b * 2⁻¹) • ε

variable {e l r : K → K} {E L R : K[ε] → K[ε]}

theorem IsExp.fst (hE : IsExp e E) (u : K[ε]) : (E u).fst = e u.fst := by
  change (E (along u.fst u.snd)).fst = _
  rw [hE]
  simp

theorem IsExp.snd (hE : IsExp e E) (u : K[ε]) : (E u).snd = e u.fst * u.snd := by
  change (E (along u.fst u.snd)).snd = _
  rw [hE]
  simp

theorem IsLog.fst (hL : IsLog l L) (u : K[ε]) : (L u).fst = l u.fst := by
  change (L (along u.fst u.snd)).fst = _
  rw [hL]
  simp

theorem IsLog.snd (hL : IsLog l L) (u : K[ε]) : (L u).snd = u.snd * u.fst⁻¹ := by
  change (L (along u.fst u.snd)).snd = _
  rw [hL]
  simp

theorem IsRecipSqrt.fst (hR : IsRecipSqrt r R) (u : K[ε]) : (R u).fst = r u.fst := by
  change (R (along u.fst u.snd)).fst = _
  rw [hR]
  simp

theorem IsRecipSqrt.snd (hR : IsRecipSqrt r R) (u : K[ε]) :
    (R u).snd = -(r u.fst ^ 3 * u.snd * 2⁻¹) := by
  change (R (along u.fst u.snd)).snd = _
  rw [hR]
  simp

/-! ## Weighted sums -/

section Sums

variable (s : Finset ι) (p g d : ι → K)

/-- The adjoint of taking off the weighted mean. -/
theorem sum_mul_centered : ∑ i ∈ s, g i * (p i * (d i - ∑ j ∈ s, p j * d j)) =
    ∑ i ∈ s, p i * (g i - ∑ j ∈ s, g j * p j) * d i := by
  have hleft : ∀ i, g i * (p i * (d i - ∑ j ∈ s, p j * d j)) =
      g i * p i * d i - g i * p i * ∑ j ∈ s, p j * d j := fun i => by ring
  have hright : ∀ i, p i * (g i - ∑ j ∈ s, g j * p j) * d i =
      g i * p i * d i - (∑ j ∈ s, g j * p j) * (p i * d i) := fun i => by ring
  simp only [hleft, hright, sum_sub_distrib, ← sum_mul, ← mul_sum]

theorem sum_mul_sub_mean : ∑ i ∈ s, g i * (d i - ∑ j ∈ s, p j * d j) =
    ∑ i ∈ s, (g i - p i * ∑ j ∈ s, g j) * d i := by
  have hright : ∀ i, (g i - p i * ∑ j ∈ s, g j) * d i =
      g i * d i - (∑ j ∈ s, g j) * (p i * d i) := fun i => by ring
  simp only [hright, mul_sub, sum_sub_distrib, ← sum_mul, ← mul_sum]

end Sums

/-! ## Softmax -/

section Softmax

variable (s : Finset ι) (u : ι → K[ε]) (m : K[ε])

/-- The sum of the exponentials of the entries, shifted by `m`. -/
def total {S : Type} [AddCommGroup S] (exp : S → S) (s : Finset ι) (x : ι → S) (m : S) : S :=
  ∑ j ∈ s, exp (x j - m)

/-- The share of an entry in the sum of the exponentials. -/
def share {S : Type} [CommRing S] [Inv S] (exp : S → S) (s : Finset ι) (x : ι → S) (m : S)
    (i : ι) : S :=
  exp (x i - m) * (total exp s x m)⁻¹

theorem fst_total (hE : IsExp e E) :
    (total E s u m).fst = total e s (fun i => (u i).fst) m.fst := by
  refine (fst_sum s _).trans (sum_congr rfl fun j _ => ?_)
  rw [hE.fst, fst_sub]

theorem snd_total (hE : IsExp e E) : (total E s u m).snd =
    ∑ j ∈ s, e ((u j).fst - m.fst) * ((u j).snd - m.snd) := by
  refine (snd_sum s _).trans (sum_congr rfl fun j _ => ?_)
  rw [hE.snd, fst_sub, snd_sub]

/-- The shares of a row make up one. -/
theorem sum_share {x : ι → K} {c : K} (h : total e s x c ≠ 0) : ∑ j ∈ s, share e s x c j = 1 := by
  unfold share
  rw [← sum_mul]
  exact mul_inv_cancel₀ h

theorem rate_total (hE : IsExp e E) : (total E s u m).snd * (total E s u m).fst⁻¹ =
    ∑ j ∈ s, share e s (fun i => (u i).fst) m.fst j * ((u j).snd - m.snd) := by
  rw [snd_total s u m hE, fst_total s u m hE, sum_mul]
  exact sum_congr rfl fun j _ => by rw [share]; ring

/-- The change of the shift is taken off from every entry, and so it does not count. -/
theorem snd_share (hE : IsExp e E) (i : ι) : (share E s u m i).snd =
    share e s (fun i => (u i).fst) m.fst i *
      ((u i).snd - ∑ j ∈ s, share e s (fun i => (u i).fst) m.fst j * (u j).snd) := by
  have hquot : (share E s u m i).snd = share e s (fun i => (u i).fst) m.fst i *
      ((u i).snd - m.snd - (total E s u m).snd * (total E s u m).fst⁻¹) := by
    rw [share, DualNumber.snd_mul, snd_inv_eq, fst_inv, hE.fst, hE.snd, fst_sub, snd_sub, share,
      ← fst_total s u m hE]
    ring
  rw [hquot, rate_total s u m hE]
  by_cases htotal : total e s (fun i => (u i).fst) m.fst = 0
  · rw [share, htotal, inv_zero, mul_zero, zero_mul, zero_mul]
  · have hone := sum_share s htotal
    simp only [mul_sub, sum_sub_distrib, ← sum_mul, hone]
    ring

/-- The gradient of the softmax of a row. -/
theorem sum_softmax (hE : IsExp e E) (g : ι → K) :
    ∑ i ∈ s, g i * (share E s u m i).snd =
      ∑ i ∈ s, share e s (fun i => (u i).fst) m.fst i *
        (g i - ∑ j ∈ s, g j * share e s (fun i => (u i).fst) m.fst j) * (u i).snd := by
  simp only [snd_share s u m hE]
  exact sum_mul_centered s _ g _

theorem snd_logShare (hE : IsExp e E) (hL : IsLog l L)
    (htotal : total e s (fun i => (u i).fst) m.fst ≠ 0) (i : ι) :
    (u i - m - L (total E s u m)).snd =
      (u i).snd - ∑ j ∈ s, share e s (fun i => (u i).fst) m.fst j * (u j).snd := by
  have hone := sum_share s htotal
  rw [snd_sub, snd_sub, hL.snd, rate_total s u m hE]
  simp only [mul_sub, sum_sub_distrib, ← sum_mul, hone]
  ring

/-- The gradient of the logarithms of the shares of a row. -/
theorem sum_logSoftmax (hE : IsExp e E) (hL : IsLog l L)
    (htotal : total e s (fun i => (u i).fst) m.fst ≠ 0) (g : ι → K) :
    ∑ i ∈ s, g i * (u i - m - L (total E s u m)).snd =
      ∑ i ∈ s, (g i - share e s (fun i => (u i).fst) m.fst i * ∑ j ∈ s, g j) * (u i).snd := by
  simp only [snd_logShare s u m hE hL htotal]
  exact sum_mul_sub_mean s _ g _

theorem exp_ne_zero (hadd : ∀ a b, e (a + b) = e a * e b) (hzero : e 0 = 1) (a : K) : e a ≠ 0 := by
  intro h
  have hinv := hadd a (-a)
  rw [add_neg_cancel, h, zero_mul, hzero] at hinv
  exact one_ne_zero hinv

/-- The exponential of the logarithm of a share. -/
theorem exp_logShare (hadd : ∀ a b, e (a + b) = e a * e b) (hzero : e 0 = 1) {x : ι → K} {c : K}
    (hlog : e (l (total e s x c)) = total e s x c) (i : ι) :
    e (x i - c - l (total e s x c)) = share e s x c i := by
  have hne := exp_ne_zero hadd hzero (l (total e s x c))
  rw [share, eq_mul_inv_iff_mul_eq₀ (hlog ▸ hne)]
  nth_rewrite 2 [← hlog]
  rw [← hadd, sub_add_cancel]

end Softmax

/-! ## Root mean square -/

section RootMeanSquare

variable (s : Finset ι) (u w : ι → K[ε]) (n : Nat) (eps : K)

/-- The reciprocal of the root mean square of `n` entries. -/
def scale {S : Type} [CommRing S] [Inv S] (recipSqrt : S → S) (s : Finset ι) (x : ι → S) (n : Nat)
    (eps : S) : S :=
  recipSqrt ((∑ j ∈ s, x j * x j) * (n : S)⁻¹ + eps)

theorem fst_scale (hR : IsRecipSqrt r R) :
    (scale R s u n (inl eps)).fst = scale r s (fun i => (u i).fst) n eps := by
  rw [scale, hR.fst, fst_add, fst_mul, fst_inv_natCast, fst_inl, fst_sum]
  simp only [fst_mul]
  rfl

theorem snd_scale [CharZero K] (hR : IsRecipSqrt r R) : (scale R s u n (inl eps)).snd =
    -(scale r s (fun i => (u i).fst) n eps ^ 3 *
      ((∑ j ∈ s, (u j).fst * (u j).snd) * (n : K)⁻¹)) := by
  have hsquares : (∑ j ∈ s, u j * u j).snd = 2 * ∑ j ∈ s, (u j).fst * (u j).snd := by
    refine (snd_sum s _).trans ?_
    rw [mul_sum]
    refine sum_congr rfl fun j _ => ?_
    rw [DualNumber.snd_mul]
    ring
  have htwo : (2 : K) * 2⁻¹ = 1 := mul_inv_cancel₀ two_ne_zero
  have hfst := fst_scale s u n eps hR
  rw [scale, hR.fst] at hfst
  rw [scale, hR.snd, hfst, snd_add, DualNumber.snd_mul, snd_inv_natCast, fst_inv_natCast, snd_inl,
    hsquares]
  linear_combination -(scale r s (fun i => (u i).fst) n eps ^ 3 *
    ((∑ j ∈ s, (u j).fst * (u j).snd) * (n : K)⁻¹)) * htwo

/-- The gradients of the entries and of their weights. -/
theorem sum_rootMeanSquare [CharZero K] (hR : IsRecipSqrt r R) (g : ι → K) :
    ∑ i ∈ s, g i * (u i * scale R s u n (inl eps) * w i).snd =
      (∑ i ∈ s, (scale r s (fun i => (u i).fst) n eps * (g i * (w i).fst) -
        (u i).fst * scale r s (fun i => (u i).fst) n eps *
          (scale r s (fun i => (u i).fst) n eps * scale r s (fun i => (u i).fst) n eps *
            (∑ j ∈ s, g j * (w j).fst * (u j).fst) * (n : K)⁻¹)) * (u i).snd) +
      ∑ i ∈ s, g i * (u i).fst * scale r s (fun i => (u i).fst) n eps * (w i).snd := by
  have hentry : ∀ i, g i * (u i * scale R s u n (inl eps) * w i).snd =
      scale r s (fun i => (u i).fst) n eps * (g i * (w i).fst) * (u i).snd -
        g i * (w i).fst * (u i).fst * (scale r s (fun i => (u i).fst) n eps ^ 3 *
          ((∑ j ∈ s, (u j).fst * (u j).snd) * (n : K)⁻¹)) +
        g i * (u i).fst * scale r s (fun i => (u i).fst) n eps * (w i).snd := by
    intro i
    rw [DualNumber.snd_mul, DualNumber.snd_mul, fst_mul, fst_scale s u n eps hR,
      snd_scale s u n eps hR]
    ring
  simp only [hentry, sum_add_distrib, sum_sub_distrib, sub_mul, ← sum_mul]
  -- The change of the scale, weighted by the gradients, is a multiple of the row.
  have hcross : ∀ c D : K, ∑ i ∈ s, (u i).fst * c * (c * c * D * (n : K)⁻¹) * (u i).snd =
      D * (c ^ 3 * ((∑ j ∈ s, (u j).fst * (u j).snd) * (n : K)⁻¹)) := by
    intro c D
    rw [sum_mul, mul_sum, mul_sum]
    exact sum_congr rfl fun i _ => by ring
  rw [hcross]

end RootMeanSquare

/-! ## Rotation -/

section Rotation

variable {R : Type} [CommRing R] {n k : Nat}

/-- The first `k` entries of a row are rotated with the `k` entries that follow; the rest stays. -/
def rotate (k : Nat) (c s x : Nat → R) (i : Nat) : R :=
  if i < k then x i * c i - x (i + k) * s i
  else if i < k + k then x i * c (i - k) + x (i - k) * s (i - k)
  else x i

theorem rotate_left {i : Nat} (hi : i < k) (c s x : Nat → R) :
    rotate k c s x i = x i * c i - x (i + k) * s i := if_pos hi

theorem rotate_right {i : Nat} (hi : i < k) (c s x : Nat → R) :
    rotate k c s x (k + i) = x (k + i) * c i + x i * s i := by
  rw [rotate, if_neg (by omega), if_pos (by omega), Nat.add_sub_cancel_left]

theorem rotate_rest (i : Nat) (c s x : Nat → R) :
    rotate k c s x (k + k + i) = x (k + k + i) := by
  rw [rotate, if_neg (by omega), if_neg (by omega)]

/-- The adjoint of a rotation is the rotation back. -/
theorem sum_rotate (hk : k + k ≤ n) (c s g x : Nat → R) :
    ∑ i ∈ range n, g i * rotate k c s x i =
      ∑ i ∈ range n, rotate k c (fun i => -s i) g i * x i := by
  obtain ⟨rest, rfl⟩ := Nat.exists_eq_add_of_le hk
  have hpair : ∀ i ∈ range k, g i * rotate k c s x i + g (k + i) * rotate k c s x (k + i) =
      rotate k c (fun i => -s i) g i * x i + rotate k c (fun i => -s i) g (k + i) * x (k + i) := by
    intro i hi
    have hi := mem_range.mp hi
    rw [rotate_left hi, rotate_right hi, rotate_left hi, rotate_right hi, Nat.add_comm i k]
    ring
  simp only [sum_range_add, rotate_rest]
  rw [← sum_add_distrib, ← sum_add_distrib, sum_congr rfl hpair]

theorem fst_rotate (c s : Nat → K) (u : Nat → K[ε]) (i : Nat) :
    (rotate k (fun i => inl (c i)) (fun i => inl (s i)) u i).fst =
      rotate k c s (fun i => (u i).fst) i := by
  unfold rotate
  split
  · simp
  · split <;> simp

theorem snd_rotate (c s : Nat → K) (u : Nat → K[ε]) (i : Nat) :
    (rotate k (fun i => inl (c i)) (fun i => inl (s i)) u i).snd =
      rotate k c s (fun i => (u i).snd) i := by
  unfold rotate
  split
  · simp [mul_comm]
  · split <;> simp [mul_comm]

end Rotation

end DualRow
