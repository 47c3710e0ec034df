import Mathlib

/-!
# The delta rule

A memory of key and value pairs is a matrix. Each step decays it, reads it at a key, writes the
corrected value at this key and reads it at a query. The derivative of a run is a run over dual
numbers, and the gradients of the rows are found by threading the gradient of the memory
backwards (`sum_rate_out`).
-/

open Matrix

namespace DeltaRule

/-! ## Arrays of dual numbers -/

section Dual

open DualNumber

variable {ι κ ν R : Type}

/-- The array `u` that changes in the direction `u'`. -/
def along (u u' : ι → R) : ι → R[ε] := fun i => (u i, u' i)

/-- The rates of change of an array. -/
def rate (u : ι → R[ε]) : ι → R := fun i => (u i).snd

def value (u : ι → R[ε]) : ι → R := fun i => (u i).fst

def rates (A : Matrix κ ν R[ε]) : Matrix κ ν R := A.map TrivSqZeroExt.snd

def values (A : Matrix κ ν R[ε]) : Matrix κ ν R := A.map TrivSqZeroExt.fst

variable [CommRing R]

theorem value_smul (c : R[ε]) (u : ι → R[ε]) : value (c • u) = c.fst • value u := by
  funext i
  exact TrivSqZeroExt.fst_mul _ _

theorem rate_smul (c : R[ε]) (u : ι → R[ε]) :
    rate (c • u) = c.fst • rate u + c.snd • value u := by
  funext i
  exact DualNumber.snd_mul _ _

theorem value_sub (u w : ι → R[ε]) : value (u - w) = value u - value w := rfl

theorem rate_sub (u w : ι → R[ε]) : rate (u - w) = rate u - rate w := rfl

theorem values_add (A B : Matrix κ ν R[ε]) : values (A + B) = values A + values B := rfl

theorem rates_add (A B : Matrix κ ν R[ε]) : rates (A + B) = rates A + rates B := rfl

theorem values_smul (c : R[ε]) (A : Matrix κ ν R[ε]) : values (c • A) = c.fst • values A := by
  ext i j
  exact TrivSqZeroExt.fst_mul _ _

theorem rates_smul (c : R[ε]) (A : Matrix κ ν R[ε]) :
    rates (c • A) = c.fst • rates A + c.snd • values A := by
  ext i j
  exact DualNumber.snd_mul _ _

theorem values_vecMulVec (u : κ → R[ε]) (w : ν → R[ε]) :
    values (vecMulVec u w) = vecMulVec (value u) (value w) := by
  ext i j
  exact TrivSqZeroExt.fst_mul _ _

theorem rates_vecMulVec (u : κ → R[ε]) (w : ν → R[ε]) :
    rates (vecMulVec u w) = vecMulVec (value u) (rate w) + vecMulVec (rate u) (value w) := by
  ext i j
  exact DualNumber.snd_mul _ _

variable [Fintype κ]

theorem value_vecMul (u : κ → R[ε]) (A : Matrix κ ν R[ε]) :
    value (u ᵥ* A) = value u ᵥ* values A := by
  funext j
  refine (TrivSqZeroExt.fst_sum _ _).trans (Finset.sum_congr rfl fun i _ => ?_)
  exact TrivSqZeroExt.fst_mul _ _

theorem rate_vecMul (u : κ → R[ε]) (A : Matrix κ ν R[ε]) :
    rate (u ᵥ* A) = value u ᵥ* rates A + rate u ᵥ* values A := by
  funext j
  refine (TrivSqZeroExt.snd_sum _ _).trans ?_
  refine Eq.trans ?_ Finset.sum_add_distrib
  exact Finset.sum_congr rfl fun i _ => DualNumber.snd_mul _ _

end Dual

/-! ## Steps and runs -/

variable {κ ν R : Type} [Fintype κ] [CommRing R]

/-- What one step reads. -/
structure Row (κ ν R : Type) where
  q : κ → R
  k : κ → R
  v : ν → R
  beta : R
  decay : R

namespace Row

instance : Zero (Row κ ν R) := ⟨⟨0, 0, 0, 0, 0⟩⟩

variable (x : Row κ ν R) (S : Matrix κ ν R)

def decayed : Matrix κ ν R := x.decay • S

/-- The value that the memory has at the key. -/
def memory : ν → R := x.k ᵥ* x.decayed S

def delta : ν → R := x.beta • (x.v - x.memory S)

/-- The memory after the step. -/
def next : Matrix κ ν R := x.decayed S + vecMulVec x.k (x.delta S)

def out : ν → R := x.q ᵥ* x.next S

/-! ## Gradients of one step

`g` is the gradient of the output and `G` that of the memory after the step. -/

variable (g : ν → R) (G : Matrix κ ν R)

/-- The gradient of the memory after the step, the output included. -/
def nextGrad : Matrix κ ν R := G + vecMulVec x.q g

def deltaGrad : ν → R := x.k ᵥ* x.nextGrad g G

def memoryGrad : ν → R := -(x.beta • x.deltaGrad g G)

def decayedGrad : Matrix κ ν R := x.nextGrad g G + vecMulVec x.k (x.memoryGrad g G)

def stateGrad : Matrix κ ν R := x.decay • x.decayedGrad g G

variable [Fintype ν]

/-- The inner product of matrices. -/
def inner (A B : Matrix κ ν R) : R := ∑ i, A i ⬝ᵥ B i

def grad : Row κ ν R where
  q := x.next S *ᵥ g
  k := x.nextGrad g G *ᵥ x.delta S + x.decayed S *ᵥ x.memoryGrad g G
  v := x.beta • x.deltaGrad g G
  beta := (x.v - x.memory S) ⬝ᵥ x.deltaGrad g G
  decay := inner S (x.decayedGrad g G)

/-- The inner product of rows. -/
def dot (x y : Row κ ν R) : R :=
  x.q ⬝ᵥ y.q + x.k ⬝ᵥ y.k + x.v ⬝ᵥ y.v + x.beta * y.beta + x.decay * y.decay

end Row

/-- The memory after `t` steps. -/
def state (x : ℕ → Row κ ν R) : ℕ → Matrix κ ν R
  | 0 => 0
  | t + 1 => (x t).next (state x t)

/-- The gradient of the memory before the last `n` of `T` steps. -/
def stateGradBack (x : ℕ → Row κ ν R) (g : ℕ → ν → R) (T : ℕ) : ℕ → Matrix κ ν R
  | 0 => 0
  | n + 1 => (x (T - (n + 1))).stateGrad (g (T - (n + 1))) (stateGradBack x g T n)

/-- The gradient of the memory after `t` of `T` steps. -/
def stateGrad (x : ℕ → Row κ ν R) (g : ℕ → ν → R) (T t : ℕ) : Matrix κ ν R :=
  stateGradBack x g T (T - t)

theorem stateGrad_end (x : ℕ → Row κ ν R) (g : ℕ → ν → R) (T : ℕ) : stateGrad x g T T = 0 := by
  rw [stateGrad, Nat.sub_self, stateGradBack]

theorem stateGrad_of_lt (x : ℕ → Row κ ν R) (g : ℕ → ν → R) {T t : ℕ} (h : t < T) :
    stateGrad x g T t = (x t).stateGrad (g t) (stateGrad x g T (t + 1)) := by
  have hsteps : T - t = T - (t + 1) + 1 := by omega
  have hback : T - (T - (t + 1) + 1) = t := by omega
  rw [stateGrad, hsteps, stateGradBack, hback]
  rfl

/-! ## The adjoint -/

namespace Row

open DualNumber

/-- The row `x` that changes in the direction `x'`. -/
def along (x x' : Row κ ν R) : Row κ ν R[ε] where
  q := DeltaRule.along x.q x'.q
  k := DeltaRule.along x.k x'.k
  v := DeltaRule.along x.v x'.v
  beta := (x.beta, x'.beta)
  decay := (x.decay, x'.decay)

variable (x x' : Row κ ν R) (S : Matrix κ ν R[ε])

omit [Fintype κ] in
theorem values_decayed : values ((along x x').decayed S) = x.decayed (values S) := values_smul _ _

theorem value_memory : value ((along x x').memory S) = x.memory (values S) := by
  rw [memory, value_vecMul, values_decayed]
  rfl

theorem value_delta : value ((along x x').delta S) = x.delta (values S) := by
  rw [delta, value_smul, value_sub, value_memory]
  rfl

theorem values_next : values ((along x x').next S) = x.next (values S) := by
  rw [next, values_add, values_decayed, values_vecMulVec, value_delta]
  rfl

theorem value_out : value ((along x x').out S) = x.out (values S) := by
  rw [out, value_vecMul, values_next]
  rfl

omit [Fintype κ] in
theorem rates_decayed :
    rates ((along x x').decayed S) = x.decay • rates S + x'.decay • values S := rates_smul _ _

theorem rate_memory : rate ((along x x').memory S) =
    x.k ᵥ* rates ((along x x').decayed S) + x'.k ᵥ* x.decayed (values S) := by
  rw [memory, rate_vecMul, values_decayed]
  rfl

theorem rate_delta : rate ((along x x').delta S) =
    x.beta • (x'.v - rate ((along x x').memory S)) +
      x'.beta • (x.v - x.memory (values S)) := by
  rw [delta, rate_smul, rate_sub, value_sub, value_memory]
  rfl

theorem rates_next : rates ((along x x').next S) = rates ((along x x').decayed S) +
    (vecMulVec x.k (rate ((along x x').delta S)) + vecMulVec x'.k (x.delta (values S))) := by
  rw [next, rates_add, rates_vecMulVec, value_delta]
  rfl

theorem rate_out : rate ((along x x').out S) =
    x.q ᵥ* rates ((along x x').next S) + x'.q ᵥ* x.next (values S) := by
  rw [out, rate_vecMul, values_next]
  rfl

section Inner

variable [Fintype ν]

variable (A B C : Matrix κ ν R)

theorem inner_add_left : inner (A + B) C = inner A C + inner B C := by
  refine Eq.trans (Finset.sum_congr rfl fun i _ => ?_) Finset.sum_add_distrib
  exact add_dotProduct _ _ _

theorem inner_add_right : inner A (B + C) = inner A B + inner A C := by
  refine Eq.trans (Finset.sum_congr rfl fun i _ => ?_) Finset.sum_add_distrib
  exact dotProduct_add _ _ _

theorem inner_smul_left (c : R) : inner (c • A) B = c * inner A B := by
  refine Eq.trans (Finset.sum_congr rfl fun i _ => ?_) (Finset.mul_sum _ _ _).symm
  exact smul_dotProduct c (A i) (B i)

theorem inner_smul_right (c : R) : inner A (c • B) = c * inner A B := by
  refine Eq.trans (Finset.sum_congr rfl fun i _ => ?_) (Finset.mul_sum _ _ _).symm
  exact dotProduct_smul c (A i) (B i)

theorem inner_vecMulVec (u : κ → R) (w : ν → R) : inner A (vecMulVec u w) = u ᵥ* A ⬝ᵥ w := by
  rw [← dotProduct_mulVec]
  refine Finset.sum_congr rfl fun i _ => ?_
  exact dotProduct_smul (u i) (A i) w

theorem vecMulVec_inner (u : κ → R) (w : ν → R) : inner (vecMulVec u w) B = u ⬝ᵥ (B *ᵥ w) := by
  refine Finset.sum_congr rfl fun i _ => ?_
  refine (smul_dotProduct (u i) w (B i)).trans ?_
  rw [dotProduct_comm]
  rfl

variable (g : ν → R) (G H D : Matrix κ ν R)

theorem rate_out_dotProduct : rate ((along x x').out S) ⬝ᵥ g =
    inner (rates ((along x x').next S)) (vecMulVec x.q g) + x'.q ⬝ᵥ (x.next (values S) *ᵥ g) := by
  rw [rate_out, add_dotProduct, inner_vecMulVec, dotProduct_mulVec]

theorem rates_next_inner : inner (rates ((along x x').next S)) H =
    inner (rates ((along x x').decayed S)) H + rate ((along x x').delta S) ⬝ᵥ (x.k ᵥ* H) +
      x'.k ⬝ᵥ (H *ᵥ x.delta (values S)) := by
  rw [rates_next, inner_add_left, inner_add_left, vecMulVec_inner, vecMulVec_inner,
    dotProduct_mulVec, dotProduct_comm (x.k ᵥ* H), add_assoc]

theorem rate_delta_dotProduct (d : ν → R) : rate ((along x x').delta S) ⬝ᵥ d =
    x'.v ⬝ᵥ (x.beta • d) + x'.beta * ((x.v - x.memory (values S)) ⬝ᵥ d) +
      rate ((along x x').memory S) ⬝ᵥ -(x.beta • d) := by
  rw [rate_delta, add_dotProduct, smul_dotProduct, smul_dotProduct, sub_dotProduct,
    dotProduct_neg, dotProduct_smul, dotProduct_smul]
  simp only [smul_eq_mul]
  ring

theorem rate_memory_dotProduct (d : ν → R) : rate ((along x x').memory S) ⬝ᵥ d =
    inner (rates ((along x x').decayed S)) (vecMulVec x.k d) +
      x'.k ⬝ᵥ (x.decayed (values S) *ᵥ d) := by
  rw [rate_memory, add_dotProduct, inner_vecMulVec, dotProduct_mulVec]

theorem rates_decayed_inner : inner (rates ((along x x').decayed S)) D =
    inner (rates S) (x.decay • D) + x'.decay * inner (values S) D := by
  rw [rates_decayed, inner_add_left, inner_smul_left, inner_smul_left, inner_smul_right]

/-- The gradients of one step: what its output and the memory after it change is what its row and
the memory before it change. -/
theorem rate_step : rate ((along x x').out S) ⬝ᵥ g + inner (rates ((along x x').next S)) G =
    x'.dot (x.grad (values S) g G) + inner (rates S) (x.stateGrad g G) := by
  have hnext : rate ((along x x').out S) ⬝ᵥ g + inner (rates ((along x x').next S)) G =
      inner (rates ((along x x').next S)) (x.nextGrad g G) +
        x'.q ⬝ᵥ (x.next (values S) *ᵥ g) := by
    rw [rate_out_dotProduct, nextGrad, inner_add_right]
    ring
  have hdecayed : inner (rates ((along x x').decayed S)) (x.decayedGrad g G) =
      inner (rates ((along x x').decayed S)) (x.nextGrad g G) +
        inner (rates ((along x x').decayed S)) (vecMulVec x.k (x.memoryGrad g G)) :=
    inner_add_right _ _ _
  have hdelta := rate_delta_dotProduct x x' S (x.deltaGrad g G)
  rw [← memoryGrad, rate_memory_dotProduct] at hdelta
  rw [rates_decayed_inner] at hdecayed
  rw [hnext, rates_next_inner, ← deltaGrad, hdelta]
  simp only [dot, grad, stateGrad, dotProduct_add]
  linear_combination -hdecayed

end Inner

end Row

open DualNumber

variable (x x' : ℕ → Row κ ν R)

/-- A run whose rows change. -/
def stateAlong : ℕ → Matrix κ ν R[ε] := state fun t => (x t).along (x' t)

theorem values_stateAlong (t : ℕ) : values (stateAlong x x' t) = state x t := by
  induction t with
  | zero => rfl
  | succ t ih =>
    refine (Row.values_next (x t) (x' t) (stateAlong x x' t)).trans ?_
    rw [ih]
    rfl

variable [Fintype ν]

/-- The gradient of the row of step `t`. -/
def grad (x : ℕ → Row κ ν R) (g : ℕ → ν → R) (T t : ℕ) : Row κ ν R :=
  (x t).grad (state x t) (g t) (stateGrad x g T (t + 1))

/-- The gradients of a run: what its outputs change is what its rows change. -/
theorem sum_rate_out (g : ℕ → ν → R) (T : ℕ) :
    ∑ t ∈ Finset.range T, rate (((x t).along (x' t)).out (stateAlong x x' t)) ⬝ᵥ g t =
      ∑ t ∈ Finset.range T, (x' t).dot (grad x g T t) := by
  -- what the memory changes is carried from the gradient after a step to the one before it
  let carried : ℕ → R := fun t => Row.inner (rates (stateAlong x x' t)) (stateGrad x g T t)
  have hstart : carried 0 = 0 := Finset.sum_eq_zero fun i _ => zero_dotProduct _
  have hend : carried T = 0 := by
    change Row.inner _ (stateGrad x g T T) = 0
    rw [stateGrad_end]
    exact Finset.sum_eq_zero fun i _ => dotProduct_zero _
  have hstep : ∀ t ∈ Finset.range T,
      rate (((x t).along (x' t)).out (stateAlong x x' t)) ⬝ᵥ g t + carried (t + 1) =
        (x' t).dot (grad x g T t) + carried t := by
    intro t ht
    have h := Row.rate_step (x t) (x' t) (stateAlong x x' t) (g t) (stateGrad x g T (t + 1))
    rw [values_stateAlong, ← stateGrad_of_lt x g (Finset.mem_range.mp ht)] at h
    exact h
  have hsum := Finset.sum_congr rfl hstep
  have hshift : ∑ t ∈ Finset.range T, carried (t + 1) = ∑ t ∈ Finset.range T, carried t := by
    have h := (Finset.sum_range_succ' carried T).symm.trans (Finset.sum_range_succ carried T)
    rwa [hstart, hend, add_zero, add_zero] at h
  rw [Finset.sum_add_distrib, Finset.sum_add_distrib, hshift] at hsum
  exact add_right_cancel hsum

end DeltaRule
