import Mathlib

/-!
# Runs of a state machine

A state machine is a relation `step s a t`: the operation `a` can take the state `s` to
the state `t`. `Run step s ops t` is a run of the operations `ops` from `s` to `t`;
`Reachable init step t` says that some run from an initial state ends in `t`.
`guarded C step` is the machine whose steps are those of `step` that satisfy the
condition `C` on the operation and the state before it.
-/

section

variable {σ ι : Type}

/-- A run: the operations are performed one after the other. -/
inductive Run (step : σ → ι → σ → Prop) : σ → List ι → σ → Prop
  | nil (s : σ) : Run step s [] s
  | cons {s t u : σ} {a : ι} {ops : List ι} (h : step s a t) (rest : Run step t ops u) :
      Run step s (a :: ops) u

/-- The states that runs from an initial state reach. -/
def Reachable (init : σ → Prop) (step : σ → ι → σ → Prop) (t : σ) : Prop :=
  ∃ s ops, init s ∧ Run step s ops t

/-- The steps of `step` whose operation and earlier state satisfy `C`. -/
def guarded (C : σ → ι → Prop) (step : σ → ι → σ → Prop) (s : σ) (a : ι) (t : σ) : Prop :=
  C s a ∧ step s a t

/-- `P` is kept by every step. -/
def Preserved (step : σ → ι → σ → Prop) (P : σ → Prop) : Prop :=
  ∀ s a t, P s → step s a t → P t

namespace Run

variable {step : σ → ι → σ → Prop}

theorem invariant {P : σ → Prop} (hP : Preserved step P) {s t : σ} {ops : List ι}
    (h : Run step s ops t) (hs : P s) : P t := by
  induction h with
  | nil s => exact hs
  | cons hstep _ ih => exact ih (hP _ _ _ hs hstep)

theorem append {s t u : σ} {ops ops' : List ι} (h : Run step s ops t) (h' : Run step t ops' u) :
    Run step s (ops ++ ops') u := by
  induction h with
  | nil s => exact h'
  | cons hstep _ ih => exact .cons hstep (ih h')

/-- A run of one machine is a run of a machine with more steps. -/
theorem mono {step' : σ → ι → σ → Prop} (h : ∀ s a t, step s a t → step' s a t) {s t : σ}
    {ops : List ι} (hrun : Run step s ops t) : Run step' s ops t := by
  induction hrun with
  | nil s => exact .nil s
  | cons hstep _ ih => exact .cons (h _ _ _ hstep) ih

theorem snoc {s t u : σ} {ops : List ι} {a : ι} (h : Run step s ops t) (h' : step t a u) :
    Run step s (ops ++ [a]) u := h.append (.cons h' (.nil u))

end Run

namespace Reachable

variable {init : σ → Prop} {step : σ → ι → σ → Prop}

theorem invariant {P : σ → Prop} (h0 : ∀ s, init s → P s) (hP : Preserved step P) {t : σ}
    (h : Reachable init step t) : P t := by
  obtain ⟨s, ops, hs, hrun⟩ := h
  exact hrun.invariant hP (h0 s hs)

theorem start {s : σ} (h : init s) : Reachable init step s := ⟨s, [], h, .nil s⟩

theorem mono {step' : σ → ι → σ → Prop} (hstep : ∀ s a t, step s a t → step' s a t) {t : σ}
    (h : Reachable init step t) : Reachable init step' t := by
  obtain ⟨s, ops, hs, hrun⟩ := h
  exact ⟨s, ops, hs, hrun.mono hstep⟩

theorem next {s t : σ} {a : ι} (h : Reachable init step s) (hst : step s a t) :
    Reachable init step t := by
  obtain ⟨r, ops, hr, hrun⟩ := h
  exact ⟨r, ops ++ [a], hr, hrun.snoc hst⟩

end Reachable

end
