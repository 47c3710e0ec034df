import Mathlib

/-!
# Two computations that end alike

A computation that can fail is an `Except`. `Matches R x y` says that `x` and `y` both return,
with results related by `R`, or both fail. Related computations stay related when they are
continued by related continuations (`Matches.bind`).
-/

/-- Both return related results, or both fail. -/
def Matches {ε δ α β : Type} (R : α → β → Prop) (x : Except ε α) (y : Except δ β) : Prop :=
  match x, y with
  | .ok a, .ok b => R a b
  | .error _, .error _ => True
  | _, _ => False

namespace Matches

variable {ε δ α β γ κ : Type} {R : α → β → Prop} {S : γ → κ → Prop}
  {x : Except ε α} {y : Except δ β}

theorem error (e : ε) (d : δ) : Matches R (.error e : Except ε α) (.error d : Except δ β) :=
  trivial

/-- The two are continued. -/
theorem bind (h : Matches R x y) {f : α → Except ε γ} {g : β → Except δ κ}
    (hfg : ∀ a b, R a b → Matches S (f a) (g b)) : Matches S (x >>= f) (y >>= g) := by
  cases x with
  | error e =>
    cases y with
    | error d => trivial
    | ok b => exact h.elim
  | ok a =>
    cases y with
    | error d => exact h.elim
    | ok b => exact hfg a b h

/-- Only the first is continued, by a call that returns. -/
theorem bind_left (h : Matches R x y) {f : α → Except ε γ} {S : γ → β → Prop}
    (hf : ∀ a b, R a b → ∃ c, f a = .ok c ∧ S c b) : Matches S (x >>= f) y := by
  cases x with
  | error e =>
    cases y with
    | error d => trivial
    | ok b => exact h.elim
  | ok a =>
    cases y with
    | error d => exact h.elim
    | ok b =>
      obtain ⟨c, hc, hS⟩ := hf a b h
      change Matches S (f a) (.ok b)
      rw [hc]
      exact hS

/-- Where the second returns, so does the first. -/
theorem returns (h : Matches R x y) {b : β} (hy : y = .ok b) : ∃ a, x = .ok a ∧ R a b := by
  subst hy
  cases x with
  | error e => exact h.elim
  | ok a => exact ⟨a, rfl, h⟩

end Matches
