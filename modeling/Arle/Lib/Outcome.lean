import Mathlib

/-!
# Calls that may not return

A call that can panic, or loop for ever, is an `Option`: `none` when it does not return.
`Outcome bad x P` says that the result of the call `x`, if it returns, satisfies `P`, and
that it fails to return only if `bad` holds. Total correctness is `Outcome False`, partial
correctness `Outcome True`.
-/

/-- `x` returns a result that satisfies `P`, unless `bad` holds and it does not return. -/
def Outcome {α : Type} (bad : Prop) (x : Option α) (P : α → Prop) : Prop :=
  match x with
  | some a => P a
  | none => bad

namespace Outcome

variable {α β : Type} {bad : Prop}

theorem ret {P : α → Prop} {a : α} (h : P a) : Outcome bad (some a) P := h

theorem fail {P : α → Prop} (h : bad) : Outcome bad (none : Option α) P := h

theorem bind {x : Option α} {f : α → Option β} {Q : α → Prop} {P : β → Prop}
    (hx : Outcome bad x Q) (hf : ∀ a, Q a → Outcome bad (f a) P) : Outcome bad (x >>= f) P := by
  cases x with
  | none => exact hx
  | some a => exact hf a hx

/-- A first call that is known to return. -/
theorem bind_of_eq {x : Option α} {f : α → Option β} {P : β → Prop} {a : α}
    (hx : x = some a) (hf : Outcome bad (f a) P) : Outcome bad (x >>= f) P := by
  rw [hx]
  exact hf

/-- Partial correctness. -/
theorem elim {x : Option α} {P : α → Prop} (h : Outcome bad x P) {a : α} (hx : x = some a) :
    P a := by
  subst hx
  exact h

/-- Total correctness. -/
theorem returns {x : Option α} {P : α → Prop} (h : Outcome bad x P) (hbad : ¬ bad) :
    ∃ a, x = some a ∧ P a := by
  cases x with
  | none => exact absurd h hbad
  | some a => exact ⟨a, rfl, h⟩

section Calls

variable {f : α → Option β} {l : List α}

/-- A list of calls that return. -/
theorem mapM_some {g : α → β} (h : ∀ a ∈ l, f a = some (g a)) : l.mapM f = some (l.map g) := by
  induction l with
  | nil => rfl
  | cons a l ih =>
    rw [List.mapM_cons, h a List.mem_cons_self, ih fun b hb => h b (List.mem_cons_of_mem _ hb)]
    rfl

/-- Where a list of calls returns, each of them does. -/
theorem returns_of_mapM {results : List β} (h : l.mapM f = some results) :
    ∀ a ∈ l, ∃ b, f a = some b := by
  induction l generalizing results with
  | nil => exact fun a ha => absurd ha List.not_mem_nil
  | cons a l ih =>
    rw [List.mapM_cons, Option.bind_eq_bind, Option.bind_eq_some_iff] at h
    obtain ⟨b, hb, hrest⟩ := h
    rw [Option.bind_eq_bind, Option.bind_eq_some_iff] at hrest
    obtain ⟨bs, hbs, -⟩ := hrest
    intro c hc
    rcases List.mem_cons.mp hc with rfl | hc
    · exact ⟨b, hb⟩
    · exact ih hbs c hc

end Calls

end Outcome
