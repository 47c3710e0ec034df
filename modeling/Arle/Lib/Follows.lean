import Mathlib

/-!
# Words that follow a successor function

`Follows succ w tokens`: behind the word `w` every token is the successor of all that stands
before it.
-/

universe u

/-- Behind `w` the tokens are what `succ` says. -/
def Follows {α : Type u} (succ : List α → α) : List α → List α → Prop
  | _, [] => True
  | w, token :: tokens => token = succ w ∧ Follows succ (w ++ [token]) tokens

namespace Follows

variable {α : Type u} {succ : List α → α} {w : List α}

theorem nil : Follows succ w [] := trivial

theorem single : Follows succ w [succ w] := ⟨rfl, nil⟩

theorem append_iff {a b : List α} :
    Follows succ w (a ++ b) ↔ Follows succ w a ∧ Follows succ (w ++ a) b := by
  induction a generalizing w with
  | nil =>
    rw [List.append_nil]
    exact ⟨fun h => ⟨nil, h⟩, fun h => h.2⟩
  | cons token a ih =>
    rw [List.cons_append, Follows, Follows, ih, and_assoc, List.append_assoc]
    rfl

end Follows
