import Mathlib

/-!
# Actions that only add to a state

An action is given a state, and ends in a value and a later state, or fails. The states are
ordered: a later state has all that an earlier one has. `Grows bad m Q` says of the action `m`
that it goes up, with a value and a state of `Q`, or else that it fails and `bad` holds. What is
known of a value before the other steps of an action stays known if it is monotone in the state.
-/

variable {σ ε α β ι : Type} [Preorder σ] {bad : Prop}

/-- From every state, `m` goes up with a result of `Q`, or fails for the reason `bad`. -/
def Grows (bad : Prop) (m : StateT σ (Except ε) α) (Q : α → σ → Prop) : Prop :=
  ∀ s, (∃ a s', m s = .ok (a, s') ∧ s ≤ s' ∧ Q a s') ∨ bad ∧ ∃ e, m s = .error e

namespace Grows

variable {m : StateT σ (Except ε) α} {f : α → StateT σ (Except ε) β} {P Q : α → σ → Prop}

theorem pure (a : α) : Grows bad (pure a : StateT σ (Except ε) α) fun b _ => b = a :=
  fun s => .inl ⟨a, s, rfl, le_refl s, rfl⟩

theorem throw (e : ε) (hbad : bad) : Grows bad (throw e : StateT σ (Except ε) α) P :=
  fun _ => .inr ⟨hbad, e, rfl⟩

theorem mono (h : Grows bad m P) (hPQ : ∀ a s, P a s → Q a s) : Grows bad m Q := by
  intro s
  rcases h s with ⟨a, s', hrun, hle, hP⟩ | hfail
  · exact .inl ⟨a, s', hrun, hle, hPQ a s' hP⟩
  · exact .inr hfail

theorem of_bad_imp {worse : Prop} (h : Grows bad m P) (hbad : bad → worse) : Grows worse m P :=
  fun s => (h s).imp_right fun hfail => ⟨hbad hfail.1, hfail.2⟩

theorem bind {R : α → β → σ → Prop} (hm : Grows bad m P) (hP : ∀ a, Monotone (P a))
    (hf : ∀ a, Grows bad (f a) (R a)) : Grows bad (m >>= f) fun b s => ∃ a, P a s ∧ R a b s := by
  intro s
  rcases hm s with ⟨a, s₁, hrun, hle, hPa⟩ | ⟨hbad, e, hrun⟩
  · have hstep : (m >>= f) s = f a s₁ := by
      change m s >>= _ = _
      rw [hrun]
      rfl
    rcases hf a s₁ with ⟨b, s₂, hrun', hle', hR⟩ | ⟨hbad, e, hrun'⟩
    · exact .inl ⟨b, s₂, hstep.trans hrun', hle.trans hle', a, hP a hle' hPa, hR⟩
    · exact .inr ⟨hbad, e, hstep.trans hrun'⟩
  · refine .inr ⟨hbad, e, ?_⟩
    change m s >>= _ = _
    rw [hrun]
    rfl

/-- The values of a loop, each known of in the last state. -/
theorem mapM {f : ι → StateT σ (Except ε) α} {P : ι → α → σ → Prop} {l : List ι}
    (h : ∀ i ∈ l, Grows bad (f i) (P i)) (hP : ∀ i a, Monotone (P i a)) :
    Grows bad (l.mapM f) fun values s => List.Forall₂ (fun i a => P i a s) l values := by
  induction l with
  | nil => exact (pure []).mono fun values s hvalues => hvalues ▸ .nil
  | cons i l ih =>
    have hrest := ih fun j hj => h j (List.mem_cons_of_mem i hj)
    have hkept : ∀ values, Monotone fun s => List.Forall₂ (fun i a => P i a s) l values :=
      fun values s s' hle hvalues => hvalues.imp fun i a hPi => hP i a hle hPi
    rw [List.mapM_cons]
    refine ((h i List.mem_cons_self).bind (hP i) fun a => hrest.bind hkept fun values =>
      pure (a :: values)).mono ?_
    rintro _ s ⟨a, hPa, values, hvalues, rfl⟩
    exact .cons hPa hvalues

/-- A run that has not failed. -/
theorem of_ok (h : Grows bad m P) {s s' : σ} {a : α} (hrun : m s = .ok (a, s')) :
    s ≤ s' ∧ P a s' := by
  rcases h s with ⟨b, t, hrun', hle, hPb⟩ | ⟨-, e, hrun'⟩
  · cases hrun.symm.trans hrun'
    exact ⟨hle, hPb⟩
  · cases hrun.symm.trans hrun'

theorem exists_ok (h : Grows bad m P) (hbad : ¬ bad) (s : σ) : ∃ a s', m s = .ok (a, s') := by
  rcases h s with ⟨a, s', hrun, -⟩ | ⟨hbad', -⟩
  · exact ⟨a, s', hrun⟩
  · exact absurd hbad' hbad

end Grows
