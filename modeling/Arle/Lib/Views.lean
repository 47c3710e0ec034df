import Mathlib

/-!
# Loops that write places of a view

A state is looked at through a view, which gives the value at each place: a digit of the bytes of
an array, say. Where all steps of a loop write the values of one family `w`, so does the loop, at
the places that some step writes. Places may share a cell of the state.
-/

namespace Views

variable {S ι V α ε : Type} {good : S → Prop} {view : S → ι → V} {w : ι → V} {P Q : ι → Prop}
  {f g : S → Except ε S}

/-- On good states, `f` writes the values `w i` at the places `P`, and no others. -/
def Writes (good : S → Prop) (view : S → ι → V) (w : ι → V) (P : ι → Prop)
    (f : S → Except ε S) : Prop :=
  ∀ s, good s → ∃ s', f s = .ok s' ∧ good s' ∧
    ∀ i, (P i → view s' i = w i) ∧ (¬ P i → view s' i = view s i)

namespace Writes

theorem bind (hf : Writes good view w P f) (hg : Writes good view w Q g) :
    Writes good view w (fun i => P i ∨ Q i) fun s => f s >>= g := by
  intro s hs
  obtain ⟨mid, hmid, hgood, hP⟩ := hf s hs
  obtain ⟨s', hs', hgood', hQ⟩ := hg mid hgood
  refine ⟨s', ?_, hgood', fun i => ⟨fun h => ?_, fun h => ?_⟩⟩
  · dsimp only
    rw [hmid]
    exact hs'
  · by_cases hi : Q i
    · exact (hQ i).1 hi
    · rw [(hQ i).2 hi]
      exact (hP i).1 (h.resolve_right hi)
  · rw [(hQ i).2 fun hi => h (.inr hi), (hP i).2 fun hi => h (.inl hi)]

/-- A loop writes what its steps write. -/
theorem foldlM {step : S → α → Except ε S} {P : α → ι → Prop} {l : List α}
    (h : ∀ a ∈ l, Writes good view w (P a) fun s => step s a) :
    Writes good view w (fun i => ∃ a ∈ l, P a i) fun s => l.foldlM step s := by
  induction l with
  | nil =>
    intro s hs
    refine ⟨s, rfl, hs, fun i => ⟨fun hP => ?_, fun _ => rfl⟩⟩
    obtain ⟨a, ha, -⟩ := hP
    cases ha
  | cons a l ih =>
    have hrest := ih fun b hb => h b (List.mem_cons_of_mem a hb)
    have hboth := (h a List.mem_cons_self).bind hrest
    intro s hs
    obtain ⟨s', hs', hgood, hview⟩ := hboth s hs
    refine ⟨s', hs', hgood, fun i => ?_⟩
    dsimp only
    rw [List.exists_mem_cons_iff]
    exact hview i

end Writes

end Views
