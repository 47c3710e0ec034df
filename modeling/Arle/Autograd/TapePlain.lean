import Arle.Autograd.Residency
import Arle.Autograd.Tape

/-!
# Gradients without their placement

What `merge_grad` does to the plain store. It does the same to the tensor store, wherever the
gradients are (`mergeGrad_models`), as long as every gradient that a tensor has is there and fits
the tensor (`Tidy`).
-/

namespace Arle.Autograd

variable {F H : Type}

namespace PlainStore

/-- Every gradient is there, has the shape of its tensor, and requires no gradient of its own. -/
def Tidy (plain : PlainStore F) : Prop :=
  ∀ id u grad, plain.get id = some u → u.grad = some grad →
    ∃ g, plain.get grad = some g ∧ g.shape = u.shape ∧ g.requiresGrad = false

variable {plain : PlainStore F}

theorem Tidy.fits (h : plain.Tidy) (id : TensorId) : GradFits plain id := by
  intro u grad g hu hgrad hg
  obtain ⟨g', hg', hshape, -⟩ := h id u grad hu hgrad
  rw [hg] at hg'
  cases hg'
  exact hshape

theorem Tidy.put (h : plain.Tidy) {id : TensorId} {u : Plain F} (hu : plain.get id = some u)
    (value : List F) : Tidy (plain.put id { u with value := value }) := by
  have hget := Slab.get_put (Slab.lt_length hu) { u with value := value }
  intro j v grad hv hgrad
  have hold : ∃ v', plain.get j = some v' ∧ v'.grad = some grad ∧ v'.shape = v.shape := by
    rw [hget] at hv
    split at hv
    · rename_i hj
      cases hv
      exact ⟨u, hj ▸ hu, hgrad, rfl⟩
    · exact ⟨v, hv, hgrad, rfl⟩
  obtain ⟨v', hv', hgrad', hshape⟩ := hold
  obtain ⟨g, hg, hgshape, hgrequired⟩ := h j v' grad hv' hgrad'
  rw [hget]
  by_cases hid : grad = id
  · subst hid
    rw [hu] at hg
    cases hg
    exact ⟨_, if_pos rfl, hgshape.trans hshape, hgrequired⟩
  · exact ⟨g, (if_neg hid).trans hg, hgshape.trans hshape, hgrequired⟩

theorem Tidy.alloc (h : plain.Tidy) (hwf : plain.WellFormed) {id : TensorId} {u : Plain F}
    (hu : plain.get id = some u) : Tidy (plain.alloc u).2 := by
  have hget := hwf.get_alloc u
  have hfresh := hwf.alloc_fresh u
  intro j v grad hv hgrad
  have hold : ∃ i, plain.get i = some v := by
    rw [hget] at hv
    split at hv
    · exact ⟨id, hu.trans hv⟩
    · exact ⟨j, hv⟩
  obtain ⟨i, hi⟩ := hold
  obtain ⟨g, hg, hshape⟩ := h i v grad hi hgrad
  refine ⟨g, ?_, hshape⟩
  rw [hget, if_neg]
  · exact hg
  · rintro rfl
    rw [hfresh] at hg
    cases hg

variable [Add F]

/-- `mergeInto` of the values. -/
def mergeInto (grads : Grads) (tensorId newGradId : TensorId) (store : PlainStore F) :
    Result (Grads × PlainStore F) :=
  match grads tensorId with
  | some existingGradId => do
    let existing ← store.tensor existingGradId
    let incoming ← store.tensor newGradId
    if existing.shape ≠ incoming.shape then
      .error (.gradientShapeMismatch tensorId existing.shape incoming.shape)
    else
      let store ← store.addInto existingGradId newGradId
      return (grads, store)
  | none => do
    let (clonedGradId, store) ← store.cloneTensor newGradId
    return (Function.update grads tensorId (some clonedGradId), store)

/-- `accumulateIfRequired` of the values. -/
def accumulateIfRequired (tensorId gradId : TensorId) (store : PlainStore F) :
    Result (PlainStore F) :=
  if (store.get tensorId).any Plain.requiresGrad then store.accumulateGrad tensorId gradId
  else .ok store

/-- `merge_grad` of the values. -/
def mergeGrad (grads : Grads) (tensorId newGradId : TensorId) (store : PlainStore F) :
    Result (Grads × PlainStore F) := do
  let (grads, store) ← store.mergeInto grads tensorId newGradId
  let store ← store.accumulateIfRequired tensorId newGradId
  return (grads, store)

theorem Tidy.mergeInto (h : plain.Tidy) (hwf : plain.WellFormed) {grads grads' : Grads}
    {tensorId newGradId : TensorId} {plain' : PlainStore F}
    (hcall : plain.mergeInto grads tensorId newGradId = .ok (grads', plain')) : plain'.Tidy := by
  unfold PlainStore.mergeInto PlainStore.addInto PlainStore.cloneTensor PlainStore.tensor at hcall
  cases hgrads : grads tensorId with
  | none =>
    rw [hgrads] at hcall
    dsimp only at hcall
    cases hnew : plain.get newGradId with
    | none =>
      rw [hnew] at hcall
      cases hcall
    | some u =>
      rw [hnew] at hcall
      cases hcall
      exact h.alloc hwf hnew
  | some existing =>
    rw [hgrads] at hcall
    dsimp only at hcall
    cases hexisting : plain.get existing with
    | none =>
      rw [hexisting] at hcall
      cases hcall
    | some e =>
      cases hnew : plain.get newGradId with
      | none =>
        rw [hexisting, hnew] at hcall
        cases hcall
      | some i =>
        rw [hexisting, hnew] at hcall
        change (if e.shape ≠ i.shape then _ else _) = _ at hcall
        split at hcall
        · cases hcall
        · cases hcall
          exact h.put hexisting _

end PlainStore

/-! ## The tensor store does the same -/

section Store

variable [Add F] {backend : Backend F H} {store : TensorStore F H} {plain : PlainStore F}

theorem mergeInto_models (hexact : backend.Exact) (h : Models backend store plain) (grads : Grads)
    (tensorId newGradId : TensorId) :
    Matches (fun r s => r.1 = s.1 ∧ Models backend r.2 s.2)
      (Tape.mergeInto backend grads tensorId newGradId store)
      (plain.mergeInto grads tensorId newGradId) := by
  unfold Tape.mergeInto PlainStore.mergeInto
  cases grads tensorId with
  | none =>
    refine (cloneTensor_models h newGradId).bind ?_
    rintro ⟨clonedGradId, store'⟩ ⟨_, plain'⟩ ⟨rfl, h'⟩
    exact ⟨rfl, h'⟩
  | some existing =>
    refine (h.tensor existing).bind ?_
    rintro e _ ⟨rfl, -, hget⟩
    refine (h.tensor newGradId).bind ?_
    rintro i _ ⟨rfl, -, higet⟩
    change Matches _ (if e.shape ≠ i.shape then _ else _) (if e.shape ≠ i.shape then _ else _)
    split
    · exact Matches.error _ _
    · rename_i hshape
      rw [not_not] at hshape
      have hexisting : ∀ u, plain.get existing = some u → u.shape = e.shape := fun u hu => by
        rw [h.get_eq, hget] at hu
        cases hu
        rfl
      have hincoming : ∀ u, plain.get newGradId = some u → u.shape = e.shape := fun u hu => by
        rw [h.get_eq, higet] at hu
        cases hu
        exact hshape.symm
      refine (addInto_models hexact h hexisting hincoming).bind ?_
      intro store' plain' h'
      exact ⟨rfl, h'⟩

theorem accumulateIfRequired_models (hexact : backend.Exact) (h : Models backend store plain)
    {tensorId : TensorId} (hfit : GradFits plain tensorId) (gradId : TensorId) :
    Matches (Models backend) (Tape.accumulateIfRequired backend tensorId gradId store)
      (plain.accumulateIfRequired tensorId gradId) := by
  unfold Tape.accumulateIfRequired PlainStore.accumulateIfRequired
  have hrequired : (plain.get tensorId).any Plain.requiresGrad =
      (store.get tensorId).any Tensor.requiresGrad := by
    rw [h.get_eq]
    cases store.get tensorId <;> rfl
  rw [hrequired]
  split
  · exact accumulateGrad_models hexact h hfit gradId
  · exact h

theorem mergeGrad_models (hexact : backend.Exact) (h : Models backend store plain)
    (htidy : plain.Tidy) (grads : Grads) (tensorId newGradId : TensorId) :
    Matches (fun r s => r.1 = s.1 ∧ Models backend r.2 s.2)
      (Tape.mergeGrad backend grads tensorId newGradId store)
      (plain.mergeGrad grads tensorId newGradId) := by
  unfold Tape.mergeGrad PlainStore.mergeGrad
  cases hcall : plain.mergeInto grads tensorId newGradId with
  | error e =>
    have hmerge := mergeInto_models hexact h grads tensorId newGradId
    rw [hcall] at hmerge
    cases hstore : Tape.mergeInto backend grads tensorId newGradId store with
    | error e' => exact Matches.error _ _
    | ok r =>
      rw [hstore] at hmerge
      exact hmerge.elim
  | ok s =>
    obtain ⟨grads', plain'⟩ := s
    obtain ⟨⟨_, store'⟩, hstore, rfl, h'⟩ :=
      (mergeInto_models hexact h grads tensorId newGradId).returns hcall
    have htidy' := htidy.mergeInto h.plain_wellFormed hcall
    rw [hstore]
    refine (accumulateIfRequired_models hexact h' (htidy'.fits tensorId) newGradId).bind ?_
    intro store'' plain'' h''
    exact ⟨rfl, h''⟩

end Store

end Arle.Autograd
