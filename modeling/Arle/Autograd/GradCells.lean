import Arle.Autograd.TapePlain

/-!
# Where gradients gather

While `backward` runs, gradients gather in cells: a tensor has one for the gradient that is left with
it, and one in the map of the run. `Gathered` says which tensor of the store is the cell of which
holder, and how much it holds; no two holders share a cell. Merging a gradient adds it to both cells
of a tensor and to no other (`Gathered.mergeGrad`), whether they are there or not.
-/

namespace Arle.Autograd

variable {F H : Type}

/-- The entries of a tensor; there are none but zeros behind its end. -/
def entriesOf [Zero F] (value : List F) : Nat → F := fun i => value.getD i 0

theorem entriesOf_addAssign [AddMonoid F] {xs ys : List F} (h : xs.length = ys.length) :
    entriesOf (addAssign xs ys) = entriesOf xs + entriesOf ys := by
  funext i
  induction xs generalizing ys i with
  | nil =>
    rw [List.eq_nil_of_length_eq_zero h.symm]
    exact (add_zero _).symm
  | cons x xs ih =>
    cases ys with
    | nil => exact absurd h (Nat.succ_ne_zero _)
    | cons y ys =>
      cases i with
      | zero => rfl
      | succ i => exact ih (Nat.succ.inj h) i

/-- What gathers a gradient for a tensor: the tensor itself, or its place in the map of the run. -/
inductive Holder
  | tensor (id : TensorId)
  | merged (id : TensorId)
deriving DecidableEq

def Holder.id : Holder → TensorId
  | tensor id => id
  | merged id => id

namespace PlainStore

/-- The tensor is the gradient of another. -/
def IsGrad (base : PlainStore F) (id : TensorId) : Prop :=
  ∃ j u, base.get j = some u ∧ u.grad = some id

/-- The tensors of `base` are there, with their values, but for those that are gradients. -/
def Keeps (base plain : PlainStore F) : Prop :=
  ∀ id u, base.get id = some u → ∃ u', plain.get id = some u' ∧ u'.shape = u.shape ∧
    u'.requiresGrad = u.requiresGrad ∧ (¬ base.IsGrad id → u'.value = u.value)

/-- There are new tensors, which have no gradients and require none. -/
structure Extends (plain plain' : PlainStore F) : Prop where
  keeps : ∀ id u, plain.get id = some u → plain'.get id = some u
  bare : ∀ id u, plain.get id = none → plain'.get id = some u →
    u.grad = none ∧ u.requiresGrad = false

def Sized (plain : PlainStore F) : Prop :=
  ∀ id u, plain.get id = some u → u.value.length = shapeSize u.shape

end PlainStore

/-- The cells of the holders, and the amounts that they hold. -/
structure Gathered [Zero F] (base plain : PlainStore F) (grads : Grads)
    (cells : Holder → Option TensorId) (amount : Holder → Nat → F) : Prop where
  wellFormed : plain.WellFormed
  sized : plain.Sized
  keeps : base.Keeps plain
  cell : ∀ holder id, cells holder = some id → ∃ u t, base.get holder.id = some u ∧
    plain.get id = some t ∧ t.shape = u.shape ∧ t.requiresGrad = false ∧
      entriesOf t.value = amount holder
  empty : ∀ holder, cells holder = none → amount holder = 0
  own : ∀ holder holder' id, cells holder = some id → cells holder' = some id → holder = holder'
  apart : ∀ holder id, cells holder = some id → base.get id = none ∨ base.IsGrad id
  left : ∀ id u, base.get id ≠ none → plain.get id = some u → cells (.tensor id) = u.grad
  merged : ∀ id, cells (.merged id) = grads id
  bare : ∀ id u, base.get id = none → plain.get id = some u →
    u.grad = none ∧ u.requiresGrad = false
  quiet : ∀ id u, plain.get id = some u → u.requiresGrad = false → u.grad = none

/-- A new tensor that is no cell. -/
structure Pending (base plain : PlainStore F) (cells : Holder → Option TensorId) (id : TensorId)
    (t : Plain F) : Prop where
  get : plain.get id = some t
  fresh : base.get id = none
  free : ∀ holder, cells holder ≠ some id

/-- New tensors that are no cells stay so. -/
def StaysPending (base plain plain' : PlainStore F) (cells cells' : Holder → Option TensorId) :
    Prop :=
  ∀ id t, Pending base plain cells id t → Pending base plain' cells' id t

namespace Gathered

variable {base plain plain' : PlainStore F} {grads : Grads}
  {cells : Holder → Option TensorId} {amount : Holder → Nat → F} {holder : Holder}
  {id x : TensorId} {t u : Plain F}

theorem tensor_eq (hget : plain.get id = some t) : plain.tensor id = .ok t := by
  unfold PlainStore.tensor
  rw [hget]

theorem alloc_extends (hwf : plain.WellFormed)
    (hbare : t.grad = none ∧ t.requiresGrad = false) :
    plain.Extends (plain.alloc t).2 where
  keeps j u hu := by
    rw [hwf.get_alloc, if_neg]
    · exact hu
    · rintro rfl
      rw [hwf.alloc_fresh] at hu
      cases hu
  bare j u hnone hu := by
    rw [hwf.get_alloc] at hu
    split at hu
    · cases hu
      exact hbare
    · rw [hnone] at hu
      cases hu

theorem extend_pending (hext : plain.Extends plain') : StaysPending base plain plain' cells cells :=
  fun id t h => ⟨hext.keeps id t h.get, h.fresh, h.free⟩

theorem add_pending (hcell : cells holder = some id) (ht : plain.get id = some t) (t' : Plain F) :
    StaysPending base plain (plain.put id t') cells cells := by
  intro j u h
  refine ⟨?_, h.fresh, h.free⟩
  rw [Slab.get_put (Slab.lt_length ht), if_neg]
  · exact h.get
  · rintro rfl
    exact h.free holder hcell

theorem place_pending {j : TensorId} {v : Plain F} (hne : j ≠ id)
    (h : Pending base plain cells j v) :
    Pending base plain (Function.update cells holder (some id)) j v := by
  refine ⟨h.get, h.fresh, fun holder' hj => ?_⟩
  by_cases hholder : holder' = holder
  · rw [hholder, Function.update_self] at hj
    exact hne (Option.some.inj hj).symm
  · rw [Function.update_of_ne hholder] at hj
    exact h.free holder' hj

variable [AddMonoid F]

theorem base_none (h : Gathered base plain grads cells amount) (hid : plain.get id = none) :
    base.get id = none := by
  cases hbase : base.get id with
  | none => rfl
  | some u =>
    obtain ⟨u', hu', -⟩ := h.keeps id u hbase
    rw [hid] at hu'
    cases hu'

theorem tidy (h : Gathered base plain grads cells amount) : plain.Tidy := by
  intro id u grad hu hgrad
  cases hbase : base.get id with
  | none =>
    rw [(h.bare id u hbase hu).1] at hgrad
    cases hgrad
  | some b =>
    have hcell := h.left id u (hbase ▸ Option.some_ne_none b) hu
    obtain ⟨b', t, hb', ht, hshape, hrequired, -⟩ := h.cell _ grad (hcell.trans hgrad)
    obtain ⟨u', hu', hushape, -⟩ := h.keeps id b' hb'
    rw [hu] at hu'
    cases hu'
    exact ⟨t, ht, hshape.trans hushape.symm, hrequired⟩

/-- New tensors change nothing. -/
theorem extend (h : Gathered base plain grads cells amount) (hext : plain.Extends plain')
    (hwf : plain'.WellFormed) (hsized : plain'.Sized) :
    Gathered base plain' grads cells amount where
  wellFormed := hwf
  sized := hsized
  keeps id u hu := by
    obtain ⟨u', hu', hrest⟩ := h.keeps id u hu
    exact ⟨u', hext.keeps id u' hu', hrest⟩
  cell holder id hid := by
    obtain ⟨u, t, hu, ht, hrest⟩ := h.cell holder id hid
    exact ⟨u, t, hu, hext.keeps id t ht, hrest⟩
  empty := h.empty
  own := h.own
  apart := h.apart
  left id u hbase hu := by
    obtain ⟨b, hb⟩ := Option.ne_none_iff_exists'.mp hbase
    obtain ⟨u', hu', -⟩ := h.keeps id b hb
    have heq := (hext.keeps id u' hu').symm.trans hu
    cases heq
    exact h.left id u hbase hu'
  merged := h.merged
  bare id u hbase hu := by
    cases hget : plain.get id with
    | none => exact hext.bare id u hget hu
    | some u' =>
      have heq := (hext.keeps id u' hget).symm.trans hu
      cases heq
      exact h.bare id u hbase hget
  quiet id u hu hrequired := by
    cases hget : plain.get id with
    | none => exact (hext.bare id u hget hu).1
    | some u' =>
      have heq := (hext.keeps id u' hget).symm.trans hu
      cases heq
      exact h.quiet id u hget hrequired

/-- A cell gathers a value. -/
theorem add (h : Gathered base plain grads cells amount) (hcell : cells holder = some id)
    (ht : plain.get id = some t) {value : List F} (hlen : t.value.length = value.length) :
    Gathered base (plain.put id { t with value := addAssign t.value value }) grads cells
      (Function.update amount holder (amount holder + entriesOf value)) := by
  have hget := Slab.get_put (Slab.lt_length ht) { t with value := addAssign t.value value }
  refine ⟨h.wellFormed.put ht _, ?_, ?_, ?_, ?_, h.own, h.apart, ?_, h.merged, ?_, ?_⟩
  · intro j u hu
    rw [hget] at hu
    split at hu
    · cases hu
      exact (length_addAssign _ _).trans (h.sized id t ht)
    · exact h.sized j u hu
  · intro j b hb
    obtain ⟨u', hu', hshape, hrequired, hvalue⟩ := h.keeps j b hb
    rw [hget]
    by_cases hj : j = id
    · subst hj
      rw [ht] at hu'
      cases hu'
      refine ⟨_, if_pos rfl, hshape, hrequired, fun hgrad => absurd (h.apart holder j hcell) ?_⟩
      rw [hb]
      exact not_or.mpr ⟨Option.some_ne_none b, hgrad⟩
    · exact ⟨u', (if_neg hj).trans hu', hshape, hrequired, hvalue⟩
  · intro holder' j hj
    obtain ⟨b, t', hb, ht', hshape, hrequired, hamount⟩ := h.cell holder' j hj
    rw [hget]
    by_cases hid : j = id
    · subst hid
      rw [ht] at ht'
      cases ht'
      rw [h.own holder' holder j hj hcell] at hb hamount ⊢
      refine ⟨b, _, hb, if_pos rfl, hshape, hrequired, ?_⟩
      rw [Function.update_self, ← hamount]
      exact entriesOf_addAssign hlen
    · have hne : holder' ≠ holder := by
        rintro rfl
        rw [hcell] at hj
        exact hid (Option.some.inj hj).symm
      rw [Function.update_of_ne hne]
      exact ⟨b, t', hb, (if_neg hid).trans ht', hshape, hrequired, hamount⟩
  · intro holder' hnone
    have hne : holder' ≠ holder := by
      rintro rfl
      rw [hcell] at hnone
      cases hnone
    rw [Function.update_of_ne hne]
    exact h.empty holder' hnone
  · intro j u hbase hu
    rw [hget] at hu
    split at hu
    · rename_i hj
      subst hj
      cases hu
      exact h.left j t hbase ht
    · exact h.left j u hbase hu
  · intro j u hbase hu
    rw [hget] at hu
    split at hu
    · rename_i hj
      subst hj
      cases hu
      exact h.bare j t hbase ht
    · exact h.bare j u hbase hu
  · intro j u hu hrequired
    rw [hget] at hu
    split at hu
    · cases hu
      exact h.quiet id t ht hrequired
    · exact h.quiet j u hu hrequired

/-! ## New cells -/

/-- A new tensor is allocated. -/
theorem alloc (h : Gathered base plain grads cells amount)
    (hbare : t.grad = none ∧ t.requiresGrad = false) (hlen : t.value.length = shapeSize t.shape) :
    Gathered base (plain.alloc t).2 grads cells amount ∧
      Pending base (plain.alloc t).2 cells (plain.alloc t).1 t ∧
        StaysPending base plain (plain.alloc t).2 cells cells := by
  have hext := alloc_extends h.wellFormed hbare
  have hfresh := h.wellFormed.alloc_fresh t
  refine ⟨h.extend hext (h.wellFormed.alloc t) ?_, ⟨?_, h.base_none hfresh, ?_⟩,
    extend_pending hext⟩
  · intro j u hu
    rw [h.wellFormed.get_alloc] at hu
    split at hu
    · cases hu
      exact hlen
    · exact h.sized j u hu
  · rw [h.wellFormed.get_alloc, if_pos rfl]
  · intro holder hcell
    obtain ⟨_, t', _, ht', _⟩ := h.cell holder _ hcell
    rw [hfresh] at ht'
    cases ht'

/-- A new tensor becomes the cell of a holder that has none. -/
theorem place_cells (h : Gathered base plain grads cells amount) (hnone : cells holder = none)
    (hu : base.get holder.id = some u) (hnew : Pending base plain cells id t)
    (hshape : t.shape = u.shape) :
    (∀ holder' j, Function.update cells holder (some id) holder' = some j →
      ∃ u t', base.get holder'.id = some u ∧ plain.get j = some t' ∧ t'.shape = u.shape ∧
        t'.requiresGrad = false ∧ entriesOf t'.value =
          Function.update amount holder (amount holder + entriesOf t.value) holder') ∧
    (∀ holder', Function.update cells holder (some id) holder' = none →
      Function.update amount holder (amount holder + entriesOf t.value) holder' = 0) ∧
    (∀ holder' holder'' j, Function.update cells holder (some id) holder' = some j →
      Function.update cells holder (some id) holder'' = some j → holder' = holder'') ∧
    ∀ holder' j, Function.update cells holder (some id) holder' = some j →
      base.get j = none ∨ base.IsGrad j := by
  refine ⟨fun holder' j hj => ?_, fun holder' hj => ?_, fun holder' holder'' j hj hj' => ?_,
    fun holder' j hj => ?_⟩
  · by_cases hholder : holder' = holder
    · subst hholder
      rw [Function.update_self] at hj ⊢
      cases hj
      exact ⟨u, t, hu, hnew.get, hshape, (h.bare id t hnew.fresh hnew.get).2,
        by rw [h.empty _ hnone, zero_add]⟩
    · rw [Function.update_of_ne hholder] at hj ⊢
      exact h.cell holder' j hj
  · by_cases hholder : holder' = holder
    · subst hholder
      rw [Function.update_self] at hj
      cases hj
    · rw [Function.update_of_ne hholder] at hj ⊢
      exact h.empty holder' hj
  · by_cases hholder : holder' = holder <;> by_cases hholder' : holder'' = holder
    · exact hholder.trans hholder'.symm
    · rw [hholder, Function.update_self] at hj
      rw [Function.update_of_ne hholder', ← hj] at hj'
      exact absurd hj' (hnew.free holder'')
    · rw [hholder', Function.update_self] at hj'
      rw [Function.update_of_ne hholder, ← hj'] at hj
      exact absurd hj (hnew.free holder')
    · rw [Function.update_of_ne hholder] at hj
      rw [Function.update_of_ne hholder'] at hj'
      exact h.own holder' holder'' j hj hj'
  · by_cases hholder : holder' = holder
    · rw [hholder, Function.update_self] at hj
      cases hj
      exact .inl hnew.fresh
    · rw [Function.update_of_ne hholder] at hj
      exact h.apart holder' j hj

/-- The place in the map gets a tensor. -/
theorem place_merged (h : Gathered base plain grads cells amount)
    (hnone : cells (.merged x) = none) (hu : base.get x = some u)
    (hnew : Pending base plain cells id t) (hshape : t.shape = u.shape) :
    Gathered base plain (Function.update grads x (some id))
      (Function.update cells (.merged x) (some id))
      (Function.update amount (.merged x) (amount (.merged x) + entriesOf t.value)) := by
  obtain ⟨hcell, hempty, hown, hapart⟩ := h.place_cells hnone hu hnew hshape
  refine ⟨h.wellFormed, h.sized, h.keeps, hcell, hempty, hown, hapart, ?_, ?_, h.bare, h.quiet⟩
  · intro j u hbase hj
    rw [Function.update_of_ne Holder.noConfusion]
    exact h.left j u hbase hj
  · intro j
    by_cases hj : j = x
    · subst hj
      rw [Function.update_self, Function.update_self]
    · rw [Function.update_of_ne hj, Function.update_of_ne]
      · exact h.merged j
      · exact fun heq => hj (Holder.merged.inj heq)

/-- The tensor gets a gradient. -/
theorem place_tensor (h : Gathered base plain grads cells amount)
    (hnone : cells (.tensor x) = none) {b : Plain F} (hb : base.get x = some b)
    (hu : plain.get x = some u) (hrequired : u.requiresGrad = true)
    (hnew : Pending base plain cells id t) (hshape : t.shape = b.shape) :
    Gathered base (plain.put x { u with grad := some id }) grads
      (Function.update cells (.tensor x) (some id))
      (Function.update amount (.tensor x) (amount (.tensor x) + entriesOf t.value)) := by
  obtain ⟨hcell, hempty, hown, hapart⟩ := h.place_cells hnone hb hnew hshape
  have hget := Slab.get_put (Slab.lt_length hu) { u with grad := some id }
  have hsame : ∀ j v, plain.get j = some v → ∃ v', (plain.put x { u with grad := some id }).get j =
      some v' ∧ v'.shape = v.shape ∧ v'.requiresGrad = v.requiresGrad ∧ v'.value = v.value := by
    intro j v hv
    rw [hget]
    by_cases hj : j = x
    · subst hj
      rw [hu] at hv
      cases hv
      exact ⟨_, if_pos rfl, rfl, rfl, rfl⟩
    · exact ⟨v, (if_neg hj).trans hv, rfl, rfl, rfl⟩
  refine ⟨h.wellFormed.put hu _, ?_, ?_, ?_, hempty, hown, hapart, ?_, ?_, ?_, ?_⟩
  · intro j v hv
    rw [hget] at hv
    split at hv
    · cases hv
      exact h.sized x u hu
    · exact h.sized j v hv
  · intro j v hv
    obtain ⟨v', hv', hshape', hrequired, hvalue⟩ := h.keeps j v hv
    obtain ⟨w, hw, hwshape, hwrequired, hwvalue⟩ := hsame j v' hv'
    exact ⟨w, hw, hwshape.trans hshape', hwrequired.trans hrequired,
      fun hgrad => hwvalue.trans (hvalue hgrad)⟩
  · intro holder j hj
    obtain ⟨v, t', hv, ht', hshape', hrequired', hamount⟩ := hcell holder j hj
    obtain ⟨w, hw, hwshape, hwrequired, hwvalue⟩ := hsame j t' ht'
    exact ⟨v, w, hv, hw, hwshape.trans hshape', hwrequired.trans hrequired', hwvalue ▸ hamount⟩
  · intro j v hbase hv
    rw [hget] at hv
    by_cases hj : j = x
    · subst hj
      rw [if_pos rfl] at hv
      cases hv
      exact Function.update_self _ _ _
    · rw [if_neg hj] at hv
      rw [Function.update_of_ne fun heq => hj (Holder.tensor.inj heq)]
      exact h.left j v hbase hv
  · intro j
    rw [Function.update_of_ne Holder.noConfusion]
    exact h.merged j
  · intro j v hbase hv
    rw [hget] at hv
    split at hv
    · rename_i hj
      rw [hj, hb] at hbase
      cases hbase
    · exact h.bare j v hbase hv
  · intro j v hv hquiet
    rw [hget] at hv
    split at hv
    · cases hv
      rw [hrequired] at hquiet
      cases hquiet
    · exact h.quiet j v hv hquiet

/-! ## Merging -/

theorem addInto_eq {existing : TensorId} {e : Plain F} (he : plain.get existing = some e)
    (ht : plain.get id = some t) : plain.addInto existing id =
      .ok (plain.put existing { e with value := addAssign e.value t.value }) := by
  unfold PlainStore.addInto
  rw [tensor_eq he, tensor_eq ht]
  rfl

/-- The first part of a merge: the place in the map gathers the gradient. -/
theorem mergeInto (h : Gathered base plain grads cells amount) (hu : base.get x = some u)
    (hnew : Pending base plain cells id t) (hshape : t.shape = u.shape) :
    ∃ grads' plain' cells', plain.mergeInto grads x id = .ok (grads', plain') ∧
      Gathered base plain' grads' cells'
        (Function.update amount (.merged x) (amount (.merged x) + entriesOf t.value)) ∧
      StaysPending base plain plain' cells cells' ∧
      ∀ j, grads' j ≠ none ↔ grads j ≠ none ∨ j = x := by
  unfold PlainStore.mergeInto
  cases hgrads : grads x with
  | some existing =>
    have hcell : cells (.merged x) = some existing := (h.merged x).trans hgrads
    obtain ⟨u', e, hu', he, heshape, -⟩ := h.cell _ existing hcell
    have heq := hu.symm.trans hu'
    cases heq
    have hlen : e.value.length = t.value.length := by
      rw [h.sized _ e he, h.sized _ t hnew.get, heshape, hshape]
    refine ⟨grads, _, cells, ?_, h.add hcell he hlen, add_pending hcell he _, fun j => ?_⟩
    · dsimp only
      rw [tensor_eq he, tensor_eq hnew.get]
      change (if e.shape ≠ t.shape then _ else _) = _
      rw [if_neg (not_not.mpr (heshape.trans hshape.symm)), addInto_eq he hnew.get]
      rfl
    · refine ⟨.inl, fun hor => hor.elim (fun h => h) fun hj => ?_⟩
      rw [hj, hgrads]
      exact Option.some_ne_none existing
  | none =>
    have hnone : cells (.merged x) = none := (h.merged x).trans hgrads
    have hlen := h.sized id t hnew.get
    obtain ⟨h', hpending, hstays⟩ := h.alloc (h.bare id t hnew.fresh hnew.get) hlen
    refine ⟨_, _, _, ?_, h'.place_merged hnone hu hpending hshape, fun j v hj => ?_, fun j => ?_⟩
    · dsimp only
      unfold PlainStore.cloneTensor
      rw [tensor_eq hnew.get]
      rfl
    · refine place_pending ?_ (hstays j v hj)
      rintro rfl
      have hfresh := h.wellFormed.alloc_fresh t
      rw [hj.get] at hfresh
      cases hfresh
    · by_cases hj : j = x
      · rw [hj, Function.update_self]
        exact iff_of_true (Option.some_ne_none _) (.inr rfl)
      · rw [Function.update_of_ne hj]
        exact ⟨.inl, fun hor => hor.resolve_right hj⟩

theorem accumulateIfRequired_eq (hu : plain.get x = some u) (hrequired : u.requiresGrad = true)
    (ht : plain.get id = some t) (hshape : t.shape = u.shape) :
    plain.accumulateIfRequired x id = match u.grad with
      | some existing => plain.addInto existing id
      | none => PlainStore.setGrad (plain.alloc t).2 x (some (plain.alloc t).1) := by
  unfold PlainStore.accumulateIfRequired PlainStore.accumulateGrad
  rw [hu, if_pos (by exact hrequired), tensor_eq hu]
  change (if u.requiresGrad = false then _ else _) = _
  rw [if_neg (by rw [hrequired]; exact Bool.noConfusion), tensor_eq ht]
  change (if u.shape ≠ t.shape then _ else _) = _
  rw [if_neg (not_not.mpr hshape.symm)]
  cases u.grad with
  | some existing => rfl
  | none =>
    dsimp only
    unfold PlainStore.cloneTensor
    rw [tensor_eq ht]
    rfl

/-- The second part: the tensor gathers it too. -/
theorem accumulate (h : Gathered base plain grads cells amount) (hu : base.get x = some u)
    (hrequired : u.requiresGrad = true) (hnew : Pending base plain cells id t)
    (hshape : t.shape = u.shape) :
    ∃ plain' cells', plain.accumulateIfRequired x id = .ok plain' ∧
      Gathered base plain' grads cells'
        (Function.update amount (.tensor x) (amount (.tensor x) + entriesOf t.value)) ∧
      StaysPending base plain plain' cells cells' := by
  obtain ⟨v, hv, hvshape, hvrequired, -⟩ := h.keeps x u hu
  have hleft := h.left x v (hu ▸ Option.some_ne_none u) hv
  rw [accumulateIfRequired_eq hv (hvrequired.trans hrequired) hnew.get
    (hshape.trans hvshape.symm)]
  cases hgrad : v.grad with
  | some existing =>
    have hcell : cells (.tensor x) = some existing := hleft.trans hgrad
    obtain ⟨u', e, hu', he, heshape, -⟩ := h.cell _ existing hcell
    have heq := hu.symm.trans hu'
    cases heq
    have hlen : e.value.length = t.value.length := by
      rw [h.sized _ e he, h.sized _ t hnew.get, heshape, hshape]
    exact ⟨_, cells, addInto_eq he hnew.get, h.add hcell he hlen, add_pending hcell he _⟩
  | none =>
    have hnone : cells (.tensor x) = none := hleft.trans hgrad
    have hlen := h.sized id t hnew.get
    have hbare := h.bare id t hnew.fresh hnew.get
    obtain ⟨h', hpending, hstays⟩ := h.alloc hbare hlen
    have hv' : (plain.alloc t).2.get x = some v :=
      (alloc_extends h.wellFormed hbare).keeps x v hv
    refine ⟨_, _, ?_, h'.place_tensor hnone hu hv' (hvrequired.trans hrequired) hpending hshape,
      fun j w hj => ?_⟩
    · dsimp only
      unfold PlainStore.setGrad
      rw [tensor_eq hv']
      rfl
    · have hne : j ≠ (plain.alloc t).1 := by
        rintro rfl
        have hfresh := h.wellFormed.alloc_fresh t
        rw [hj.get] at hfresh
        cases hfresh
      have hplaced : Pending base (plain.alloc t).2 (Function.update cells (.tensor x)
          (some (plain.alloc t).1)) j w := place_pending hne (hstays j w hj)
      refine ⟨?_, hplaced.fresh, hplaced.free⟩
      rw [Slab.get_put (Slab.lt_length hv'), if_neg]
      · exact hplaced.get
      · rintro rfl
        rw [hj.fresh] at hu
        cases hu

/-- A merge adds a gradient to both cells of a tensor. -/
theorem mergeGrad (h : Gathered base plain grads cells amount) (hu : base.get x = some u)
    (hrequired : u.requiresGrad = true) (hnew : Pending base plain cells id t)
    (hshape : t.shape = u.shape) :
    ∃ grads' plain' cells' amount', plain.mergeGrad grads x id = .ok (grads', plain') ∧
      Gathered base plain' grads' cells' amount' ∧
      StaysPending base plain plain' cells cells' ∧
      (∀ holder, amount' holder =
        amount holder + if holder.id = x then entriesOf t.value else 0) ∧
      ∀ j, grads' j ≠ none ↔ grads j ≠ none ∨ j = x := by
  obtain ⟨grads₁, plain₁, cells₁, hmerge, h₁, hstays₁, hhas⟩ := h.mergeInto hu hnew hshape
  obtain ⟨plain₂, cells₂, haccumulate, h₂, hstays₂⟩ :=
    h₁.accumulate hu hrequired (hstays₁ id t hnew) hshape
  refine ⟨grads₁, plain₂, cells₂, _, ?_, h₂, fun j v hj => hstays₂ j v (hstays₁ j v hj), ?_, hhas⟩
  · unfold PlainStore.mergeGrad
    rw [hmerge]
    change (plain₁.accumulateIfRequired x id >>= _) = _
    rw [haccumulate]
    rfl
  · intro holder
    cases holder with
    | tensor j =>
      by_cases hj : j = x
      · subst hj
        rw [Function.update_self, Function.update_of_ne Holder.noConfusion]
        exact congrArg _ (if_pos rfl).symm
      · rw [Function.update_of_ne fun heq => hj (Holder.tensor.inj heq),
          Function.update_of_ne Holder.noConfusion]
        exact (add_zero _).symm.trans (congrArg _ (if_neg hj).symm)
    | merged j =>
      rw [Function.update_of_ne Holder.noConfusion]
      by_cases hj : j = x
      · subst hj
        rw [Function.update_self]
        exact congrArg _ (if_pos rfl).symm
      · rw [Function.update_of_ne fun heq => hj (Holder.merged.inj heq)]
        exact (add_zero _).symm.trans (congrArg _ (if_neg hj).symm)

end Gathered

end Arle.Autograd
