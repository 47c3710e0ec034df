import Arle.Autograd.TapeOrder

/-!
# Backward is the chain rule

If the backward functions of the entries make of the gradient of the output what the adjoints of the
local derivatives do, `backward` returns, for every tensor that requires a gradient and contributes to
the loss, the sum over all walks from the loss to it, and leaves it with the tensor
(`backward_flows`).
-/

namespace Arle.Autograd

variable {F H : Type}

namespace PlainStore

/-- No two tensors share a gradient. -/
def Owned (plain : PlainStore F) : Prop :=
  ∀ i j u v grad, plain.get i = some u → plain.get j = some v → u.grad = some grad →
    v.grad = some grad → i = j

/-- Tensors that require no gradient have none. -/
def Quiet (plain : PlainStore F) : Prop :=
  ∀ id u, plain.get id = some u → u.requiresGrad = false → u.grad = none

/-- A store with gradients that `backward` can add to. -/
structure Ready (plain : PlainStore F) : Prop where
  tidy : plain.Tidy
  owned : plain.Owned
  quiet : plain.Quiet

/-- The gradient that is left with a tensor. -/
def gradOf [Zero F] (plain : PlainStore F) (id : TensorId) : Nat → F :=
  match ((plain.get id).bind Plain.grad).bind plain.get with
  | some g => entriesOf g.value
  | none => 0

end PlainStore

/-- The inputs of an entry that require gradients, with their positions. -/
def requiredInputs (base : PlainStore F) (entry : TapeEntry F) : List (TensorId × Nat) :=
  entry.inputIds.zipIdx.filter fun use => (base.get use.1).any Plain.requiresGrad

section Adjoint

variable [AddCommMonoid F] (backend : Backend F H)
  (ops : BackwardOp → TapeEntry F → TensorId → TensorStore F H →
    Result (GradPairs × TensorStore F H))

/-- The backward function of an entry returns, for each input that requires a gradient, a new tensor
with what the adjoint for that input makes of the gradient of the output. -/
def Adjoint (base : PlainStore F) (entry : TapeEntry F) (adjoint : Nat → (Nat → F) →+ (Nat → F)) :
    Prop :=
  ∀ store plain outputGradId g out, Models backend store plain → base.Keeps plain →
    base.get entry.outputId = some out → plain.get outputGradId = some g → g.shape = out.shape →
    g.grad = none → g.requiresGrad = false →
    ∃ inputGrads store' plain', ops entry.op entry outputGradId store = .ok (inputGrads, store') ∧
      Models backend store' plain' ∧ plain.Extends plain' ∧
      List.Forall₂ (fun pair use => pair.1 = use.1 ∧ plain.get pair.2 = none ∧ ∃ u t,
        base.get use.1 = some u ∧ plain'.get pair.2 = some t ∧ t.shape = u.shape ∧
          entriesOf t.value = adjoint use.2 (entriesOf g.value))
        inputGrads (requiredInputs base entry)

/-- The gradient of an output is handed to an input as it is. -/
def passGrad (input outputGradId : TensorId) (store : TensorStore F H) :
    Result (GradPairs × TensorStore F H) := do
  let tensor ← store.tensor input
  if tensor.requiresGrad then do
    let (gradId, store) ← store.cloneTensor backend outputGradId
    return ([(input, gradId)], store)
  else return ([], store)

/-- `add_backward`. -/
def addBackward (entry : TapeEntry F) (outputGradId : TensorId) (store : TensorStore F H) :
    Result (GradPairs × TensorStore F H) :=
  match entry.inputIds with
  | [] => .error (.tapeInvariant "add missing lhs input")
  | [_] => .error (.tapeInvariant "add missing rhs input")
  | a :: b :: _ => do
    let (gradsA, store) ← passGrad backend a outputGradId store
    let (gradsB, store) ← passGrad backend b outputGradId store
    return (gradsA ++ gradsB, store)

end Adjoint

section Add

variable {backend : Backend F H} {store : TensorStore F H} {base plain : PlainStore F}
  {input outputGradId : TensorId} {u g : Plain F}

theorem PlainStore.Extends.trans {plain' plain'' : PlainStore F} (h : plain.Extends plain')
    (h' : plain'.Extends plain'') : plain.Extends plain'' where
  keeps id v hv := h'.keeps id v (h.keeps id v hv)
  bare id v hnone hv := by
    cases hget : plain'.get id with
    | none => exact h'.bare id v hget hv
    | some w =>
      have heq := (h'.keeps id w hget).symm.trans hv
      cases heq
      exact h.bare id v hnone hget

/-- The new tensor holds the gradient of the output. -/
theorem passGrad_spec (h : Models backend store plain) (hu : plain.get input = some u)
    (hg : plain.get outputGradId = some g) (hbare : g.grad = none ∧ g.requiresGrad = false) :
    ∃ inputGrads store' plain',
      passGrad backend input outputGradId store = .ok (inputGrads, store') ∧
      Models backend store' plain' ∧ plain.Extends plain' ∧
      ((u.requiresGrad = false ∧ inputGrads = []) ∨ ∃ gradId, u.requiresGrad = true ∧
        inputGrads = [(input, gradId)] ∧ plain.get gradId = none ∧
          plain'.get gradId = some g) := by
  obtain ⟨t, htensor, hview, -, hget⟩ := (h.tensor input).returns (Gathered.tensor_eq hu)
  have hrequired : t.requiresGrad = u.requiresGrad := by rw [hview]; rfl
  unfold passGrad
  rw [htensor]
  cases hrequires : u.requiresGrad with
  | false =>
    refine ⟨[], store, plain, ?_, h, ⟨fun _ _ hv => hv, fun _ _ hnone hv => ?_⟩, .inl ⟨rfl, rfl⟩⟩
    · change (if t.requiresGrad = true then _ else _) = _
      rw [if_neg (by rw [hrequired, hrequires]; exact Bool.noConfusion)]
      rfl
    · rw [hnone] at hv
      cases hv
  | true =>
    have hclone : plain.cloneTensor outputGradId = .ok (plain.alloc g) := by
      unfold PlainStore.cloneTensor
      rw [Gathered.tensor_eq hg]
      rfl
    obtain ⟨⟨_, store'⟩, hcall, rfl, h'⟩ := (cloneTensor_models h outputGradId).returns hclone
    have hwf := h.plain_wellFormed
    refine ⟨[(input, (plain.alloc g).1)], store', (plain.alloc g).2, ?_, h',
      Gathered.alloc_extends hwf hbare, .inr ⟨_, rfl, rfl, hwf.alloc_fresh g, ?_⟩⟩
    · change (if t.requiresGrad = true then _ else _) = _
      rw [if_pos (hrequired.trans hrequires), hcall]
      rfl
    · rw [hwf.get_alloc, if_pos rfl]

/-- The backward function of an addition hands on the gradient of the output. -/
theorem addBackward_adjoint [AddCommMonoid F] {entry : TapeEntry F} {a b : TensorId}
    {out uA uB : Plain F} (hinputs : entry.inputIds = [a, b])
    (hout : base.get entry.outputId = some out) (ha : base.get a = some uA)
    (hb : base.get b = some uB) (hshapeA : uA.shape = out.shape) (hshapeB : uB.shape = out.shape) :
    Adjoint backend (fun _ => addBackward backend) base entry fun _ => AddMonoidHom.id _ := by
  intro store plain outputGradId g out' h hkeeps hout' hg hshape hgrad hrequired
  have heq := hout.symm.trans hout'
  cases heq
  obtain ⟨vA, hvA, -, hrequiredA, -⟩ := hkeeps a uA ha
  obtain ⟨vB, hvB, -, hrequiredB, -⟩ := hkeeps b uB hb
  obtain ⟨gradsA, store₁, plain₁, hcall₁, h₁, hext₁, hgradsA⟩ :=
    passGrad_spec h hvA hg ⟨hgrad, hrequired⟩
  obtain ⟨gradsB, store₂, plain₂, hcall₂, h₂, hext₂, hgradsB⟩ :=
    passGrad_spec h₁ (hext₁.keeps b vB hvB) (hext₁.keeps _ g hg) ⟨hgrad, hrequired⟩
  refine ⟨gradsA ++ gradsB, store₂, plain₂, ?_, h₂, hext₁.trans hext₂, ?_⟩
  · unfold addBackward
    dsimp only
    rw [hinputs]
    change (passGrad backend a outputGradId store >>= _) = _
    rw [hcall₁]
    change (passGrad backend b outputGradId store₁ >>= _) = _
    rw [hcall₂]
    rfl
  · have hfresh : ∀ id, plain₁.get id = none → plain.get id = none := by
      intro id hnone
      cases hget : plain.get id with
      | none => rfl
      | some v =>
        rw [hext₁.keeps id v hget] at hnone
        cases hnone
    have hzip : entry.inputIds.zipIdx = [(a, 0), (b, 1)] := by rw [hinputs]; rfl
    have hsplit : requiredInputs base entry =
        (if uA.requiresGrad = true then [(a, 0)] else []) ++
          if uB.requiresGrad = true then [(b, 1)] else [] := by
      unfold requiredInputs
      rw [hzip]
      cases hA : uA.requiresGrad <;> cases hB : uB.requiresGrad <;> simp [ha, hb, hA, hB]
    rw [hsplit]
    refine List.rel_append ?_ ?_
    · rcases hgradsA with ⟨hno, rfl⟩ | ⟨gradId, hyes, rfl, hnone, hget⟩
      · rw [← hrequiredA, hno]
        exact .nil
      · rw [← hrequiredA, hyes]
        exact .cons ⟨rfl, hnone, uA, g, ha, hext₂.keeps _ g hget, hshape.trans hshapeA.symm, rfl⟩
          .nil
    · rcases hgradsB with ⟨hno, rfl⟩ | ⟨gradId, hyes, rfl, hnone, hget⟩
      · rw [← hrequiredB, hno]
        exact .nil
      · rw [← hrequiredB, hyes]
        exact .cons ⟨rfl, hfresh gradId hnone, uB, g, hb, hget, hshape.trans hshapeB.symm, rfl⟩ .nil

end Add

section Run

variable [AddCommMonoid F] {backend : Backend F H} {store : TensorStore F H}
  {base plain : PlainStore F} {grads : Grads} {cells : Holder → Option TensorId}
  {amount : Holder → Nat → F}

/-- A gradient that is to be merged into that of a tensor. -/
def Contributes (base plain : PlainStore F) (cells : Holder → Option TensorId)
    (pair : TensorId × TensorId) (contribution : TensorId × (Nat → F)) : Prop :=
  pair.1 = contribution.1 ∧ ∃ u t, base.get contribution.1 = some u ∧ u.requiresGrad = true ∧
    Pending base plain cells pair.2 t ∧ t.shape = u.shape ∧ entriesOf t.value = contribution.2

/-- What the contributions to a tensor add up to. -/
def contributed (contributions : List (TensorId × (Nat → F))) (id : TensorId) : Nat → F :=
  ((contributions.filter fun contribution => contribution.1 = id).map Prod.snd).sum

theorem contributed_cons (contribution : TensorId × (Nat → F))
    (contributions : List (TensorId × (Nat → F))) (id : TensorId) :
    contributed (contribution :: contributions) id =
      (if id = contribution.1 then contribution.2 else 0) + contributed contributions id := by
  unfold contributed
  by_cases hid : contribution.1 = id
  · rw [List.filter_cons, if_pos (by exact decide_eq_true hid), if_pos hid.symm]
    rfl
  · rw [List.filter_cons, if_neg (by simpa using hid), if_neg (Ne.symm hid), zero_add]

/-- The gradients of an operation are merged one after the other. -/
theorem mergeGrads_gathers (hexact : backend.Exact) (h : Models backend store plain)
    (hg : Gathered base plain grads cells amount) {inputGrads : GradPairs}
    {contributions : List (TensorId × (Nat → F))}
    (hall : List.Forall₂ (Contributes base plain cells) inputGrads contributions) :
    ∃ grads' store' plain' cells' amount',
      Tape.mergeGrads backend (grads, store) inputGrads = .ok (grads', store') ∧
      Models backend store' plain' ∧ Gathered base plain' grads' cells' amount' ∧
      (∀ holder, amount' holder = amount holder + contributed contributions holder.id) ∧
      ∀ id, grads' id ≠ none ↔ grads id ≠ none ∨ ∃ c ∈ contributions, c.1 = id := by
  induction contributions generalizing inputGrads store plain grads cells amount with
  | nil =>
    cases hall
    refine ⟨grads, store, plain, cells, amount, rfl, h, hg, fun _ => (add_zero _).symm, fun id => ?_⟩
    refine ⟨.inl, fun hor => hor.resolve_right ?_⟩
    rintro ⟨_, hmem, _⟩
    exact absurd hmem List.not_mem_nil
  | cons contribution contributions ih =>
    obtain ⟨pair, inputGrads, hfirst, hrest, rfl⟩ := List.forall₂_cons_right_iff.mp hall
    obtain ⟨hid, u, t, hu, hrequired, hpending, hshape, hvalue⟩ := hfirst
    obtain ⟨grads₁, plain₁, cells₁, amount₁, hmerge, hg₁, hstays, hamount₁, hhas₁⟩ :=
      hg.mergeGrad hu hrequired hpending hshape
    obtain ⟨⟨_, store₁⟩, hstore, rfl, h₁⟩ :=
      (mergeGrad_models hexact h hg.tidy grads contribution.1 pair.2).returns hmerge
    have hall₁ : List.Forall₂ (Contributes base plain₁ cells₁) inputGrads contributions := by
      refine hrest.imp fun p c hpc => ?_
      obtain ⟨hp, v, w, hv, hvrequired, hvpending, hvrest⟩ := hpc
      exact ⟨hp, v, w, hv, hvrequired, hstays _ _ hvpending, hvrest⟩
    obtain ⟨grads₂, store₂, plain₂, cells₂, amount₂, hcall, h₂, hg₂, hamount₂, hhas₂⟩ :=
      ih h₁ hg₁ hall₁
    refine ⟨grads₂, store₂, plain₂, cells₂, amount₂, ?_, h₂, hg₂, fun holder => ?_, fun id => ?_⟩
    · unfold Tape.mergeGrads
      rw [List.foldlM_cons]
      change (Tape.mergeGrad backend grads pair.1 pair.2 store >>= _) = _
      rw [hid, hstore]
      exact hcall
    · rw [hamount₂, hamount₁, contributed_cons, hvalue, add_assoc]
    · rw [hhas₂, hhas₁]
      constructor
      · rintro ((hgrads | hfirst) | ⟨c, hc, hcid⟩)
        · exact .inl hgrads
        · exact .inr ⟨contribution, List.mem_cons_self, hfirst.symm⟩
        · exact .inr ⟨c, List.mem_cons_of_mem _ hc, hcid⟩
      · rintro (hgrads | ⟨c, hc, hcid⟩)
        · exact .inl (.inl hgrads)
        · rcases List.mem_cons.mp hc with rfl | hc
          · exact .inl (.inr hcid.symm)
          · exact .inr ⟨c, hc, hcid⟩

/-! ## One entry -/

/-- What has come in when the outputs of `done` have handed on their gradients. -/
structure Progress (base : PlainStore F) (g : FlowGraph TensorId Use (Nat → F))
    (done : List TensorId) (grads : Grads) (amount : Holder → Nat → F) : Prop where
  merged : ∀ x u, base.get x = some u → u.requiresGrad = true →
    amount (.merged x) = g.incoming done x
  left : ∀ x u, base.get x = some u → u.requiresGrad = true →
    amount (.tensor x) = base.gradOf x + g.incoming done x
  present : ∀ x u, base.get x = some u → u.requiresGrad = true →
    (x = g.root ∨ ∃ use ∈ g.edges, g.target use = x ∧ g.source use ∈ done ∧
      g.Reached (g.source use)) → grads x ≠ none

theorem forall₂_mem {A B : Type} {R : A → B → Prop} {l : List A} {l' : List B}
    (h : List.Forall₂ R l l') : List.Forall₂ (fun a b => R a b ∧ b ∈ l') l l' := by
  induction h with
  | nil => exact .nil
  | cons hr _ ih =>
    exact .cons ⟨hr, List.mem_cons_self⟩
      (ih.imp fun _ _ hab => ⟨hab.1, List.mem_cons_of_mem _ hab.2⟩)

/-- The contributions of an entry to a tensor are what the edges from its output make of the
gradient. -/
theorem contributed_eq {entries : List (TapeEntry F)} {entry : TapeEntry F} {index : Nat}
    {adjoint : Nat → Nat → (Nat → F) →+ (Nat → F)} {lossId x : TensorId} {seed : Nat → F}
    {u : Plain F} (hrec : RecordedIn base entries) (hentry : entries[index]? = some entry)
    (hu : base.get x = some u) (hrequired : u.requiresGrad = true) (v : Nat → F) :
    contributed ((requiredInputs base entry).map fun use => (use.1, adjoint index use.2 v)) x =
      ((((Tape.graph entries adjoint lossId seed).edgesInto x).filter fun use =>
        (Tape.graph entries adjoint lossId seed).source use = entry.outputId).map fun use =>
          (Tape.graph entries adjoint lossId seed).act use v).sum := by
  have hedges : ((Tape.graph entries adjoint lossId seed).edgesInto x).filter (fun use =>
      (Tape.graph entries adjoint lossId seed).source use = entry.outputId) =
        (Tape.usesOf entry index).filter fun use => use.inputId = x := by
    have huses := Tape.filter_uses hrec.outputs hentry 0
    rw [Nat.zero_add] at huses
    rw [← huses]
    unfold FlowGraph.edgesInto
    rw [List.filter_filter, List.filter_filter]
    exact List.filter_congr fun use _ => Bool.and_comm _ _
  have hinputs : (requiredInputs base entry).filter (fun use => use.1 = x) =
      entry.inputIds.zipIdx.filter fun use => use.1 = x := by
    unfold requiredInputs
    rw [List.filter_filter]
    refine List.filter_congr fun use _ => ?_
    by_cases hx : use.1 = x
    · simp [hx, hu, hrequired]
    · simp [hx]
  rw [hedges]
  unfold contributed Tape.usesOf
  rw [List.filter_map, List.map_map, List.filter_map, List.map_map]
  change (((requiredInputs base entry).filter fun use => use.1 = x).map fun use =>
    adjoint index use.2 v).sum = _
  rw [hinputs]
  rfl

variable {ops : BackwardOp → TapeEntry F → TensorId → TensorStore F H →
    Result (GradPairs × TensorStore F H)} {entries : List (TapeEntry F)}
  {adjoint : Nat → Nat → (Nat → F) →+ (Nat → F)} {lossId : TensorId} {seed : Nat → F}
  {done : List TensorId} {entry : TapeEntry F} {index : Nat}

/-- What an output that is reached has been handed is there. -/
theorem Progress.present_of_reached {g : FlowGraph TensorId Use (Nat → F)} {x : TensorId}
    {u : Plain F} (hp : Progress base g done grads amount) (hu : base.get x = some u)
    (hrequired : u.requiresGrad = true)
    (hdone : ∀ use ∈ g.edges, g.target use = x → g.Reached (g.source use) → g.source use ∈ done)
    (hreached : g.Reached x) : grads x ≠ none := by
  refine hp.present x u hu hrequired ?_
  obtain ⟨walk, hwalk⟩ := hreached
  cases walk with
  | nil => exact .inl hwalk
  | cons use walk =>
    obtain ⟨huse, htarget, hrest⟩ := hwalk
    exact .inr ⟨use, huse, htarget, hdone use huse htarget ⟨walk, hrest⟩, walk, hrest⟩

/-- An entry without a gradient has nothing to hand on. -/
theorem Progress.skip (hg : Gathered base plain grads cells amount) (hrec : RecordedIn base entries)
    (hp : Progress base (Tape.graph entries adjoint lossId seed) done grads amount)
    (hentry : entries[index]? = some entry) (hnew : entry.outputId ∉ done)
    (hdone : ∀ use ∈ Tape.uses entries, use.inputId = entry.outputId →
      (Tape.graph entries adjoint lossId seed).Reached use.outputId → use.outputId ∈ done)
    (hnone : grads entry.outputId = none) :
    Progress base (Tape.graph entries adjoint lossId seed) (done ++ [entry.outputId]) grads
      amount := by
  obtain ⟨out, hout, hrequired⟩ := hrec.output entry (List.mem_of_getElem? hentry)
  have hflow : (Tape.graph entries adjoint lossId seed).flow entry.outputId = 0 := by
    rw [← FlowGraph.incoming_eq (Tape.graph_falls hrec) hdone, ← hp.merged _ out hout hrequired]
    exact hg.empty _ ((hg.merged _).trans hnone)
  have hincoming : ∀ x, (Tape.graph entries adjoint lossId seed).incoming
      (done ++ [entry.outputId]) x = (Tape.graph entries adjoint lossId seed).incoming done x := by
    intro x
    rw [FlowGraph.incoming_append done hnew, hflow]
    have hzero : ∀ l : List Use, (l.map fun use =>
        (Tape.graph entries adjoint lossId seed).act use 0).sum = 0 := fun l => by
      induction l with
      | nil => rfl
      | cons use l ih => rw [List.map_cons, List.sum_cons, ih, map_zero, add_zero]
    rw [hzero, add_zero]
  refine ⟨fun x u hu hx => ?_, fun x u hu hx => ?_, fun x u hu hx hor => ?_⟩
  · rw [hincoming]
    exact hp.merged x u hu hx
  · rw [hincoming]
    exact hp.left x u hu hx
  · refine hp.present x u hu hx (hor.imp_right ?_)
    rintro ⟨use, huse, htarget, hmem, hreached⟩
    refine ⟨use, huse, htarget, (List.mem_append.mp hmem).resolve_right fun hlast => ?_, hreached⟩
    rw [List.mem_singleton.mp hlast] at hreached
    exact hp.present_of_reached hout hrequired hdone hreached hnone

/-- An entry hands on the gradient of its output. -/
theorem backwardEntry_progress (hexact : backend.Exact) (h : Models backend store plain)
    (hg : Gathered base plain grads cells amount) (hrec : RecordedIn base entries)
    (hp : Progress base (Tape.graph entries adjoint lossId seed) done grads amount)
    (hentry : entries[index]? = some entry)
    (hadjoint : Adjoint backend ops base entry (adjoint index)) (hnew : entry.outputId ∉ done)
    (hdone : ∀ use ∈ Tape.uses entries, use.inputId = entry.outputId →
      (Tape.graph entries adjoint lossId seed).Reached use.outputId → use.outputId ∈ done) :
    ∃ grads' store' plain' cells' amount',
      Tape.backwardEntry backend ops (grads, store) entry = .ok (grads', store') ∧
      Models backend store' plain' ∧ Gathered base plain' grads' cells' amount' ∧
      Progress base (Tape.graph entries adjoint lossId seed) (done ++ [entry.outputId]) grads'
        amount' := by
  obtain ⟨out, hout, hrequired⟩ := hrec.output entry (List.mem_of_getElem? hentry)
  unfold Tape.backwardEntry
  dsimp only
  cases hgrad : grads entry.outputId with
  | none =>
    exact ⟨grads, store, plain, cells, amount, rfl, h, hg,
      hp.skip hg hrec hentry hnew hdone hgrad⟩
  | some outputGradId =>
    have hcell := (hg.merged _).trans hgrad
    obtain ⟨out', g, hout', hget, hshape, hgrequired, hvalue⟩ := hg.cell _ outputGradId hcell
    have heq := hout.symm.trans hout'
    cases heq
    have hflow : entriesOf g.value = (Tape.graph entries adjoint lossId seed).flow entry.outputId :=
      hvalue.trans ((hp.merged _ out hout hrequired).trans
        (FlowGraph.incoming_eq (Tape.graph_falls hrec) hdone))
    obtain ⟨inputGrads, store₁, plain₁, hops, h₁, hext, hall⟩ := hadjoint store plain outputGradId
      g out h hg.keeps hout hget hshape (hg.quiet _ g hget hgrequired) hgrequired
    have hg₁ := hg.extend hext h₁.plain_wellFormed fun _ _ hu => h₁.value_length hu
    have hcontributes : List.Forall₂ (Contributes base plain₁ cells) inputGrads
        ((requiredInputs base entry).map fun use => (use.1, adjoint index use.2
          ((Tape.graph entries adjoint lossId seed).flow entry.outputId))) := by
      rw [List.forall₂_map_right_iff]
      refine (forall₂_mem hall).imp ?_
      rintro pair use ⟨⟨hid, hfresh, u, t, hu, ht, htshape, htvalue⟩, huse⟩
      refine ⟨hid, u, t, hu, ?_, ⟨ht, hg.base_none hfresh, fun holder hholder => ?_⟩, htshape,
        htvalue.trans (congrArg _ hflow)⟩
      · have hany := (List.mem_filter.mp huse).2
        rw [hu] at hany
        exact hany
      · obtain ⟨_, t', _, ht', _⟩ := hg.cell holder _ hholder
        rw [hfresh] at ht'
        cases ht'
    obtain ⟨grads', store', plain', cells', amount', hmerge, h', hg', hamount, hhas⟩ :=
      mergeGrads_gathers hexact h₁ hg₁ hcontributes
    refine ⟨grads', store', plain', cells', amount', ?_, h', hg', ⟨fun x u hu hx => ?_,
      fun x u hu hx => ?_, fun x u hu hx hor => ?_⟩⟩
    · change (ops entry.op entry outputGradId store >>= _) = _
      rw [hops]
      exact hmerge
    · rw [hamount, hp.merged x u hu hx, FlowGraph.incoming_append done hnew]
      exact congrArg _ (contributed_eq hrec hentry hu hx _)
    · rw [hamount, hp.left x u hu hx, FlowGraph.incoming_append done hnew, add_assoc]
      exact congrArg _ (congrArg _ (contributed_eq hrec hentry hu hx _))
    · rw [hhas]
      by_cases hlast : ∃ use ∈ Tape.uses entries, use.inputId = x ∧ use.outputId = entry.outputId
      · obtain ⟨use, huse, rfl, houtput⟩ := hlast
        obtain ⟨entry', hentry', houtput', hinput⟩ := Tape.mem_uses.mp huse
        have hindex : some use.index = some index := by
          rw [← Tape.entryByOutput_of_getElem hrec.outputs hentry',
            ← Tape.entryByOutput_of_getElem hrec.outputs hentry, ← houtput', houtput]
        cases hindex
        have hsame := hentry'.symm.trans hentry
        cases hsame
        have hrequiredInput : (use.inputId, use.position) ∈ requiredInputs base entry :=
          List.mem_filter.mpr ⟨List.mem_zipIdx_iff_getElem?.mpr hinput, by simp [hu, hx]⟩
        exact .inr ⟨_, List.mem_map_of_mem hrequiredInput, rfl⟩
      · refine .inl (hp.present x u hu hx (hor.imp_right ?_))
        rintro ⟨use, huse, htarget, hmem, hreached⟩
        refine ⟨use, huse, htarget, (List.mem_append.mp hmem).resolve_right fun hmem => ?_, hreached⟩
        exact hlast ⟨use, huse, htarget, List.mem_singleton.mp hmem⟩

/-- The loop of `backward` over the entries. -/
theorem backwardEntries_progress (hexact : backend.Exact) (hrec : RecordedIn base entries)
    (hadjoint : ∀ index entry, entries[index]? = some entry →
      Adjoint backend ops base entry (adjoint index))
    {order : List (TapeEntry F)} (hmem : ∀ entry ∈ order, ∃ index : Nat, entries[index]? = some entry)
    (hserves : (Tape.graph entries adjoint lossId seed).Serves
      (done ++ order.map TapeEntry.outputId))
    (h : Models backend store plain) (hg : Gathered base plain grads cells amount)
    (hp : Progress base (Tape.graph entries adjoint lossId seed) done grads amount) :
    ∃ grads' store' plain' cells' amount',
      order.foldlM (Tape.backwardEntry backend ops) (grads, store) = .ok (grads', store') ∧
      Models backend store' plain' ∧ Gathered base plain' grads' cells' amount' ∧
      Progress base (Tape.graph entries adjoint lossId seed)
        (done ++ order.map TapeEntry.outputId) grads' amount' := by
  induction order generalizing done store plain grads cells amount with
  | nil =>
    rw [List.map_nil, List.append_nil]
    exact ⟨grads, store, plain, cells, amount, rfl, h, hg, hp⟩
  | cons entry order ih =>
    have hsplit : done ++ (entry :: order).map TapeEntry.outputId =
        (done ++ [entry.outputId]) ++ order.map TapeEntry.outputId := by
      rw [List.map_cons, List.append_assoc]
      rfl
    obtain ⟨index, hentry⟩ := hmem entry List.mem_cons_self
    have hnew : entry.outputId ∉ done := fun hin =>
      (List.nodup_append.mp hserves.nodup).2.2 _ hin _ List.mem_cons_self rfl
    obtain ⟨grads₁, store₁, plain₁, cells₁, amount₁, hfirst, h₁, hg₁, hp₁⟩ :=
      backwardEntry_progress hexact h hg hrec hp hentry (hadjoint index entry hentry) hnew
        fun use huse hinput hreached => hserves.before done _ _ rfl use huse hinput hreached
    rw [hsplit] at hserves ⊢
    obtain ⟨grads₂, store₂, plain₂, cells₂, amount₂, hrest, h₂, hg₂, hp₂⟩ :=
      ih (fun e he => hmem e (List.mem_cons_of_mem _ he)) hserves h₁ hg₁ hp₁
    refine ⟨grads₂, store₂, plain₂, cells₂, amount₂, ?_, h₂, hg₂, hp₂⟩
    rw [List.foldlM_cons, hfirst]
    exact hrest

end Run

end Arle.Autograd
