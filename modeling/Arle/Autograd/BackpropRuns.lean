import Arle.Autograd.Backprop

/-!
# Runs of backward

`backward` starts from the seed at the loss and ends when all flows have come in
(`backward_flows`). The store is then ready for the next tape: after a clean-up the parameters have
their gradients still, so the gradients of any number of tapes add up (`rounds_gradOf`).
-/

namespace Arle.Autograd

variable {F H : Type}

section Seed

variable [AddCommMonoid F] {backend : Backend F H} {store : TensorStore F H}
  {base plain : PlainStore F} {grads : Grads} {cells : Holder → Option TensorId}
  {amount : Holder → Nat → F} {entries : List (TapeEntry F)}
  {adjoint : Nat → Nat → (Nat → F) →+ (Nat → F)} {lossId : TensorId} {seed : Nat → F}

/-- The cells that are there before a run: the gradients that the tensors have. -/
def cellsBefore (base : PlainStore F) : Holder → Option TensorId
  | .tensor id => (base.get id).bind Plain.grad
  | .merged _ => none

def amountBefore (base : PlainStore F) : Holder → Nat → F
  | .tensor id => base.gradOf id
  | .merged _ => 0

theorem gathered_before (h : Models backend store base) (hready : base.Ready) :
    Gathered base base (fun _ => none) (cellsBefore base) (amountBefore base) := by
  have hgrad : ∀ id grad, (base.get id).bind Plain.grad = some grad →
      ∃ u, base.get id = some u ∧ u.grad = some grad := fun id grad hcell =>
    Option.bind_eq_some_iff.mp hcell
  refine ⟨h.plain_wellFormed, fun _ _ hu => h.value_length hu,
    fun id u hu => ⟨u, hu, rfl, rfl, fun _ => rfl⟩, ?_, ?_, ?_, ?_, ?_, fun _ => rfl, ?_,
    hready.quiet⟩
  · intro holder grad hcell
    cases holder with
    | merged id => cases hcell
    | tensor id =>
      obtain ⟨u, hu, hugrad⟩ := hgrad id grad hcell
      obtain ⟨g, hg, hshape, hrequired⟩ := hready.tidy id u grad hu hugrad
      refine ⟨u, g, hu, hg, hshape, hrequired, ?_⟩
      unfold amountBefore PlainStore.gradOf
      dsimp only
      rw [show (base.get id).bind Plain.grad = some grad from hcell, Option.bind_some, hg]
  · intro holder hnone
    cases holder with
    | merged id => rfl
    | tensor id =>
      unfold amountBefore PlainStore.gradOf
      dsimp only
      rw [show (base.get id).bind Plain.grad = none from hnone, Option.bind_none]
  · intro holder holder' grad hcell hcell'
    cases holder with
    | merged id => cases hcell
    | tensor id =>
      cases holder' with
      | merged id' => cases hcell'
      | tensor id' =>
        obtain ⟨u, hu, hugrad⟩ := hgrad id grad hcell
        obtain ⟨v, hv, hvgrad⟩ := hgrad id' grad hcell'
        rw [hready.owned id id' u v grad hu hv hugrad hvgrad]
  · intro holder grad hcell
    cases holder with
    | merged id => cases hcell
    | tensor id =>
      obtain ⟨u, hu, hugrad⟩ := hgrad id grad hcell
      exact .inr ⟨id, u, hu, hugrad⟩
  · intro id u _ hu
    exact (congrArg (Option.bind · Plain.grad) hu).trans rfl
  · intro id u hnone hu
    rw [hnone] at hu
    cases hu

/-- What a tensor has been left is in its cell. -/
theorem Gathered.gradOf_eq (hg : Gathered base plain grads cells amount) {id : TensorId}
    {u : Plain F} (hu : base.get id = some u) : plain.gradOf id = amount (.tensor id) := by
  obtain ⟨v, hv, -⟩ := hg.keeps id u hu
  have hleft := hg.left id v (hu ▸ Option.some_ne_none u) hv
  unfold PlainStore.gradOf
  rw [hv, Option.bind_some, ← hleft]
  cases hcell : cells (.tensor id) with
  | none => exact (hg.empty _ hcell).symm
  | some grad =>
    obtain ⟨_, t, _, ht, _, _, hvalue⟩ := hg.cell _ grad hcell
    rw [Option.bind_some, ht]
    exact hvalue

theorem incoming_nil (x : TensorId) :
    (Tape.graph entries adjoint lossId seed).incoming [] x = if x = lossId then seed else 0 := by
  unfold FlowGraph.incoming
  rw [List.filter_eq_nil_iff.mpr]
  · exact add_zero _
  · exact fun use _ hin => absurd (of_decide_eq_true hin) List.not_mem_nil

/-- Only a tensor that requires a gradient gets the amount. -/
theorem Gathered.accumulateIfRequired {out t : Plain F} {id : TensorId}
    (hg : Gathered base plain grads cells amount) (hout : base.get lossId = some out)
    (hpending : Pending base plain cells id t) (hshape : t.shape = out.shape) :
    ∃ plain' cells' amount', plain.accumulateIfRequired lossId id = .ok plain' ∧
      Gathered base plain' grads cells' amount' ∧ Pending base plain' cells' id t ∧
      (∀ x, amount' (.merged x) = amount (.merged x)) ∧
      ∀ x u, base.get x = some u → u.requiresGrad = true → amount' (.tensor x) =
        amount (.tensor x) + if x = lossId then entriesOf t.value else 0 := by
  cases hrequired : out.requiresGrad with
  | true =>
    obtain ⟨plain', cells', hcall, hg', hstays⟩ := hg.accumulate hout hrequired hpending hshape
    refine ⟨plain', cells', _, hcall, hg', hstays id t hpending, fun x => ?_, fun x u _ _ => ?_⟩
    · exact Function.update_of_ne Holder.noConfusion _ _
    · by_cases hx : x = lossId
      · subst hx
        rw [Function.update_self, if_pos rfl]
      · rw [Function.update_of_ne fun heq => hx (Holder.tensor.inj heq), if_neg hx, add_zero]
  | false =>
    refine ⟨plain, cells, amount, ?_, hg, hpending, fun _ => rfl, fun x u hu hx => ?_⟩
    · obtain ⟨v, hv, -, hvrequired, -⟩ := hg.keeps lossId out hout
      unfold PlainStore.accumulateIfRequired
      rw [hv, if_neg]
      rw [Option.any_some, hvrequired, hrequired]
      exact Bool.noConfusion
    · rw [if_neg, add_zero]
      rintro rfl
      rw [hout] at hu
      cases hu
      rw [hrequired] at hx
      cases hx

/-- The run starts with the seed at the loss. -/
theorem seedGrads_progress [One F] (hexact : backend.Exact) (h : Models backend store base)
    (hready : base.Ready) {out : Plain F} (hout : base.get lossId = some out) :
    ∃ grads' store' plain' cells' amount',
      Tape.seedGrads backend lossId store = .ok (grads', store') ∧
      Models backend store' plain' ∧ Gathered base plain' grads' cells' amount' ∧
      Progress base (Tape.graph entries adjoint lossId
        (entriesOf (List.replicate (shapeSize out.shape) 1))) [] grads' amount' := by
  let t : Plain F := ⟨List.replicate (shapeSize out.shape) 1, out.shape, false, none⟩
  have hfill : base.fillLike lossId 1 = .ok (base.alloc t) := by
    unfold PlainStore.fillLike
    rw [Gathered.tensor_eq hout]
    rfl
  obtain ⟨⟨_, store₁⟩, hcall₁, rfl, h₁⟩ := (fillLike_models h lossId 1).returns hfill
  have hlen : t.value.length = shapeSize t.shape := List.length_replicate
  obtain ⟨hg₁, hpending, -⟩ := (gathered_before h hready).alloc ⟨rfl, rfl⟩ hlen
  obtain ⟨store₂, hcall₂, h₂, -⟩ :=
    (ensureDevice_models hexact h₁ (base.alloc t).1).returns (Gathered.tensor_eq hpending.get)
  obtain ⟨plain₃, cells₃, amount₃, hcall₃, hg₃, hpending₃, hmerged, hleft⟩ :=
    hg₁.accumulateIfRequired hout hpending rfl
  have hzero : ∀ x, amount₃ (.merged x) = 0 := hmerged
  have hgradOf : ∀ x u, base.get x = some u → u.requiresGrad = true → amount₃ (.tensor x) =
      base.gradOf x + if x = lossId then entriesOf t.value else 0 := hleft
  obtain ⟨store₃, hstore₃, h₃⟩ :=
    (accumulateIfRequired_models hexact h₂ (hg₁.tidy.fits lossId) _).returns hcall₃
  have hplace := hg₃.place_merged (hg₃.merged lossId) hout hpending₃ rfl
  refine ⟨_, store₃, plain₃, _, _, ?_, h₃, hplace, ⟨fun x u _ _ => ?_, fun x u hu hx => ?_,
    fun x u hu hx hor => ?_⟩⟩
  · unfold Tape.seedGrads
    rw [hcall₁]
    change (store₁.ensureDevice backend (base.alloc t).1 >>= _) = _
    rw [hcall₂]
    change (Tape.accumulateIfRequired backend lossId (base.alloc t).1 store₂ >>= _) = _
    rw [hstore₃]
    rfl
  · rw [incoming_nil]
    by_cases hx : x = lossId
    · subst hx
      rw [Function.update_self, hzero, zero_add, if_pos rfl]
    · rw [Function.update_of_ne fun heq => hx (Holder.merged.inj heq), hzero, if_neg hx]
  · rw [Function.update_of_ne Holder.noConfusion, hgradOf x u hu hx, incoming_nil]
  · rcases hor with rfl | ⟨use, _, _, hin, _⟩
    · rw [Function.update_self]
      exact Option.some_ne_none _
    · exact absurd hin List.not_mem_nil

end Seed

/-! ## A run -/

namespace PlainStore

variable {plain plain' : PlainStore F}

/-- What is left of a store when nothing is taken from under a tensor. -/
theorem Ready.restrict (h : plain.Ready)
    (hget : ∀ id u, plain'.get id = some u → plain.get id = some u)
    (hgrad : ∀ id u grad, plain'.get id = some u → u.grad = some grad →
      plain'.get grad = plain.get grad) : plain'.Ready where
  tidy id u grad hu hugrad := by
    rw [hgrad id u grad hu hugrad]
    exact h.tidy id u grad (hget id u hu) hugrad
  owned i j u v grad hu hv := h.owned i j u v grad (hget i u hu) (hget j v hv)
  quiet id u hu := h.quiet id u (hget id u hu)

/-- A new tensor without a gradient. -/
theorem Ready.alloc (h : plain.Ready) (hwf : plain.WellFormed) {t : Plain F} (ht : t.grad = none) :
    PlainStore.Ready (plain.alloc t).2 := by
  have hold : ∀ id u grad, (plain.alloc t).2.get id = some u → u.grad = some grad →
      plain.get id = some u := by
    intro id u grad hu hgrad
    rw [hwf.get_alloc] at hu
    split at hu
    · cases hu
      rw [ht] at hgrad
      cases hgrad
    · exact hu
  refine ⟨fun id u grad hu hgrad => ?_, fun i j u v grad hu hv hugrad hvgrad => ?_,
    fun id u hu hrequired => ?_⟩
  · obtain ⟨g, hg, hrest⟩ := h.tidy id u grad (hold id u grad hu hgrad) hgrad
    refine ⟨g, ?_, hrest⟩
    rw [hwf.get_alloc, if_neg]
    · exact hg
    · rintro rfl
      rw [hwf.alloc_fresh] at hg
      cases hg
  · exact h.owned i j u v grad (hold i u grad hu hugrad) (hold j v grad hv hvgrad) hugrad hvgrad
  · rw [hwf.get_alloc] at hu
    split at hu
    · cases hu
      exact ht
    · exact h.quiet id u hu hrequired

theorem get_release_of_ne {id j : TensorId} {t : Plain F} (ht : plain.get id = some t)
    (hj : j ≠ id) : (plain.release id).get j = plain.get j := by
  rw [Slab.get_release (Slab.lt_length ht), if_neg hj]

/-- A tensor that is no gradient can go. -/
theorem Ready.release (h : plain.Ready) {id : TensorId} {t : Plain F} (ht : plain.get id = some t)
    (hgrads : ∀ j u grad, plain.get j = some u → u.grad = some grad → grad ≠ id) :
    PlainStore.Ready (plain.release id) := by
  have hold : ∀ j u, (plain.release id).get j = some u → plain.get j = some u := by
    intro j u hu
    rw [Slab.get_release (Slab.lt_length ht)] at hu
    split at hu
    · cases hu
    · exact hu
  exact h.restrict hold fun j u grad hu hgrad =>
    get_release_of_ne ht (hgrads j u grad (hold j u hu) hgrad)

end PlainStore

/-- The outputs of a recorded tape can be read back. -/
theorem flushOutputs_returns {backend : Backend F H} {store : TensorStore F H}
    {base : PlainStore F} (h : Models backend store base) (tape : Tape F) :
    ∃ store', tape.flushOutputs backend store = .ok store' ∧ Models backend store' base := by
  unfold Tape.flushOutputs
  dsimp only
  split
  · refine flushToHostBatch_returns h fun id hid hnone => ?_
    obtain ⟨entry, hentry, rfl⟩ := List.mem_map.mp hid
    have hany := (List.mem_filter.mp hentry).2
    rw [hnone] at hany
    cases hany
  · exact ⟨store, rfl, h⟩

section Run

variable [AddCommMonoid F] {backend : Backend F H} {store : TensorStore F H}
  {base plain : PlainStore F} {grads : Grads} {cells : Holder → Option TensorId}
  {amount : Holder → Nat → F}
  {ops : BackwardOp → TapeEntry F → TensorId → TensorStore F H →
    Result (GradPairs × TensorStore F H)}
  {adjoint : Nat → Nat → (Nat → F) →+ (Nat → F)} {lossId : TensorId} {out : Plain F}

theorem Gathered.ready (hg : Gathered base plain grads cells amount) : plain.Ready := by
  have hcell : ∀ id u grad, plain.get id = some u → u.grad = some grad →
      cells (.tensor id) = some grad := by
    intro id u grad hu hgrad
    cases hbase : base.get id with
    | none =>
      rw [(hg.bare id u hbase hu).1] at hgrad
      cases hgrad
    | some b => exact (hg.left id u (hbase ▸ Option.some_ne_none b) hu).trans hgrad
  refine ⟨hg.tidy, fun i j u v grad hu hv hugrad hvgrad => ?_, hg.quiet⟩
  exact Holder.tensor.inj
    (hg.own _ _ grad (hcell i u grad hu hugrad) (hcell j v grad hv hvgrad))

/-- The seed. -/
def ones [One F] (shape : List Nat) : Nat → F := entriesOf (List.replicate (shapeSize shape) 1)

/-- What a run leaves with the tensors and in its map. -/
def Receives (base plain' : PlainStore F) (g : FlowGraph TensorId Use (Nat → F)) (grads : Grads) :
    Prop :=
  ∀ x u, base.get x = some u → u.requiresGrad = true →
    plain'.gradOf x = base.gradOf x + g.flow x ∧
    (g.Reached x → ∃ gradId t, grads x = some gradId ∧ plain'.get gradId = some t ∧
      t.shape = u.shape ∧ entriesOf t.value = g.flow x)

/-- `backward` returns, and the flows have come in. -/
theorem backward_flows [One F] (hexact : backend.Exact) (h : Models backend store base)
    (hready : base.Ready) {tape : Tape F} (hrec : RecordedIn base tape.entries)
    (hadjoint : ∀ index entry, tape.entries[index]? = some entry →
      Adjoint backend ops base entry (adjoint index)) (hout : base.get lossId = some out) :
    ∃ postOrder grads store' plain', tape.postOrder lossId = some postOrder ∧
      (Tape.graph tape.entries adjoint lossId (ones out.shape)).Serves
        ((Tape.order tape.entries postOrder).map TapeEntry.outputId) ∧
      tape.backward backend ops lossId store = .ok (grads, store') ∧
      Models backend store' plain' ∧ plain'.Ready ∧ base.Keeps plain' ∧
      Receives base plain' (Tape.graph tape.entries adjoint lossId (ones out.shape)) grads := by
  obtain ⟨postOrder, hpost, hserves⟩ := Tape.order_serves hrec tape.enabled
  obtain ⟨store₀, hflush, h₀⟩ := flushOutputs_returns h tape
  obtain ⟨grads₁, store₁, plain₁, cells₁, amount₁, hseed, h₁, hg₁, hp₁⟩ :=
    seedGrads_progress hexact h₀ hready hout
  obtain ⟨grads₂, store₂, plain₂, cells₂, amount₂, hloop, h₂, hg₂, hp₂⟩ :=
    backwardEntries_progress hexact hrec hadjoint (fun _ hmem => Tape.mem_order hmem)
      (by exact hserves) h₁ hg₁ hp₁
  have hall := hserves.incoming_all (Tape.graph_falls hrec)
  refine ⟨postOrder, grads₂, store₂, plain₂, hpost, hserves, ?_, h₂, hg₂.ready, hg₂.keeps,
    fun x u hu hx => ⟨?_, fun hreached => ?_⟩⟩
  · unfold Tape.backward
    rw [hflush]
    dsimp only [bind, Except.bind]
    rw [hpost]
    dsimp only
    rw [hseed]
    exact hloop
  · rw [hg₂.gradOf_eq hu, hp₂.left x u hu hx]
    exact congrArg _ (hall x)
  · have hpresent := hp₂.present_of_reached hu hx
      (fun use huse _ hreached => hserves.mem use huse hreached) hreached
    obtain ⟨gradId, hgrad⟩ := Option.ne_none_iff_exists'.mp hpresent
    obtain ⟨u', t, hu', ht, hshape, -, hvalue⟩ := hg₂.cell _ gradId ((hg₂.merged x).trans hgrad)
    have heq := hu.symm.trans hu'
    cases heq
    exact ⟨gradId, t, hgrad, ht, hshape,
      hvalue.trans ((hp₂.merged x u hu hx).trans (hall x))⟩

end Run

/-! ## Recording a tape -/

/-- What a forward pass does to a store and a tape: it allocates tensors, records operations that it
has computed, moves tensors between host and device, switches the tape on and off, and frees tensors
that neither the tape nor `held` names. -/
inductive Recording (backend : Backend F H) (held : List TensorId) (start : TensorStore F H)
    (tape₀ : Tape F) : TensorStore F H → Tape F → Prop
  | start : Recording backend held start tape₀ start tape₀
  | alloc {store : TensorStore F H} {tape : Tape F} {t : Tensor F H} :
      Recording backend held start tape₀ store tape → t.Resident backend → t.grad = none →
      Recording backend held start tape₀ (store.alloc t).2 tape
  | op {store : TensorStore F H} {tape : Tape F} {t : Tensor F H} (op : BackwardOp)
      (inputIds : List TensorId) (saved : SavedContext F) :
      Recording backend held start tape₀ store tape → t.Resident backend → t.grad = none →
      t.requiresGrad = true → (∀ id ∈ inputIds, store.get id ≠ none) →
      Recording backend held start tape₀ (store.alloc t).2
        (tape.record ⟨op, (store.alloc t).1, inputIds, saved⟩)
  | transfer {store store' : TensorStore F H} {tape : Tape F} :
      Recording backend held start tape₀ store tape →
      (∀ plain, Models backend store plain → Models backend store' plain) →
      Recording backend held start tape₀ store' tape
  | setEnabled {store : TensorStore F H} {tape : Tape F} (enabled : Bool) :
      Recording backend held start tape₀ store tape →
      Recording backend held start tape₀ store (tape.setEnabled enabled)
  | free {store : TensorStore F H} {tape : Tape F} {t : Tensor F H} {id : TensorId} :
      Recording backend held start tape₀ store tape → store.get id = some t → id ∉ held →
      (∀ entry ∈ tape.entries, entry.outputId ≠ id ∧ id ∉ entry.inputIds) →
      (∀ j u, store.get j = some u → u.grad ≠ some id) →
      Recording backend held start tape₀ (store.release id) tape

/-- The held tensors and their gradients are as they were. -/
def Unchanged (held : List TensorId) (base plain : PlainStore F) : Prop :=
  ∀ id ∈ held, ∀ u, base.get id = some u → plain.get id = some u ∧
    ∀ grad, u.grad = some grad → plain.get grad = base.get grad

section Record

variable {base plain plain' : PlainStore F} {held : List TensorId} {entries : List (TapeEntry F)}
  {entry : TapeEntry F}

theorem RecordedIn.mono (h : RecordedIn plain entries) (hkeep : ∀ entry ∈ entries,
    plain'.get entry.outputId = plain.get entry.outputId ∧
      ∀ id ∈ entry.inputIds, plain'.get id = plain.get id) : RecordedIn plain' entries where
  outputs := h.outputs
  output entry hentry := by
    rw [(hkeep entry hentry).1]
    exact h.output entry hentry
  inputs entry hentry id hid := by
    rw [(hkeep entry hentry).2 id hid]
    exact h.inputs entry hentry id hid
  earlier := h.earlier

theorem get_alloc_of_live (hwf : plain.WellFormed) (t : Plain F) {id : TensorId}
    (hid : plain.get id ≠ none) : (plain.alloc t).2.get id = plain.get id := by
  rw [hwf.get_alloc, if_neg]
  rintro rfl
  exact hid (hwf.alloc_fresh t)

theorem RecordedIn.alloc (h : RecordedIn plain entries) (hwf : plain.WellFormed) (t : Plain F) :
    RecordedIn (plain.alloc t).2 entries := by
  refine h.mono fun entry hentry => ⟨?_, fun id hid => ?_⟩
  · obtain ⟨u, hu, -⟩ := h.output entry hentry
    exact get_alloc_of_live hwf t (hu ▸ Option.some_ne_none u)
  · exact get_alloc_of_live hwf t (h.inputs entry hentry id hid)

/-- An output that is new to the store is new to the tape. -/
theorem RecordedIn.record (h : RecordedIn plain entries) (hwf : plain.WellFormed) {t : Plain F}
    (hrequired : t.requiresGrad = true) (houtput : entry.outputId = (plain.alloc t).1)
    (hinputs : ∀ id ∈ entry.inputIds, plain.get id ≠ none) :
    RecordedIn (plain.alloc t).2 (entries ++ [entry]) := by
  have hfresh : plain.get entry.outputId = none := houtput ▸ hwf.alloc_fresh t
  have hold := h.alloc hwf t
  refine ⟨?_, fun e he => ?_, fun e he id hid => ?_, fun i j e e' hi hj hmem => ?_⟩
  · rw [List.map_append]
    refine List.nodup_append.mpr ⟨h.outputs, List.nodup_singleton _, fun a ha b hb hab => ?_⟩
    obtain ⟨e, he, rfl⟩ := List.mem_map.mp ha
    obtain ⟨u, hu, -⟩ := h.output e he
    rw [hab, List.mem_singleton.mp hb, hfresh] at hu
    cases hu
  · rcases List.mem_append.mp he with he | he
    · exact hold.output e he
    · rw [List.mem_singleton.mp he, houtput, hwf.get_alloc, if_pos rfl]
      exact ⟨t, rfl, hrequired⟩
  · rcases List.mem_append.mp he with he | he
    · exact hold.inputs e he id hid
    · rw [List.mem_singleton.mp he] at hid
      rw [get_alloc_of_live hwf t (hinputs id hid)]
      exact hinputs id hid
  · -- no input of an entry is the output of a later one, since it was there before
    have hlive : plain.get e'.outputId ≠ none := by
      rcases List.mem_append.mp (List.mem_of_getElem? hi) with he | he
      · exact h.inputs e he _ hmem
      · rw [List.mem_singleton.mp he] at hmem
        exact hinputs _ hmem
    have hlt : j < entries.length := by
      by_contra hge
      rw [List.getElem?_append_right (Nat.not_lt.mp hge)] at hj
      rw [List.mem_singleton.mp (List.mem_of_getElem? hj)] at hlive
      exact hlive hfresh
    rcases Nat.lt_or_ge i entries.length with hilt | hige
    · rw [List.getElem?_append_left hilt] at hi
      rw [List.getElem?_append_left hlt] at hj
      exact h.earlier i j e e' hi hj hmem
    · exact hlt.trans_le hige

theorem Unchanged.refl : Unchanged held base base := fun _ _ _ hu => ⟨hu, fun _ _ => rfl⟩

theorem Unchanged.mono (h : Unchanged held base plain) (htidy : base.Tidy)
    (hkeep : ∀ id ∈ held, ∀ u, plain.get id = some u → plain'.get id = plain.get id ∧
      ∀ grad g, u.grad = some grad → plain.get grad = some g →
        plain'.get grad = plain.get grad) : Unchanged held base plain' := by
  intro id hid u hu
  obtain ⟨hget, hgrad⟩ := h id hid u hu
  obtain ⟨hsame, hsameGrad⟩ := hkeep id hid u hget
  refine ⟨hsame.trans hget, fun grad hugrad => ?_⟩
  obtain ⟨g, hg, -⟩ := htidy id u grad hu hugrad
  have hlive := (hgrad grad hugrad).trans hg
  exact (hsameGrad grad g hugrad hlive).trans (hgrad grad hugrad)

theorem Unchanged.gradOf_eq [Zero F] (h : Unchanged held base plain) {id : TensorId}
    (hid : id ∈ held) {u : Plain F} (hu : base.get id = some u) :
    plain.gradOf id = base.gradOf id := by
  obtain ⟨hget, hgrad⟩ := h id hid u hu
  unfold PlainStore.gradOf
  rw [hget, hu, Option.bind_some]
  cases hugrad : u.grad with
  | none => rfl
  | some grad => rw [Option.bind_some, Option.bind_some, hgrad grad hugrad]

variable {backend : Backend F H} {start store : TensorStore F H} {tape₀ tape : Tape F}

/-- What is recorded from an empty tape on. -/
theorem Recording.recorded (hrun : Recording backend held start tape₀ store tape)
    (hempty : tape₀.entries = []) (h : Models backend start base) (hready : base.Ready) :
    ∃ plain, Models backend store plain ∧ plain.Ready ∧ RecordedIn plain tape.entries ∧
      Unchanged held base plain := by
  induction hrun with
  | start =>
    refine ⟨base, h, hready, ?_, .refl⟩
    rw [hempty]
    exact ⟨List.nodup_nil, fun _ he => absurd he List.not_mem_nil,
      fun _ he => absurd he List.not_mem_nil, fun i j e e' he => by cases he⟩
  | @alloc store tape t _ hres hgrad ih =>
    obtain ⟨plain, hmodels, hready', hrec, hunchanged⟩ := ih
    have hwf := hmodels.plain_wellFormed
    refine ⟨_, (hmodels.alloc hres).2, hready'.alloc hwf hgrad, hrec.alloc hwf _,
      hunchanged.mono hready.tidy fun id _ u hu => ⟨?_, fun grad g _ hg => ?_⟩⟩
    · exact get_alloc_of_live hwf _ (hu ▸ Option.some_ne_none u)
    · exact get_alloc_of_live hwf _ (hg ▸ Option.some_ne_none g)
  | @op store tape t op inputIds saved _ hres hgrad hrequired hinputs ih =>
    obtain ⟨plain, hmodels, hready', hrec, hunchanged⟩ := ih
    have hwf := hmodels.plain_wellFormed
    obtain ⟨hid, hmodels'⟩ := hmodels.alloc hres
    refine ⟨_, hmodels', hready'.alloc hwf hgrad, ?_,
      hunchanged.mono hready.tidy fun id _ u hu => ⟨?_, fun grad g _ hg => ?_⟩⟩
    · unfold Tape.record
      split
      · refine hrec.record hwf hrequired hid fun id hin => ?_
        rw [hmodels.get_eq]
        exact fun hnone => hinputs id hin (Option.map_eq_none_iff.mp hnone)
      · exact hrec.alloc hwf _
    · exact get_alloc_of_live hwf _ (hu ▸ Option.some_ne_none u)
    · exact get_alloc_of_live hwf _ (hg ▸ Option.some_ne_none g)
  | transfer _ htransfer ih =>
    obtain ⟨plain, hmodels, hrest⟩ := ih
    exact ⟨plain, htransfer plain hmodels, hrest⟩
  | setEnabled enabled _ ih => exact ih
  | @free store tape t id _ hget hheld hunused hnograd ih =>
    obtain ⟨plain, hmodels, hready', hrec, hunchanged⟩ := ih
    have hplain : plain.get id = some (t.plain backend) := by
      rw [hmodels.get_eq, hget]
      rfl
    have hrelease : ∀ j, j ≠ id → (plain.release id).get j = plain.get j := fun j hj =>
      PlainStore.get_release_of_ne hplain hj
    have hgrads : ∀ j u grad, plain.get j = some u → u.grad = some grad → grad ≠ id := by
      rintro j u grad hu hgrad rfl
      rw [hmodels.get_eq] at hu
      obtain ⟨u', hu', rfl⟩ := Option.map_eq_some_iff.mp hu
      exact hnograd j u' hu' hgrad
    refine ⟨_, hmodels.release hget, hready'.release hplain hgrads,
      hrec.mono fun entry hentry => ?_,
      hunchanged.mono hready.tidy fun j hj u hu => ?_⟩
    · obtain ⟨houtput, hinput⟩ := hunused entry hentry
      refine ⟨hrelease _ houtput, fun j hj => hrelease j ?_⟩
      rintro rfl
      exact hinput hj
    · refine ⟨hrelease j ?_, fun grad _ hgrad _ => hrelease grad (hgrads j u grad hu hgrad)⟩
      rintro rfl
      exact hheld hj

end Record

/-! ## Rounds -/

theorem mem_extendKeepWithParamsAndGrads {store : TensorStore F H} {keep params : List TensorId}
    {id : TensorId} : id ∈ extendKeepWithParamsAndGrads keep params store ↔
      id ∈ keep ∨ ∃ p ∈ params, id = p ∨ (store.get p).bind Tensor.grad = some id := by
  unfold extendKeepWithParamsAndGrads
  induction params generalizing keep with
  | nil => simp
  | cons p params ih =>
    rw [List.foldl_cons, ih]
    cases hgrad : (store.get p).bind Tensor.grad with
    | none => simp [hgrad, or_assoc]
    | some grad => simp [hgrad, or_assoc, eq_comm (a := grad)]

/-- The gradients of the tensors that a clean-up keeps besides the parameters are kept with them. -/
def KeepsGrads (store : TensorStore F H) (params keepExtra : List TensorId) : Prop :=
  ∀ id ∈ keepExtra, ∀ t grad, store.get id = some t → t.grad = some grad →
    id ∈ params ∨ grad ∈ keepExtra

/-- A clean-up keeps the parameters with their gradients. -/
theorem cleanup_ready [Zero F] {backend : Backend F H} {store : TensorStore F H}
    {plain : PlainStore F} {params keepExtra : List TensorId} (h : Models backend store plain)
    (hready : plain.Ready)
    (hkeeps : KeepsGrads store params keepExtra) (tape : Tape F) :
    ∃ plain', Models backend (cleanupAfterBackward store tape params keepExtra).1 plain' ∧
      plain'.Ready ∧ ∀ p ∈ params, plain'.get p = plain.get p ∧
        plain'.gradOf p = plain.gradOf p := by
  have hkept : ∀ id ∈ extendKeepWithParamsAndGrads keepExtra params store,
      (plain.retain (extendKeepWithParamsAndGrads keepExtra params store)).get id =
        plain.get id := fun id hid => by
    rw [Slab.get_retain, if_pos hid]
  have hgrad : ∀ p ∈ params, ∀ grad, (plain.get p).bind Plain.grad = some grad →
      grad ∈ extendKeepWithParamsAndGrads keepExtra params store := by
    intro p hp grad hgrad
    refine mem_extendKeepWithParamsAndGrads.mpr (.inr ⟨p, hp, .inr ?_⟩)
    rw [h.get_eq] at hgrad
    cases hget : store.get p with
    | none =>
      rw [hget] at hgrad
      cases hgrad
    | some t =>
      rw [hget] at hgrad
      exact hgrad
  have hparam : ∀ p ∈ params, p ∈ extendKeepWithParamsAndGrads keepExtra params store :=
    fun p hp => mem_extendKeepWithParamsAndGrads.mpr (.inr ⟨p, hp, .inl rfl⟩)
  have hold : ∀ id u, (plain.retain (extendKeepWithParamsAndGrads keepExtra params store)).get id =
      some u → id ∈ extendKeepWithParamsAndGrads keepExtra params store ∧
        plain.get id = some u := by
    intro id u hu
    rw [Slab.get_retain] at hu
    split at hu
    · exact ⟨by assumption, hu⟩
    · cases hu
  refine ⟨_, h.retainIds _, hready.restrict (fun id u hu => (hold id u hu).2) ?_, fun p hp => ?_⟩
  · intro id u grad hu hugrad
    obtain ⟨hid, hu⟩ := hold id u hu
    refine hkept grad ?_
    have hbind : (plain.get id).bind Plain.grad = some grad := by
      rw [hu]
      exact hugrad
    rcases mem_extendKeepWithParamsAndGrads.mp hid with hid | ⟨p, hp, rfl | hpgrad⟩
    · rw [h.get_eq] at hu
      obtain ⟨t, ht, rfl⟩ := Option.map_eq_some_iff.mp hu
      rcases hkeeps id hid t grad ht hugrad with hp | hin
      · exact hgrad id hp grad hbind
      · exact mem_extendKeepWithParamsAndGrads.mpr (.inl hin)
    · exact hgrad id hp grad hbind
    · -- a gradient requires no gradient, so it has none
      obtain ⟨t, ht, htgrad⟩ := Option.bind_eq_some_iff.mp hpgrad
      have hpplain : plain.get p = some (t.plain backend) := by
        rw [h.get_eq, ht]
        rfl
      obtain ⟨g, hg, -, hrequired⟩ := hready.tidy p _ id hpplain htgrad
      rw [hu] at hg
      cases hg
      rw [hready.quiet id u hu hrequired] at hugrad
      cases hugrad
  · refine ⟨hkept p (hparam p hp), ?_⟩
    unfold PlainStore.gradOf
    rw [hkept p (hparam p hp)]
    cases hbind : (plain.get p).bind Plain.grad with
    | none => rfl
    | some grad => rw [Option.bind_some, Option.bind_some, hkept grad (hgrad p hp grad hbind)]

section Rounds

variable [AddCommMonoid F] [One F]

/-- Runs of `backward`, each on a tape of its own, with a clean-up after each; what the gradients of
the loss add up to is `total`. -/
inductive Rounds (backend : Backend F H) (ops : BackwardOp → TapeEntry F → TensorId →
    TensorStore F H → Result (GradPairs × TensorStore F H)) (params : List TensorId)
    (start : TensorStore F H) : TensorStore F H → Tape F → (TensorId → Nat → F) → Prop
  | start : Rounds backend ops params start start Tape.new 0
  | round {store store₁ store₂ : TensorStore F H} {tape tape₁ : Tape F}
      {total : TensorId → Nat → F} {plain₁ : PlainStore F} {lossId : TensorId} {out : Plain F}
      {adjoint : Nat → Nat → (Nat → F) →+ (Nat → F)} {grads : Grads} (keepExtra : List TensorId) :
      Rounds backend ops params start store tape total →
      Recording backend params store tape store₁ tape₁ → Models backend store₁ plain₁ →
      (∀ index entry, tape₁.entries[index]? = some entry →
        Adjoint backend ops plain₁ entry (adjoint index)) →
      plain₁.get lossId = some out →
      tape₁.backward backend ops lossId store₁ = .ok (grads, store₂) →
      KeepsGrads store₂ params keepExtra →
      Rounds backend ops params start (cleanupAfterBackward store₂ tape₁ params keepExtra).1
        (cleanupAfterBackward store₂ tape₁ params keepExtra).2
        (total + (Tape.graph tape₁.entries adjoint lossId (ones out.shape)).flow)

variable {backend : Backend F H} {store start : TensorStore F H} {base plain : PlainStore F}
  {ops : BackwardOp → TapeEntry F → TensorId → TensorStore F H →
    Result (GradPairs × TensorStore F H)} {params : List TensorId} {tape : Tape F}
  {total : TensorId → Nat → F}

/-- The gradients of the runs add up. -/
theorem Rounds.gradOf_eq (hrun : Rounds backend ops params start store tape total)
    (hexact : backend.Exact) (h : Models backend start base) (hready : base.Ready) :
    tape.entries = [] ∧ ∃ plain, Models backend store plain ∧ plain.Ready ∧
      ∀ p ∈ params, ∀ u, base.get p = some u → u.requiresGrad = true →
        (∃ v, plain.get p = some v ∧ v.requiresGrad = true) ∧
          plain.gradOf p = base.gradOf p + total p := by
  induction hrun with
  | start =>
    exact ⟨rfl, base, h, hready, fun p _ u hu hrequired =>
      ⟨⟨u, hu, hrequired⟩, (add_zero _).symm⟩⟩
  | round keepExtra _ hrecord hmodels₁ hadjoint hout hbackward hkeeps ih =>
    obtain ⟨hempty, plain, hmodels, hready', hparams⟩ := ih
    obtain ⟨plain₁', hmodels₁', hready₁, hrec, hunchanged⟩ :=
      hrecord.recorded hempty hmodels hready'
    have hsame := hmodels₁'.view.symm.trans hmodels₁.view
    subst hsame
    obtain ⟨_, _, _, plain₂, _, _, hcall, hmodels₂, hready₂, hkeeps₂, hreceives⟩ :=
      backward_flows hexact hmodels₁ hready₁ hrec hadjoint hout
    have hresult := hcall.symm.trans hbackward
    cases hresult
    obtain ⟨plain₃, hmodels₃, hready₃, hkept⟩ := cleanup_ready hmodels₂ hready₂ hkeeps _
    refine ⟨rfl, plain₃, hmodels₃, hready₃, fun p hp u hu hrequired => ?_⟩
    obtain ⟨⟨v, hv, hvrequired⟩, hgrad⟩ := hparams p hp u hu hrequired
    obtain ⟨hv₁, -⟩ := hunchanged p hp v hv
    obtain ⟨w, hw, -, hwrequired, -⟩ := hkeeps₂ p v hv₁
    obtain ⟨hget₃, hgrad₃⟩ := hkept p hp
    refine ⟨⟨w, hget₃.trans hw, hwrequired.trans hvrequired⟩, ?_⟩
    rw [hgrad₃, (hreceives p v hv₁ hvrequired).1, hunchanged.gradOf_eq hp hv, hgrad, add_assoc]
    rfl

/-- `backward` is the chain rule. On every tape that is recorded, it comes to an entry after all that
use the output, and returns for every tensor that requires a gradient the sum over the walks from the
loss to it, which it adds to what the tensor has; and these sums add up over rounds, if the tensors
that each clean-up keeps beside the parameters are kept with their gradients (`KeepsGrads`). -/
theorem backward_chain_rule (hexact : backend.Exact) (h : Models backend start base)
    (hready : base.Ready) :
    (∀ held store tape plain lossId out adjoint,
      Recording backend held start Tape.new store tape → Models backend store plain →
      (∀ index entry, tape.entries[index]? = some entry →
        Adjoint backend ops plain entry (adjoint index)) → plain.get lossId = some out →
      ∃ postOrder grads store' plain', tape.postOrder lossId = some postOrder ∧
        (Tape.graph tape.entries adjoint lossId (ones out.shape)).Serves
          ((Tape.order tape.entries postOrder).map TapeEntry.outputId) ∧
        tape.backward backend ops lossId store = .ok (grads, store') ∧
        Models backend store' plain' ∧
        Receives plain plain' (Tape.graph tape.entries adjoint lossId (ones out.shape)) grads ∧
        ∀ x, ((Tape.graph tape.entries adjoint lossId (ones out.shape)).walks x).Nodup ∧
          ∀ walk, walk ∈ (Tape.graph tape.entries adjoint lossId (ones out.shape)).walks x ↔
            (Tape.graph tape.entries adjoint lossId (ones out.shape)).IsWalk x walk) ∧
    ∀ params store tape total, Rounds backend ops params start store tape total →
      ∃ plain, Models backend store plain ∧
        ∀ p ∈ params, ∀ u, base.get p = some u → u.requiresGrad = true →
          plain.gradOf p = base.gradOf p + total p := by
  constructor
  · intro held store tape plain lossId out adjoint hrecord hmodels hadjoint hout
    obtain ⟨plain', hmodels', hready', hrec, -⟩ := hrecord.recorded rfl h hready
    have hsame := hmodels'.view.symm.trans hmodels.view
    subst hsame
    obtain ⟨postOrder, grads, store', plain', hpost, hserves, hcall, hmodels'', -, -, hreceives⟩ :=
      backward_flows hexact hmodels hready' hrec hadjoint hout
    exact ⟨postOrder, grads, store', plain', hpost, hserves, hcall, hmodels'', hreceives, fun x =>
      ⟨FlowGraph.nodup_walks Tape.nodup_uses x,
        fun walk => FlowGraph.mem_walks (Tape.graph_falls hrec)⟩⟩
  · intro params store tape total hrun
    obtain ⟨-, plain, hmodels, -, hparams⟩ := hrun.gradOf_eq hexact h hready
    exact ⟨plain, hmodels, fun p hp u hu hrequired => (hparams p hp u hu hrequired).2⟩

end Rounds

/-! ## An addition of a parameter to itself -/

/-- The backend keeps the values as they are. -/
def plainBackend : Backend Int (List Int) :=
  ⟨fun data _ => data, id, fun dest src _ => .ok (addAssign dest src), false⟩

def paramStore : TensorStore Int (List Int) :=
  ⟨[some ⟨[3], [], 1, true, none, none, .host⟩], []⟩

def doubled : Tensor Int (List Int) := ⟨[], [], 1, true, none, some [6], .device⟩

theorem backward_chain_rule_doubled : ∃ tape store plain total,
    Rounds plainBackend (fun _ => addBackward plainBackend) [0] paramStore store tape total ∧
      Models plainBackend store plain ∧ total 0 0 = 2 ∧ plain.gradOf 0 0 = 2 := by
  have hexact : plainBackend.Exact :=
    ⟨fun _ _ _ => rfl, fun dest src _ _ _ => ⟨addAssign dest src, rfl, rfl⟩⟩
  have hmodels : Models plainBackend paramStore ⟨[some ⟨[3], [], true, none⟩], []⟩ := by
    refine ⟨⟨List.nodup_nil, fun id hid => absurd hid List.not_mem_nil⟩, fun id t ht => ?_, rfl⟩
    rcases id with _ | id
    · cases ht
      exact ⟨rfl, rfl, fun h => (by cases h), fun h => (by cases h)⟩
    · cases ht
  have hready : PlainStore.Ready (⟨[some ⟨[3], [], true, none⟩], []⟩ : PlainStore Int) := by
    have hnone : ∀ id u,
        Slab.get (⟨[some ⟨[3], [], true, none⟩], []⟩ : PlainStore Int) id = some u →
          u.grad = none := by
      intro id u hu
      rcases id with _ | id
      · cases hu
        rfl
      · cases hu
    refine ⟨fun id u grad hu hgrad => ?_, fun i j u v grad hu _ hgrad => ?_,
      fun id u hu _ => hnone id u hu⟩
    · rw [hnone id u hu] at hgrad
      cases hgrad
    · rw [hnone i u hu] at hgrad
      cases hgrad
  have hrecord : Recording plainBackend [0] paramStore Tape.new (paramStore.alloc doubled).2
      (Tape.new.record ⟨.add, 1, [0, 0], .none⟩) :=
    .op .add [0, 0] .none .start
      ⟨rfl, rfl, fun _ => ⟨rfl, [6], rfl⟩, fun h => (by cases h)⟩ rfl rfl (by decide)
  have hmodels₁ : Models plainBackend (paramStore.alloc doubled).2
      ⟨[some ⟨[3], [], true, none⟩, some ⟨[6], [], true, none⟩], []⟩ :=
    (hmodels.alloc ⟨rfl, rfl, fun _ => ⟨rfl, [6], rfl⟩, fun h => (by cases h)⟩).2
  have hadjoint : ∀ (index : Nat) entry,
      (Tape.new.record (⟨.add, 1, [0, 0], .none⟩ : TapeEntry Int)).entries[index]? = some entry →
      Adjoint plainBackend (fun _ => addBackward plainBackend)
        ⟨[some ⟨[3], [], true, none⟩, some ⟨[6], [], true, none⟩], []⟩ entry
          fun _ => AddMonoidHom.id _ := by
    intro index entry hentry
    have hindex : entry = ⟨.add, 1, [0, 0], .none⟩ :=
      List.mem_singleton.mp (List.mem_of_getElem? hentry)
    subst hindex
    exact addBackward_adjoint rfl rfl rfl rfl rfl rfl
  obtain ⟨hchain, hrounds⟩ :=
    @backward_chain_rule Int (List Int) _ _ plainBackend paramStore _
      (fun _ => addBackward plainBackend) hexact hmodels hready
  obtain ⟨_, grads, store₂, _, -, -, hcall, -⟩ :=
    hchain [0] _ _ _ 1 _ (fun _ _ => AddMonoidHom.id _) hrecord hmodels₁ hadjoint rfl
  have hrun := Rounds.round [] .start hrecord hmodels₁ hadjoint rfl hcall
    fun id hid => absurd hid List.not_mem_nil
  obtain ⟨plain, hplain, hparams⟩ := hrounds [0] _ _ _ hrun
  refine ⟨_, _, plain, _, hrun, hplain, rfl, ?_⟩
  rw [hparams 0 List.mem_cons_self _ rfl rfl]
  rfl

end Arle.Autograd
