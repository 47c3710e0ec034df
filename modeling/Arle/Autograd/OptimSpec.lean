import Arle.Autograd.Residency
import Arle.Autograd.Optim

/-!
# What the optimizer does to a parameter

A `Slot` is what training keeps of one parameter: its value, its gradient and its moments,
without their places. `Holds` says that the slots are those of an optimizer and its store. On
either path the optimizer acts on each slot alone: a step applies the documented update to the
slots with a gradient (`step_holds`), and `zero_grad` clears the gradients, by zeros on the
host path and by dropping them on the device path (`zeroGrad_holds`).
-/

namespace Arle.Autograd

/-- What training keeps of a parameter. -/
structure Slot (F : Type) where
  value : List F
  shape : List Nat
  requiresGrad : Bool
  grad : Option (List F)
  moments : Option (List F × List F)

section Slot

variable {F : Type} [Field F] [LinearOrder F] (sqrt : F → F)

namespace Slot

/-- Zeros of the size of the parameter. -/
def zeros (s : Slot F) : List F := List.replicate (shapeSize s.shape) 0

/-- The moments, absent ones counted as zeros. -/
def momentsOrZero (s : Slot F) : List F × List F := s.moments.getD (s.zeros, s.zeros)

/-- A step on a slot. -/
def step (args : AdamWArgs F) (s : Slot F) : Slot F :=
  match s.grad with
  | none => s
  | some g =>
    let updated := adamwUpdate sqrt args s.value g s.momentsOrZero.1 s.momentsOrZero.2
    { s with value := updated.1, moments := some updated.2 }

theorem step_of_none {args : AdamWArgs F} {s : Slot F} (h : s.grad = none) :
    s.step sqrt args = s := by
  unfold step
  rw [h]

theorem step_of_some {args : AdamWArgs F} {s : Slot F} {g : List F} (h : s.grad = some g) :
    s.step sqrt args = { s with
      value := (adamwUpdate sqrt args s.value g s.momentsOrZero.1 s.momentsOrZero.2).1
      moments := some
        (adamwUpdate sqrt args s.value g s.momentsOrZero.1 s.momentsOrZero.2).2 } := by
  unfold step
  rw [h]

/-- A gradient on a slot. -/
def addGrad (s : Slot F) (g : List F) : Slot F :=
  if s.requiresGrad = false then s
  else { s with grad := some ((s.grad.map fun sum => addAssign sum g).getD g) }

/-- `zero_grad` on a slot. -/
def zeroGrad (deviceBacked : Bool) (s : Slot F) : Slot F :=
  if deviceBacked then { s with grad := none } else { s with grad := s.grad.map fun _ => s.zeros }

/-- Every list has the size of the parameter. -/
structure Sized (s : Slot F) : Prop where
  value : s.value.length = shapeSize s.shape
  grad : ∀ g, s.grad = some g → g.length = shapeSize s.shape
  moments : ∀ m v, s.moments = some (m, v) →
    m.length = shapeSize s.shape ∧ v.length = shapeSize s.shape

end Slot

/-! ## Sizes -/

omit [LinearOrder F] in
theorem length_updateLoop (args : AdamWArgs F) (param grad m v : List F) :
    (updateLoop sqrt args param grad m v).1.length = param.length ∧
      (updateLoop sqrt args param grad m v).2.1.length = m.length ∧
      (updateLoop sqrt args param grad m v).2.2.length = v.length := by
  induction param generalizing grad m v with
  | nil => simp [updateLoop]
  | cons value param ih =>
    cases grad with
    | nil => simp [updateLoop]
    | cons g grad =>
      cases m with
      | nil => simp [updateLoop]
      | cons m ms =>
        cases v with
        | nil => simp [updateLoop]
        | cons v vs =>
          obtain ⟨h₁, h₂, h₃⟩ := ih grad ms vs
          simp [updateLoop, h₁, h₂, h₃]

theorem length_decayed (args : AdamWArgs F) (param : List F) :
    (decayed args param).length = param.length := by
  unfold decayed
  split
  · exact List.length_map ..
  · rfl

theorem length_adamwUpdate (args : AdamWArgs F) (param grad m v : List F) :
    (adamwUpdate sqrt args param grad m v).1.length = param.length ∧
      (adamwUpdate sqrt args param grad m v).2.1.length = m.length ∧
      (adamwUpdate sqrt args param grad m v).2.2.length = v.length := by
  unfold adamwUpdate
  rw [← length_decayed args param]
  exact length_updateLoop sqrt args _ grad m v

namespace Slot.Sized

variable {s : Slot F}

omit [LinearOrder F] in
theorem momentsOrZero (h : s.Sized) : s.momentsOrZero.1.length = shapeSize s.shape ∧
    s.momentsOrZero.2.length = shapeSize s.shape := by
  unfold Slot.momentsOrZero
  cases hm : s.moments with
  | none => simp [Slot.zeros]
  | some mv => exact h.moments mv.1 mv.2 hm

theorem step (h : s.Sized) (args : AdamWArgs F) : (s.step sqrt args).Sized := by
  cases hg : s.grad with
  | none =>
    rw [Slot.step_of_none sqrt hg]
    exact h
  | some g =>
    obtain ⟨h₁, h₂, h₃⟩ := length_adamwUpdate sqrt args s.value g s.momentsOrZero.1
      s.momentsOrZero.2
    rw [Slot.step_of_some sqrt hg]
    refine ⟨h₁.trans h.value, h.grad, ?_⟩
    intro m v hmv
    obtain ⟨rfl, rfl⟩ := Prod.ext_iff.mp (Option.some.inj hmv)
    exact ⟨h₂.trans h.momentsOrZero.1, h₃.trans h.momentsOrZero.2⟩

omit [LinearOrder F] in
theorem addGrad (h : s.Sized) {g : List F} (hg : g.length = shapeSize s.shape) :
    (s.addGrad g).Sized := by
  unfold Slot.addGrad
  split
  · exact h
  · refine ⟨h.value, ?_, h.moments⟩
    intro g' hg'
    cases hgrad : s.grad with
    | none =>
      simp only [hgrad, Option.map_none, Option.getD_none] at hg'
      cases hg'
      exact hg
    | some sum =>
      simp only [hgrad, Option.map_some, Option.getD_some] at hg'
      cases hg'
      rw [length_addAssign]
      exact h.grad sum hgrad

omit [LinearOrder F] in
theorem zeroGrad (h : s.Sized) (deviceBacked : Bool) : (s.zeroGrad deviceBacked).Sized := by
  unfold Slot.zeroGrad
  split
  · exact ⟨h.value, by simp, h.moments⟩
  · refine ⟨h.value, ?_, h.moments⟩
    intro g hg
    obtain ⟨_, _, rfl⟩ := Option.map_eq_some_iff.mp hg
    exact List.length_replicate

end Slot.Sized

end Slot

/-! ## The backend -/

/-- What the optimizer is relied on the backend for: both kernels compute the documented
update. -/
structure AdamWBackend.Exact {F H : Type} [Field F] [LinearOrder F] (sqrt : F → F)
    (backend : AdamWBackend F H) : Prop where
  exact : backend.toBackend.Exact
  zeros : ∀ shape, backend.readback (backend.zeros shape) = List.replicate (shapeSize shape) 0
  adamwStep : ∀ param m v grad shape args,
    (backend.readback param).length = shapeSize shape →
    (backend.readback m).length = shapeSize shape →
    (backend.readback v).length = shapeSize shape → grad.length = shapeSize shape →
    ∃ param' m' v', backend.adamwStep param m v grad shape args = .ok (param', m', v') ∧
      (backend.readback param', backend.readback m', backend.readback v') =
        adamwUpdate sqrt args (backend.readback param) grad (backend.readback m)
          (backend.readback v)
  adamwStepDevice : ∀ param m v grad shape args,
    (backend.readback param).length = shapeSize shape →
    (backend.readback m).length = shapeSize shape →
    (backend.readback v).length = shapeSize shape →
    (backend.readback grad).length = shapeSize shape →
    ∃ param' m' v', backend.adamwStepDevice param m v grad shape args = .ok (param', m', v') ∧
      (backend.readback param', backend.readback m', backend.readback v') =
        adamwUpdate sqrt args (backend.readback param) (backend.readback grad)
          (backend.readback m) (backend.readback v)

/-! ## The slots of a store -/

section Holds

variable {F H : Type}

/-- The slot `s` of the parameter `id` in a store. -/
structure SlotOf (plain : PlainStore F) (id : TensorId) (s : Slot F) : Prop where
  param : ∃ u, plain.get id = some u ∧ u.value = s.value ∧ u.shape = s.shape ∧
    u.requiresGrad = s.requiresGrad ∧ (u.grad = none → s.grad = none) ∧
    ∀ g, u.grad = some g → ∃ w, plain.get g = some w ∧ w.shape = u.shape ∧ s.grad = some w.value

/-- The gradients of the parameters are tensors of their own. -/
structure Apart (plain : PlainStore F) (params : List TensorId) : Prop where
  grads : ∀ p ∈ params, ∀ q ∈ params, ∀ u w g, plain.get p = some u → plain.get q = some w →
    u.grad = some g → w.grad = some g → p = q
  params : ∀ p ∈ params, ∀ u g, plain.get p = some u → u.grad = some g → g ∉ params

theorem SlotOf.frame {plain plain' : PlainStore F} {id : TensorId} {s : Slot F}
    (h : SlotOf plain id s) (hparam : plain'.get id = plain.get id)
    (hgrad : ∀ u g, plain.get id = some u → u.grad = some g → plain'.get g = plain.get g) :
    SlotOf plain' id s := by
  obtain ⟨u, hu, hvalue, hshape, hreq, hnone, hsome⟩ := h.param
  refine ⟨u, hparam.trans hu, hvalue, hshape, hreq, hnone, ?_⟩
  intro g hg
  obtain ⟨w, hw, hrest⟩ := hsome g hg
  exact ⟨w, (hgrad u g hu hg).trans hw, hrest⟩

/-- The slots `slots` are those of the parameters in an optimizer and its store. -/
structure Holds [Field F] [LinearOrder F] (backend : AdamWBackend F H) (params : List TensorId)
    (opt : AdamW F H) (store : TensorStore F H) (plain : PlainStore F)
    (slots : TensorId → Slot F) : Prop where
  models : Models backend.toBackend store plain
  apart : Apart plain params
  slot : ∀ p ∈ params, SlotOf plain p (slots p)
  sized : ∀ p ∈ params, (slots p).Sized
  moments : ∀ p ∈ params, opt.momentsHost backend p = (slots p).moments
  storage : ∀ p ∈ params, ∀ moments, opt.state p = some moments →
    moments.shape = (slots p).shape ∧
      (opt.deviceBacked = false → ∃ m v, moments.m = .host m ∧ moments.v = .host v)

variable [Field F] [LinearOrder F] {sqrt : F → F} {backend : AdamWBackend F H}
  {params : List TensorId} {opt : AdamW F H} {store store' : TensorStore F H}
  {plain : PlainStore F} {slots : TensorId → Slot F} {p : TensorId} {u : Plain F}

/-- A parameter that is written and given new moments. -/
theorem Holds.updated (h : Holds backend params opt store plain slots) (hp : p ∈ params)
    (hu : plain.get p = some u) {value : List F} {moments : ParamMoments F H}
    (hmodels : Models backend.toBackend store' (plain.put p { u with value := value }))
    (hsized : ({ slots p with
      value := value
      moments := some (AdamW.readMoment backend moments.m,
        AdamW.readMoment backend moments.v) } : Slot F).Sized)
    (hshape : moments.shape = (slots p).shape)
    (hstorage : opt.deviceBacked = false → ∃ m v, moments.m = .host m ∧ moments.v = .host v) :
    Holds backend params (opt.setMoments p moments) store' (plain.put p { u with value := value })
      (Function.update slots p { slots p with
        value := value
        moments := some (AdamW.readMoment backend moments.m,
          AdamW.readMoment backend moments.v) }) := by
  have hget : ∀ q, (plain.put p { u with value := value }).get q =
      if q = p then some { u with value := value } else plain.get q :=
    Slab.get_put (Slab.lt_length hu) _
  -- the entry of a parameter but for its value
  have hback : ∀ q w g, (plain.put p { u with value := value }).get q = some w →
      w.grad = some g → ∃ w', plain.get q = some w' ∧ w'.grad = some g := by
    intro q w g hq hg
    rw [hget] at hq
    split at hq
    · rename_i hqp
      subst hqp
      cases hq
      exact ⟨u, hu, hg⟩
    · exact ⟨w, hq, hg⟩
  have hapart : ∀ q ∈ params, ∀ w g, plain.get q = some w → w.grad = some g →
      (plain.put p { u with value := value }).get g = plain.get g := by
    intro q hq w g hw hg
    rw [hget, if_neg]
    rintro rfl
    exact h.apart.params q hq w g hw hg hp
  refine ⟨hmodels, ⟨?_, ?_⟩, ?_, ?_, ?_, ?_⟩
  · intro q hq r hr w x g hw hx hwg hxg
    obtain ⟨w', hw', hwg'⟩ := hback q w g hw hwg
    obtain ⟨x', hx', hxg'⟩ := hback r x g hx hxg
    exact h.apart.grads q hq r hr w' x' g hw' hx' hwg' hxg'
  · intro q hq w g hw hg
    obtain ⟨w', hw', hg'⟩ := hback q w g hw hg
    exact h.apart.params q hq w' g hw' hg'
  · intro q hq
    by_cases hqp : q = p
    · subst hqp
      rw [Function.update_self]
      obtain ⟨u', hu', hvalue, hshape', hreq, hnone, hsome⟩ := (h.slot q hq).param
      rw [hu] at hu'
      cases hu'
      refine ⟨{ u with value := value }, ?_, rfl, hshape', hreq, hnone, ?_⟩
      · rw [hget, if_pos rfl]
      · intro g hg
        rw [hapart q hq u g hu hg]
        exact hsome g hg
    · rw [Function.update_of_ne hqp]
      refine (h.slot q hq).frame ?_ ?_
      · rw [hget, if_neg hqp]
      · intro w g hw hg
        exact hapart q hq w g hw hg
  · intro q hq
    by_cases hqp : q = p
    · subst hqp
      rw [Function.update_self]
      exact hsized
    · rw [Function.update_of_ne hqp]
      exact h.sized q hq
  · intro q hq
    unfold AdamW.momentsHost AdamW.setMoments
    by_cases hqp : q = p
    · subst hqp
      simp only [Function.update_self, Option.map_some]
    · simp only [Function.update_of_ne hqp]
      exact h.moments q hq
  · intro q hq mm hmm
    change Function.update opt.state p (some moments) q = some mm at hmm
    by_cases hqp : q = p
    · subst hqp
      rw [Function.update_self] at hmm ⊢
      cases hmm
      exact ⟨hshape, hstorage⟩
    · rw [Function.update_of_ne hqp] at hmm ⊢
      exact h.storage q hq mm hmm

/-- The moments a step starts from, where a parameter without moments is given `fresh`. -/
theorem Holds.getD_moments (h : Holds backend params opt store plain slots) (hp : p ∈ params)
    (fresh : ParamMoments F H) (hm : AdamW.readMoment backend fresh.m = (slots p).zeros)
    (hv : AdamW.readMoment backend fresh.v = (slots p).zeros)
    (hshape : fresh.shape = (slots p).shape) :
    ((opt.state p).getD fresh).shape = (slots p).shape ∧
      AdamW.readMoment backend ((opt.state p).getD fresh).m = (slots p).momentsOrZero.1 ∧
      AdamW.readMoment backend ((opt.state p).getD fresh).v = (slots p).momentsOrZero.2 := by
  have hmoments := h.moments p hp
  unfold AdamW.momentsHost at hmoments
  unfold Slot.momentsOrZero
  cases hstate : opt.state p with
  | none =>
    rw [hstate] at hmoments
    rw [← hmoments]
    exact ⟨hshape, hm, hv⟩
  | some moments =>
    rw [hstate] at hmoments
    rw [← hmoments]
    exact ⟨(h.storage p hp moments hstate).1, rfl, rfl⟩

/-- A parameter in the store, with its gradient. -/
theorem Holds.get_param (h : Holds backend params opt store plain slots) (hp : p ∈ params) :
    ∃ t u, store.get p = some t ∧ plain.get p = some u ∧ t.plain backend.toBackend = u ∧
      t.Resident backend.toBackend ∧ u.value = (slots p).value ∧ u.shape = (slots p).shape ∧
        u.requiresGrad = (slots p).requiresGrad ∧ (u.grad = none → (slots p).grad = none) ∧
          ∀ g, u.grad = some g → ∃ w, plain.get g = some w ∧ w.shape = u.shape ∧
            (slots p).grad = some w.value := by
  obtain ⟨u, hu, hrest⟩ := (h.slot p hp).param
  have hget := h.models.get_eq p
  rw [hu] at hget
  obtain ⟨t, ht, hplain⟩ := Option.map_eq_some_iff.mp hget.symm
  exact ⟨t, u, ht, hu, hplain, h.models.resident p t ht, hrest⟩

omit [Field F] [LinearOrder F] in
/-- The buffer of a tensor in order is empty or fills its shape. -/
theorem length_data_max {t : Tensor F H} (h : t.Resident backend.toBackend) :
    max t.data.length t.size = shapeSize t.shape := by
  rw [h.size]
  by_cases hdirty : t.dirty = .device
  · rw [(h.device hdirty).1]
    exact Nat.max_eq_right (Nat.zero_le _)
  · rw [h.data_length hdirty]
    exact Nat.max_self _

variable (sqrt) in
/-- What a round of a step does: one slot is stepped. -/
def Stepped (backend : AdamWBackend F H) (params : List TensorId) (opt : AdamW F H)
    (slots : TensorId → Slot F) (p : TensorId) (r : Result (AdamW F H × TensorStore F H)) : Prop :=
  ∃ state store' plain', r = .ok ({ opt with state := state }, store') ∧
    Holds backend params { opt with state := state } store' plain'
      (Function.update slots p ((slots p).step sqrt opt.args))

theorem stepHostParam_stepped (h : Holds backend params opt store plain slots) (hp : p ∈ params)
    (hhost : opt.deviceBacked = false) :
    Stepped sqrt backend params opt slots p
      (AdamW.stepHostParam sqrt backend opt p store) := by
  obtain ⟨t, u, ht, hu, hplain, hres, hvalue, hshape, hreq, hnone, hsome⟩ := h.get_param hp
  have hgrad : t.grad = u.grad := congrArg Plain.grad hplain
  have htshape : t.shape = (slots p).shape := (congrArg Plain.shape hplain).trans hshape
  unfold AdamW.stepHostParam
  rw [ht]
  dsimp only
  cases hg : u.grad with
  | none =>
    rw [hgrad, hg]
    refine ⟨opt.state, store, plain, rfl, ?_⟩
    rw [Slot.step_of_none sqrt (hnone hg), Function.update_eq_self]
    exact h
  | some g =>
    rw [hgrad, hg]
    dsimp only
    obtain ⟨w, hw, hwshape, hslot⟩ := hsome g hg
    have hhost₁ := toHost_models h.models g
    unfold PlainStore.tensor at hhost₁
    rw [hw] at hhost₁
    obtain ⟨⟨grad, store₁⟩, hcall, h₁, hvaluew⟩ := hhost₁.returns rfl
    dsimp only at hvaluew h₁
    rw [hcall, length_data_max hres, htshape]
    dsimp only
    -- the moments are on the host
    have hmoments := h.getD_moments hp ⟨.host (List.replicate (shapeSize (slots p).shape) 0),
      .host (List.replicate (shapeSize (slots p).shape) 0), (slots p).shape⟩ rfl rfl rfl
    have hkind : ∃ m v, (opt.state p).getD
        ⟨.host (List.replicate (shapeSize (slots p).shape) 0),
          .host (List.replicate (shapeSize (slots p).shape) 0), (slots p).shape⟩ =
        ⟨.host m, .host v, (slots p).shape⟩ := by
      cases hstate : opt.state p with
      | none => exact ⟨_, _, rfl⟩
      | some moments =>
        obtain ⟨hmshape, hstorage⟩ := h.storage p hp moments hstate
        obtain ⟨m, v, hm, hv⟩ := hstorage hhost
        refine ⟨m, v, ?_⟩
        rw [Option.getD_some, ← hm, ← hv, ← hmshape]
    obtain ⟨m, v, hmv⟩ := hkind
    rw [hmv] at hmoments ⊢
    obtain ⟨_, hm', hv'⟩ := hmoments
    change m = _ at hm'
    change v = _ at hv'
    dsimp only
    -- the parameter is written
    obtain ⟨t', store₂, hmut, h₂, ht', hdirty', hplain'⟩ := getMut_models h₁ hu
    rw [hmut]
    dsimp only
    have hdata : t'.data = (slots p).value := by
      have hcontent : t'.content backend.toBackend = t'.data :=
        content_of_not_device (by simp [hdirty'])
      rw [← hcontent, ← hvalue, ← hplain']
      rfl
    have hsized := h.sized p hp
    have hgrad' : grad = w.value := hvaluew
    have hglen : grad.length = t'.data.length := by
      rw [hdata, hsized.value, hgrad']
      exact hsized.grad _ hslot
    have htshape' : t'.shape = (slots p).shape := (congrArg Plain.shape hplain').trans hshape
    rw [if_neg (not_not.mpr hglen), hdata, hm', hv', hgrad']
    have hlen := (length_adamwUpdate sqrt opt.args (slots p).value w.value
      (slots p).momentsOrZero.1 (slots p).momentsOrZero.2).1
    have hset := writeHost_models h₂ ht' hdirty' ((hlen.trans hsized.value).trans
      (congrArg shapeSize htshape').symm)
    rw [hplain'] at hset
    have hstep := hsized.step sqrt opt.args
    rw [Slot.step_of_some sqrt hslot] at hstep
    unfold Stepped
    rw [Slot.step_of_some sqrt hslot]
    exact ⟨_, _, _, rfl, h.updated hp hu hset hstep rfl fun _ => ⟨_, _, rfl, rfl⟩⟩

omit [LinearOrder F] in
theorem readback_migrate (hexact : backend.toBackend.Exact) {shape : List Nat}
    {moment : MomentStorage F H}
    (hlen : (AdamW.readMoment backend moment).length = shapeSize shape) :
    backend.readback (AdamW.migrate backend shape moment) = AdamW.readMoment backend moment := by
  cases moment with
  | host data => exact hexact.readback_upload data shape hlen
  | device handle => rfl

/-- Both kernels of the backend give the documented update. -/
theorem runKernel_spec (hexact : backend.Exact sqrt) (h : Models backend.toBackend store plain)
    {g : TensorId} {gt : Tensor F H} {w : Plain F} (hgt : store.get g = some gt)
    (hw : plain.get g = some w) {store₁ : TensorStore F H}
    (h₁ : Models backend.toBackend store₁ plain) {paramHandle mHandle vHandle : H}
    {shape : List Nat} (hwshape : w.shape = shape) (args : AdamWArgs F)
    (hparam : (backend.readback paramHandle).length = shapeSize shape)
    (hm : (backend.readback mHandle).length = shapeSize shape)
    (hv : (backend.readback vHandle).length = shapeSize shape) :
    ∃ newParam newM newV store₂, AdamW.runKernel backend args paramHandle mHandle vHandle
        gt.onDevice g shape store₁ = .ok ((newParam, newM, newV), store₂) ∧
      Models backend.toBackend store₂ plain ∧
      (backend.readback newParam, backend.readback newM, backend.readback newV) =
        adamwUpdate sqrt args (backend.readback paramHandle) w.value (backend.readback mHandle)
          (backend.readback vHandle) := by
  have hwlen : w.value.length = shapeSize shape := hwshape ▸ h.value_length hw
  have hgw : gt.content backend.toBackend = w.value := by
    have hget := h.get_eq g
    rw [hgt, hw] at hget
    exact (congrArg Plain.value (Option.some.inj hget)).symm
  unfold AdamW.runKernel
  cases hon : gt.onDevice with
  | some gradHandle =>
    obtain ⟨_, _, hread⟩ := (h.resident g gt hgt).onDevice hon
    rw [hgw] at hread
    obtain ⟨newParam, newM, newV, hcall, heq⟩ := hexact.adamwStepDevice paramHandle mHandle
      vHandle gradHandle shape args hparam hm hv (hread ▸ hwlen)
    rw [hread] at heq
    dsimp only
    rw [hcall]
    exact ⟨newParam, newM, newV, store₁, rfl, h₁, heq⟩
  | none =>
    have hhost := toHost_models h₁ g
    unfold PlainStore.tensor at hhost
    rw [hw] at hhost
    obtain ⟨⟨grad, store₂⟩, hcall₁, h₂, hvalue⟩ := hhost.returns rfl
    have hgrad : grad = w.value := hvalue
    rw [← hgrad] at hwlen ⊢
    obtain ⟨newParam, newM, newV, hcall, heq⟩ := hexact.adamwStep paramHandle mHandle vHandle
      grad shape args hparam hm hv hwlen
    refine ⟨newParam, newM, newV, store₂, ?_, h₂, heq⟩
    dsimp only
    rw [hcall₁]
    change (do
      let handles ← backend.adamwStep paramHandle mHandle vHandle grad shape args
      return (handles, store₂) : Result ((H × H × H) × TensorStore F H)) = _
    rw [hcall]
    rfl

theorem stepDeviceParam_stepped (hexact : backend.Exact sqrt)
    (h : Holds backend params opt store plain slots) (hp : p ∈ params)
    (hdevice : opt.deviceBacked = true) :
    Stepped sqrt backend params opt slots p (AdamW.stepDeviceParam backend opt p store) := by
  obtain ⟨t, u, ht, hu, hplain, hres, hvalue, hshape, hreq, hnone, hsome⟩ := h.get_param hp
  have hgrad : t.grad = u.grad := congrArg Plain.grad hplain
  have htshape : t.shape = (slots p).shape := (congrArg Plain.shape hplain).trans hshape
  unfold AdamW.stepDeviceParam
  rw [ht]
  dsimp only
  cases hg : u.grad with
  | none =>
    rw [hgrad, hg]
    refine ⟨opt.state, store, plain, rfl, ?_⟩
    rw [Slot.step_of_none sqrt (hnone hg), Function.update_eq_self]
    exact h
  | some g =>
    rw [hgrad, hg]
    dsimp only
    obtain ⟨w, hw, hwshape, hslot⟩ := hsome g hg
    have hsized := h.sized p hp
    obtain ⟨gt, hgt, _⟩ : ∃ gt, store.get g = some gt ∧ gt.plain backend.toBackend = w := by
      have hget := h.models.get_eq g
      rw [hw] at hget
      exact Option.map_eq_some_iff.mp hget.symm
    rw [hgt]
    dsimp only
    -- the parameter is put on the device
    have hens := ensureDevice_models hexact.exact h.models p
    unfold PlainStore.tensor at hens
    rw [hu] at hens
    obtain ⟨store₁, hcall, h₁, t₁, paramHandle, ht₁, hon, hplain₁⟩ := hens.returns rfl
    obtain ⟨hhandle, _, hread⟩ := (h₁.resident p t₁ ht₁).onDevice hon
    have hreadp : backend.readback paramHandle = (slots p).value := by
      rw [hread, ← hvalue, hplain₁]
      rfl
    rw [hcall]
    dsimp only
    rw [ht₁, Option.bind_some, hhandle, htshape]
    dsimp only
    -- the moments
    obtain ⟨hmshape, hm, hv⟩ := h.getD_moments hp
      ⟨.device (backend.zeros (slots p).shape), .device (backend.zeros (slots p).shape),
        (slots p).shape⟩ (hexact.zeros _) (hexact.zeros _) rfl
    generalize (opt.state p).getD ⟨.device (backend.zeros (slots p).shape),
      .device (backend.zeros (slots p).shape), (slots p).shape⟩ = entry at hmshape hm hv ⊢
    obtain ⟨entryM, entryV, entryShape⟩ := entry
    dsimp only at hmshape hm hv ⊢
    subst hmshape
    have hmlen := hsized.momentsOrZero
    have hreadm := readback_migrate hexact.exact (hm ▸ hmlen.1)
    have hreadv := readback_migrate hexact.exact (hv ▸ hmlen.2)
    -- the update
    obtain ⟨newParam, newM, newV, store₂, hkernel, h₂, heq⟩ := runKernel_spec hexact h.models hgt
      hw h₁ (hwshape.trans hshape) opt.args (hreadp ▸ hsized.value)
      (by rw [hreadm, hm]; exact hmlen.1) (by rw [hreadv, hv]; exact hmlen.2)
    rw [hkernel]
    dsimp only
    rw [hreadp, hreadm, hreadv, hm, hv] at heq
    obtain ⟨hparam', hmoments'⟩ := Prod.ext_iff.mp heq
    dsimp only at hparam' hmoments'
    have hlen := (length_adamwUpdate sqrt opt.args (slots p).value w.value
      (slots p).momentsOrZero.1 (slots p).momentsOrZero.2).1
    have hnew : (backend.readback newParam).length = shapeSize u.shape := by
      rw [hparam', hlen, hsized.value, hshape]
    obtain ⟨store₃, hreplace, h₃⟩ := replaceDeviceHandle_models h₂ hu hnew
    rw [hreplace]
    dsimp only
    have hstep := hsized.step sqrt opt.args
    unfold Stepped
    rw [Slot.step_of_some sqrt hslot, ← hparam', ← hmoments'] at hstep ⊢
    refine ⟨_, _, _, rfl, h.updated hp hu h₃ hstep rfl ?_⟩
    rw [hdevice]
    exact fun hfalse => absurd hfalse (by simp)

/-- The loop over the parameters steps each slot. -/
theorem stepLoop_holds (hexact : backend.Exact sqrt) {qs : List TensorId}
    (hqs : ∀ q ∈ qs, q ∈ params) (h : Holds backend params opt store plain slots) :
    ∃ state store' plain', AdamW.stepLoop sqrt backend opt qs store =
        .ok ({ opt with state := state }, store') ∧
      Holds backend params { opt with state := state } store' plain'
        (qs.foldl (fun slots q => Function.update slots q ((slots q).step sqrt opt.args))
          slots) := by
  induction qs generalizing opt store plain slots with
  | nil => exact ⟨opt.state, store, plain, rfl, h⟩
  | cons q qs ih =>
    have hq := hqs q List.mem_cons_self
    have hround : Stepped sqrt backend params opt slots q
        (AdamW.stepParam sqrt backend opt q store) := by
      unfold AdamW.stepParam
      split
      · rename_i hdevice
        exact stepDeviceParam_stepped hexact h hq hdevice
      · rename_i hhost
        exact stepHostParam_stepped h hq (Bool.eq_false_iff.mpr hhost)
    obtain ⟨state, store₁, plain₁, hcall, h₁⟩ := hround
    obtain ⟨state', store', plain', hloop, h'⟩ :=
      ih (fun r hr => hqs r (List.mem_cons_of_mem _ hr)) h₁
    refine ⟨state', store', plain', ?_, h'⟩
    rw [AdamW.stepLoop, hcall]
    exact hloop

/-! ## Gradients -/

/-- A parameter that is given another gradient, or none. -/
theorem Holds.regrad (h : Holds backend params opt store plain slots) {plain' : PlainStore F}
    (hmodels : Models backend.toBackend store' plain') (hu : plain.get p = some u)
    (grad : Option TensorId) {value : Option (List F)}
    (hu' : plain'.get p = some { u with grad := grad })
    (hothers : ∀ q ∈ params, q ≠ p → plain'.get q = plain.get q)
    (hgrads : ∀ q ∈ params, q ≠ p → ∀ w g, plain.get q = some w → w.grad = some g →
      plain'.get g = plain.get g)
    (hsome : ∀ g, grad = some g → (∃ w, plain'.get g = some w ∧ w.shape = u.shape ∧
      value = some w.value) ∧ g ∉ params ∧
        ∀ q ∈ params, q ≠ p → ∀ w, plain.get q = some w → w.grad ≠ some g)
    (hnone : grad = none → value = none) :
    Holds backend params opt store' plain'
      (Function.update slots p { slots p with grad := value }) := by
  refine ⟨hmodels, ⟨?_, ?_⟩, ?_, ?_, ?_, ?_⟩
  · intro q hq r hr w x g hw hx hwg hxg
    by_cases hqp : q = p
    · by_cases hrp : r = p
      · rw [hqp, hrp]
      · subst hqp
        rw [hu'] at hw
        cases hw
        rw [hothers r hr hrp] at hx
        exact absurd hxg ((hsome g hwg).2.2 r hr hrp x hx)
    · rw [hothers q hq hqp] at hw
      by_cases hrp : r = p
      · subst hrp
        rw [hu'] at hx
        cases hx
        exact absurd hwg ((hsome g hxg).2.2 q hq hqp w hw)
      · rw [hothers r hr hrp] at hx
        exact h.apart.grads q hq r hr w x g hw hx hwg hxg
  · intro q hq w g hw hg
    by_cases hqp : q = p
    · subst hqp
      rw [hu'] at hw
      cases hw
      exact (hsome g hg).2.1
    · rw [hothers q hq hqp] at hw
      exact h.apart.params q hq w g hw hg
  · intro q hq
    by_cases hqp : q = p
    · subst hqp
      rw [Function.update_self]
      obtain ⟨u₀, hu₀, hvalue, hshape, hreq, _⟩ := (h.slot q hq).param
      rw [hu] at hu₀
      cases hu₀
      exact ⟨{ u with grad := grad }, hu', hvalue, hshape, hreq, hnone, fun g hg => (hsome g hg).1⟩
    · rw [Function.update_of_ne hqp]
      exact (h.slot q hq).frame (hothers q hq hqp) fun w g hw hg => hgrads q hq hqp w g hw hg
  · intro q hq
    by_cases hqp : q = p
    · subst hqp
      rw [Function.update_self]
      have hsized := h.sized q hq
      refine ⟨hsized.value, ?_, hsized.moments⟩
      intro x hx
      cases hgrad : grad with
      | none =>
        rw [hnone hgrad] at hx
        cases hx
      | some g =>
        obtain ⟨w, hw, hwshape, hvaluew⟩ := (hsome g hgrad).1
        obtain ⟨u₀, hu₀, _, hshape, _⟩ := (h.slot q hq).param
        rw [hu] at hu₀
        cases hu₀
        rw [show value = some x from hx] at hvaluew
        cases hvaluew
        rw [hmodels.value_length hw, hwshape, hshape]
    · rw [Function.update_of_ne hqp]
      exact h.sized q hq
  · intro q hq
    by_cases hqp : q = p
    · subst hqp
      rw [Function.update_self]
      exact h.moments q hq
    · rw [Function.update_of_ne hqp]
      exact h.moments q hq
  · intro q hq mm hmm
    by_cases hqp : q = p
    · subst hqp
      rw [Function.update_self]
      exact h.storage q hq mm hmm
    · rw [Function.update_of_ne hqp]
      exact h.storage q hq mm hmm

/-- A gradient that is written. -/
theorem Holds.setGradValue (h : Holds backend params opt store plain slots) (hp : p ∈ params)
    (hu : plain.get p = some u) {g : TensorId} (hg : u.grad = some g) {w : Plain F}
    (hw : plain.get g = some w) (hwshape : w.shape = u.shape) {value : List F}
    (hmodels : Models backend.toBackend store' (plain.put g { w with value := value })) :
    Holds backend params opt store' (plain.put g { w with value := value })
      (Function.update slots p { slots p with grad := some value }) := by
  have hget : ∀ j, (plain.put g { w with value := value }).get j =
      if j = g then some { w with value := value } else plain.get j :=
    Slab.get_put (Slab.lt_length hw) _
  have hgp : g ∉ params := h.apart.params p hp u g hu hg
  have hothers : ∀ q ∈ params, (plain.put g { w with value := value }).get q = plain.get q := by
    intro q hq
    rw [hget, if_neg]
    rintro rfl
    exact hgp hq
  apply h.regrad hmodels hu (some g)
  · rw [hothers p hp, hu, ← hg]
  · exact fun q hq _ => hothers q hq
  · intro q hq hqp x j hx hj
    rw [hget, if_neg]
    rintro rfl
    exact hqp (h.apart.grads q hq p hp x u j hx hu hj hg)
  · rintro j ⟨⟩
    refine ⟨⟨{ w with value := value }, ?_, hwshape, rfl⟩, hgp, ?_⟩
    · rw [hget, if_pos rfl]
    · intro q hq hqp x hx hxg
      exact hqp (h.apart.grads q hq p hp x u g hx hu hxg hg)
  · exact fun hnone => absurd hnone (Option.some_ne_none g)

/-- Tensors that are neither parameters nor their gradients. -/
theorem Holds.frame (h : Holds backend params opt store plain slots) {plain' : PlainStore F}
    (hmodels : Models backend.toBackend store' plain')
    (hparams : ∀ q ∈ params, plain'.get q = plain.get q)
    (hgrads : ∀ q ∈ params, ∀ w g, plain.get q = some w → w.grad = some g →
      plain'.get g = plain.get g) : Holds backend params opt store' plain' slots := by
  refine ⟨hmodels, ⟨?_, ?_⟩, ?_, h.sized, h.moments, h.storage⟩
  · intro q hq r hr w x g hw hx
    rw [hparams q hq] at hw
    rw [hparams r hr] at hx
    exact h.apart.grads q hq r hr w x g hw hx
  · intro q hq w g hw
    rw [hparams q hq] at hw
    exact h.apart.params q hq w g hw
  · intro q hq
    exact (h.slot q hq).frame (hparams q hq) (hgrads q hq)

/-- The gradient of a parameter is in the store. -/
theorem Holds.grad_live (h : Holds backend params opt store plain slots) (hp : p ∈ params)
    (hu : plain.get p = some u) {g : TensorId} (hg : u.grad = some g) : plain.get g ≠ none := by
  obtain ⟨u', hu', _, _, _, _, hsome⟩ := (h.slot p hp).param
  rw [hu] at hu'
  cases hu'
  obtain ⟨w, hw, _⟩ := hsome g hg
  rw [hw]
  exact Option.some_ne_none w

/-- A new tensor. -/
theorem Holds.alloc (h : Holds backend params opt store plain slots) {t : Tensor F H}
    (ht : t.Resident backend.toBackend) :
    Holds backend params opt (store.alloc t).2 (plain.alloc (t.plain backend.toBackend)).2
      slots := by
  have hwf := h.models.plain_wellFormed
  have hold : ∀ j, plain.get j ≠ none →
      (plain.alloc (t.plain backend.toBackend)).2.get j = plain.get j := by
    intro j hj
    rw [hwf.get_alloc, if_neg]
    rintro rfl
    exact hj (hwf.alloc_fresh _)
  apply h.frame (h.models.alloc ht).2
  · intro q hq
    obtain ⟨_, w, _, hw, _⟩ := h.get_param hq
    exact hold q (by simp [hw])
  · intro q hq w g hw hg
    exact hold g (h.grad_live hq hw hg)

/-- A gradient tensor is added to the gradient of a parameter. -/
theorem Holds.accumulateGrad (hexact : backend.toBackend.Exact)
    (h : Holds backend params opt store plain slots) (hp : p ∈ params) {g₀ : TensorId}
    {w₀ : Plain F} (hw₀ : plain.get g₀ = some w₀) (hshape₀ : w₀.shape = (slots p).shape) :
    ∃ store' plain', store.accumulateGrad backend.toBackend p g₀ = .ok store' ∧
      Holds backend params opt store' plain'
        (Function.update slots p ((slots p).addGrad w₀.value)) := by
  obtain ⟨t, u, ht, hu, hplain, hres, hvalue, hshape, hreq, hnone, hsome⟩ := h.get_param hp
  have hfit : GradFits plain p := by
    intro u' g w hu' hg hw
    rw [hu] at hu'
    cases hu'
    obtain ⟨w', hw', hwshape, _⟩ := hsome g hg
    rw [hw] at hw'
    cases hw'
    exact hwshape
  have hmatch := accumulateGrad_models hexact h.models hfit g₀
  unfold PlainStore.accumulateGrad PlainStore.tensor at hmatch
  rw [hu, hw₀] at hmatch
  unfold Slot.addGrad
  by_cases hrequires : u.requiresGrad = false
  · obtain ⟨store', hcall, hmodels⟩ := hmatch.returns (if_pos hrequires)
    rw [if_pos (hreq ▸ hrequires), Function.update_eq_self]
    exact ⟨store', plain, hcall, { h with models := hmodels }⟩
  · have hsame : ¬ u.shape ≠ w₀.shape := not_not.mpr (hshape.trans hshape₀.symm)
    rw [if_neg (hreq ▸ hrequires)]
    cases hg : u.grad with
    | some g =>
      -- there is a gradient already
      obtain ⟨w, hw, hwshape, hslot⟩ := hsome g hg
      have hadd : PlainStore.addInto plain g g₀ =
          .ok (plain.put g { w with value := addAssign w.value w₀.value }) := by
        unfold PlainStore.addInto PlainStore.tensor
        rw [hw, hw₀]
        rfl
      obtain ⟨store', hcall, hmodels⟩ := hmatch.returns
        ((if_neg hrequires).trans ((if_neg hsame).trans (by rw [hg]; exact hadd)))
      refine ⟨store', plain.put g { w with value := addAssign w.value w₀.value }, hcall, ?_⟩
      rw [hslot]
      exact h.setGradValue hp hu hg hw hwshape hmodels
    | none =>
      -- the first gradient is copied
      have hwf := h.models.plain_wellFormed
      obtain ⟨id, hid⟩ : ∃ id, id = (plain.alloc w₀).1 := ⟨_, rfl⟩
      have hfresh : plain.get id = none := hid ▸ hwf.alloc_fresh w₀
      have hget : ∀ j, (plain.alloc w₀).2.get j = if j = id then some w₀ else plain.get j :=
        hid ▸ hwf.get_alloc w₀
      have hne : ∀ j, plain.get j ≠ none → j ≠ id := by
        rintro j hj rfl
        exact hj hfresh
      have hlive : ∀ q ∈ params, plain.get q ≠ none := by
        intro q hq
        obtain ⟨_, w, _, hw, _⟩ := h.get_param hq
        exact hw ▸ Option.some_ne_none w
      have hset : PlainStore.setGrad (plain.alloc w₀).2 p (some id) =
          .ok ((plain.alloc w₀).2.put p { u with grad := some id }) := by
        unfold PlainStore.setGrad PlainStore.tensor
        rw [hget, if_neg (hne p (hlive p hp)), hu]
        rfl
      have hclone : (PlainStore.cloneTensor plain g₀ >>= fun r =>
          PlainStore.setGrad r.2 p (some r.1)) =
            .ok ((plain.alloc w₀).2.put p { u with grad := some id }) := by
        unfold PlainStore.cloneTensor PlainStore.tensor
        rw [hw₀]
        rw [hid] at hset ⊢
        exact hset
      obtain ⟨store', hcall, hmodels⟩ := hmatch.returns
        ((if_neg hrequires).trans ((if_neg hsame).trans (by rw [hg]; exact hclone)))
      refine ⟨store', (plain.alloc w₀).2.put p { u with grad := some id }, hcall, ?_⟩
      have hp₁ : (plain.alloc w₀).2.get p = some u :=
        (hget p).trans ((if_neg (hne p (hlive p hp))).trans hu)
      have hput : ∀ j, ((plain.alloc w₀).2.put p { u with grad := some id }).get j =
          if j = p then some { u with grad := some id } else if j = id then some w₀
            else plain.get j := by
        intro j
        rw [Slab.get_put (Slab.lt_length hp₁), hget]
      have hidp : id ≠ p := (hne p (hlive p hp)).symm
      rw [hnone hg]
      refine h.regrad hmodels hu (some id) ?_ ?_ ?_ ?_ ?_
      · rw [hput, if_pos rfl]
      · intro q hq hqp
        rw [hput, if_neg hqp, if_neg (hne q (hlive q hq))]
      · intro q hq hqp x j hx hj
        rw [hput, if_neg, if_neg (hne j (h.grad_live hq hx hj))]
        rintro rfl
        exact h.apart.params q hq x j hx hj hp
      · rintro j ⟨⟩
        refine ⟨⟨w₀, ?_, hshape₀.trans hshape.symm, rfl⟩, ?_, ?_⟩
        · rw [hput, if_neg hidp, if_pos rfl]
        · exact fun hin => hlive id hin hfresh
        · exact fun q hq _ x hx hxg => h.grad_live hq hx hxg hfresh
      · exact fun hfalse => absurd hfalse (Option.some_ne_none id)

/-! ## Clearing -/

/-- The device path drops a gradient. -/
theorem dropGrad_holds (h : Holds backend params opt store plain slots) (hp : p ∈ params) :
    ∃ store' plain', AdamW.dropGrad store p = .ok store' ∧
      Holds backend params opt store' plain'
        (Function.update slots p { slots p with grad := none }) := by
  obtain ⟨t, u, ht, hu, hplain, hres, hvalue, hshape, hreq, hnone, hsome⟩ := h.get_param hp
  have hgrad : t.grad = u.grad := congrArg Plain.grad hplain
  unfold AdamW.dropGrad
  rw [ht, Option.bind_some, hgrad]
  cases hg : u.grad with
  | none =>
    refine ⟨store, plain, rfl, ?_⟩
    rw [← hnone hg, Function.update_eq_self]
    exact h
  | some g =>
    dsimp only
    obtain ⟨w, hw, _⟩ := hsome g hg
    have hgp : g ≠ p := by
      rintro rfl
      exact h.apart.params g hp u g hu hg hp
    have hset : PlainStore.setGrad plain p none = .ok (plain.put p { u with grad := none }) := by
      unfold PlainStore.setGrad PlainStore.tensor
      rw [hu]
      rfl
    obtain ⟨store₁, hcall₁, h₁⟩ := (setGrad_models h.models p none).returns hset
    have hw₁ : (plain.put p { u with grad := none }).get g = some w := by
      rw [Slab.get_put (Slab.lt_length hu), if_neg hgp]
      exact hw
    obtain ⟨gt, hgt, _⟩ := Option.map_eq_some_iff.mp ((h₁.get_eq g).symm.trans hw₁)
    rw [hcall₁]
    dsimp only
    unfold TensorStore.free
    rw [tensor_of_get hgt]
    refine ⟨store₁.release g, (plain.put p { u with grad := none }).release g, rfl, ?_⟩
    have hget : ∀ j, ((plain.put p { u with grad := none }).release g).get j =
        if j = g then none else if j = p then some { u with grad := none } else plain.get j := by
      intro j
      rw [Slab.get_release (Slab.lt_length hw₁), Slab.get_put (Slab.lt_length hu)]
    have hne : ∀ q ∈ params, q ≠ g := by
      rintro q hq rfl
      exact h.apart.params p hp u q hu hg hq
    refine h.regrad (h₁.release hgt) hu none ?_ ?_ ?_ ?_ ?_
    · rw [hget, if_neg hgp.symm, if_pos rfl]
    · intro q hq hqp
      rw [hget, if_neg (hne q hq), if_neg hqp]
    · intro q hq hqp x j hx hj
      rw [hget, if_neg, if_neg]
      · rintro rfl
        exact h.apart.params q hq x j hx hj hp
      · rintro rfl
        exact hqp (h.apart.grads q hq p hp x u j hx hu hj hg)
    · rintro j ⟨⟩
    · exact fun _ => rfl

/-- The host path fills a gradient with zeros. -/
theorem fillGrad_holds (h : Holds backend params opt store plain slots) (hp : p ∈ params) :
    ∃ store' plain', AdamW.fillGrad backend store p = .ok store' ∧
      Holds backend params opt store' plain' (Function.update slots p
        { slots p with grad := (slots p).grad.map fun _ => (slots p).zeros }) := by
  obtain ⟨t, u, ht, hu, hplain, hres, hvalue, hshape, hreq, hnone, hsome⟩ := h.get_param hp
  have hgrad : t.grad = u.grad := congrArg Plain.grad hplain
  unfold AdamW.fillGrad
  rw [ht, Option.bind_some, hgrad]
  cases hg : u.grad with
  | none =>
    refine ⟨store, plain, rfl, ?_⟩
    rw [hnone hg, Option.map_none, ← hnone hg, Function.update_eq_self]
    exact h
  | some g =>
    dsimp only
    obtain ⟨w, hw, hwshape, hslot⟩ := hsome g hg
    obtain ⟨gt, store₁, hcall, h₁, hgt, hdirty, hsame⟩ := getMut_models h.models hw
    rw [hcall]
    have hgshape : gt.shape = (slots p).shape :=
      ((congrArg Plain.shape hsame).trans hwshape).trans hshape
    have hlen : gt.data.length = shapeSize (slots p).shape := by
      rw [(h₁.resident g gt hgt).data_length (by simp [hdirty]), hgshape]
    have hset := writeHost_models h₁ hgt hdirty
      (List.length_replicate.trans (hlen.trans (congrArg shapeSize hgshape).symm) :
        (List.replicate gt.data.length (0 : F)).length = _)
    rw [hsame] at hset
    refine ⟨store₁.setTensor g { gt with data := List.replicate gt.data.length 0 },
      plain.put g { w with value := List.replicate gt.data.length 0 }, rfl, ?_⟩
    rw [hslot, Option.map_some]
    unfold Slot.zeros
    rw [← hlen]
    exact h.setGradValue hp hu hg hw hwshape hset

theorem zeroParam_holds (h : Holds backend params opt store plain slots) (hp : p ∈ params) :
    ∃ store' plain', AdamW.zeroParam backend opt store p = .ok store' ∧
      Holds backend params opt store' plain'
        (Function.update slots p ((slots p).zeroGrad opt.deviceBacked)) := by
  unfold AdamW.zeroParam Slot.zeroGrad
  split
  · exact dropGrad_holds h hp
  · exact fillGrad_holds h hp

/-- `zero_grad` clears each slot. -/
theorem zeroGrad_holds {qs : List TensorId} (hqs : ∀ q ∈ qs, q ∈ params)
    (h : Holds backend params opt store plain slots) :
    ∃ store' plain', AdamW.zeroGrad backend opt qs store = .ok store' ∧
      Holds backend params opt store' plain'
        (qs.foldl (fun slots q => Function.update slots q ((slots q).zeroGrad opt.deviceBacked))
          slots) := by
  induction qs generalizing store plain slots with
  | nil => exact ⟨store, plain, rfl, h⟩
  | cons q qs ih =>
    obtain ⟨store₁, plain₁, hcall, h₁⟩ := zeroParam_holds h (hqs q List.mem_cons_self)
    obtain ⟨store', plain', hloop, h'⟩ := ih (fun r hr => hqs r (List.mem_cons_of_mem _ hr)) h₁
    refine ⟨store', plain', ?_, h'⟩
    rw [AdamW.zeroGrad, hcall]
    exact hloop

end Holds

end Arle.Autograd
