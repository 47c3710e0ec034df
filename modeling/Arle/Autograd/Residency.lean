import Arle.Lib.Matches
import Arle.Autograd.Tensor

/-!
# Tensors without their placement

A `Plain` tensor has a value but no buffers. `Models backend store plain` says that the plain
store is the tensor store with every tensor replaced by its current copy, and that the copies
of every tensor are in order (`Resident`). Every call of the store acts on the plain store in
a way that does not depend on the placement of the tensors: the transfers do nothing
(`ensureHost_models` and the others), and the calls that compute do the same to the values.
-/

namespace Arle.Autograd

variable {F H : Type}

/-- A tensor without its placement. -/
structure Plain (F : Type) where
  value : List F
  shape : List Nat
  requiresGrad : Bool
  grad : Option TensorId
deriving DecidableEq

abbrev PlainStore (F : Type) := Slab (Plain F)

namespace Tensor

variable (backend : Backend F H)

/-- The current copy. -/
def content (tensor : Tensor F H) : List F :=
  match tensor.dirty, tensor.deviceHandle with
  | .device, some handle => backend.readback handle
  | _, _ => tensor.data

def plain (tensor : Tensor F H) : Plain F :=
  ⟨tensor.content backend, tensor.shape, tensor.requiresGrad, tensor.grad⟩

/-- A tensor on the device has a handle and no data; the copies of a tensor that is in both
places are equal; and the current copy fills the shape. -/
structure Resident (tensor : Tensor F H) : Prop where
  size : tensor.size = shapeSize tensor.shape
  length : (tensor.content backend).length = shapeSize tensor.shape
  device : tensor.dirty = .device → tensor.data = [] ∧ ∃ handle, tensor.deviceHandle = some handle
  both : tensor.dirty = .both →
    ∃ handle, tensor.deviceHandle = some handle ∧ backend.readback handle = tensor.data

end Tensor

/-- What the transfers are relied on for: reading back what was uploaded gives it again, and
adding on the device adds the values. -/
structure Backend.Exact [Add F] (backend : Backend F H) : Prop where
  readback_upload : ∀ data shape, data.length = shapeSize shape →
    backend.readback (backend.upload data shape) = data
  addIntoDevice : ∀ dest src shape, (backend.readback dest).length = shapeSize shape →
    (backend.readback src).length = shapeSize shape → ∃ sum,
      backend.addIntoDevice dest src shape = .ok sum ∧
        backend.readback sum = addAssign (backend.readback dest) (backend.readback src)

/-- The plain store is the tensor store without the placements. -/
structure Models (backend : Backend F H) (store : TensorStore F H) (plain : PlainStore F) :
    Prop where
  wellFormed : store.WellFormed
  resident : ∀ id tensor, store.get id = some tensor → tensor.Resident backend
  view : store.map (Tensor.plain backend) = plain

namespace PlainStore

def tensor (store : PlainStore F) (id : TensorId) : Result (Plain F) :=
  match store.get id with
  | some tensor => .ok tensor
  | none => .error (.invalidTensorId id)

def setGrad (store : PlainStore F) (id : TensorId) (grad : Option TensorId) :
    Result (PlainStore F) := do
  let tensor ← store.tensor id
  return store.put id { tensor with grad := grad }

/-- Add the value of a tensor to another. -/
def addInto [Add F] (store : PlainStore F) (existing incoming : TensorId) : Result (PlainStore F) := do
  let existingTensor ← store.tensor existing
  let incomingTensor ← store.tensor incoming
  return store.put existing
    { existingTensor with value := addAssign existingTensor.value incomingTensor.value }

def cloneTensor (store : PlainStore F) (id : TensorId) : Result (TensorId × PlainStore F) := do
  let source ← store.tensor id
  return store.alloc source

def fillLike (store : PlainStore F) (id : TensorId) (value : F) :
    Result (TensorId × PlainStore F) := do
  let source ← store.tensor id
  return store.alloc
    ⟨List.replicate (shapeSize source.shape) value, source.shape, false, none⟩

/-- `accumulate_grad` of the values. -/
def accumulateGrad [Add F] (store : PlainStore F) (paramId gradId : TensorId) :
    Result (PlainStore F) := do
  let param ← store.tensor paramId
  if param.requiresGrad = false then return store
  else do
    let grad ← store.tensor gradId
    if param.shape ≠ grad.shape then
      .error (.gradientShapeMismatch paramId param.shape grad.shape)
    else
      match param.grad with
      | some existingId => store.addInto existingId gradId
      | none => do
        let (clonedGradId, store) ← store.cloneTensor gradId
        PlainStore.setGrad store paramId (some clonedGradId)

end PlainStore

/-! ## The current copy -/

section Content

variable {backend : Backend F H} {tensor : Tensor F H} {handle : H}

theorem content_of_not_device (h : tensor.dirty ≠ .device) :
    tensor.content backend = tensor.data := by
  unfold Tensor.content
  split
  · rename_i hdirty _
    exact absurd hdirty h
  · rfl

theorem content_of_device (h : tensor.dirty = .device) (hhandle : tensor.deviceHandle = some handle) :
    tensor.content backend = backend.readback handle := by
  unfold Tensor.content
  rw [h, hhandle]

namespace Tensor.Resident

theorem data_length (h : tensor.Resident backend) (hdirty : tensor.dirty ≠ .device) :
    tensor.data.length = shapeSize tensor.shape :=
  content_of_not_device hdirty ▸ h.length

/-- The handle of a tensor that is on the device holds the current copy. -/
theorem onDevice (h : tensor.Resident backend) (hhandle : tensor.onDevice = some handle) :
    tensor.deviceHandle = some handle ∧ tensor.dirty ≠ .host ∧
      backend.readback handle = tensor.content backend := by
  unfold Tensor.onDevice at hhandle
  split at hhandle
  · rename_i hdirty
    refine ⟨hhandle, hdirty, ?_⟩
    by_cases hdevice : tensor.dirty = .device
    · exact (content_of_device hdevice hhandle).symm
    · have hboth : tensor.dirty = .both := by
        cases hd : tensor.dirty with
        | host => exact absurd hd hdirty
        | device => exact absurd hd hdevice
        | both => rfl
      obtain ⟨handle', hhandle', heq⟩ := h.both hboth
      rw [hhandle] at hhandle'
      cases hhandle'
      rw [content_of_not_device hdevice, heq]
  · cases hhandle

/-- A tensor that is given a host buffer and nothing else. -/
theorem of_host {data : List F} {shape : List Nat} {requiresGrad : Bool}
    {grad : Option TensorId} {handle : Option H} (h : data.length = shapeSize shape) :
    (⟨data, shape, shapeSize shape, requiresGrad, grad, handle, .host⟩ :
      Tensor F H).Resident backend :=
  ⟨rfl, h, by simp, by simp⟩

/-- The flags and the gradient do not matter. -/
theorem relabel (h : tensor.Resident backend) (requiresGrad : Bool) (grad : Option TensorId) :
    ({ tensor with requiresGrad := requiresGrad, grad := grad } : Tensor F H).Resident backend :=
  ⟨h.size, h.length, h.device, h.both⟩

end Tensor.Resident

end Content

/-! ## What the store holds -/

section Store

variable {backend : Backend F H} {store : TensorStore F H} {plain : PlainStore F}
  {t : Tensor F H} {id : TensorId}

theorem get_setTensor {old : Tensor F H} (hget : store.get id = some old) :
    Slab.get (store.setTensor id t) id = some t :=
  (Slab.get_put (Slab.lt_length hget) t id).trans (if_pos rfl)

namespace Models

theorem get_eq (h : Models backend store plain) (id : TensorId) :
    plain.get id = (store.get id).map (Tensor.plain backend) := by
  rw [← h.view]
  exact Slab.get_map _ store id

theorem plain_wellFormed (h : Models backend store plain) : plain.WellFormed := by
  rw [← h.view]
  refine ⟨h.wellFormed.nodup, ?_⟩
  intro j hj
  unfold Slab.map
  rw [List.getElem?_map, h.wellFormed.free j hj]
  rfl

/-- A value fills its shape. -/
theorem value_length (h : Models backend store plain) {u : Plain F}
    (hu : plain.get id = some u) : u.value.length = shapeSize u.shape := by
  rw [h.get_eq] at hu
  obtain ⟨t, ht, rfl⟩ := Option.map_eq_some_iff.mp hu
  exact (h.resident id t ht).length

/-- Looking a tensor up. -/
theorem tensor (h : Models backend store plain) (id : TensorId) :
    Matches (fun t u => u = t.plain backend ∧ t.Resident backend ∧ store.get id = some t)
      (store.tensor id) (plain.tensor id) := by
  unfold TensorStore.tensor PlainStore.tensor
  rw [h.get_eq]
  cases hget : store.get id with
  | none => exact Matches.error _ _
  | some t => exact ⟨rfl, h.resident id t hget, rfl⟩

theorem alloc (h : Models backend store plain) (ht : t.Resident backend) :
    (store.alloc t).1 = (plain.alloc (t.plain backend)).1 ∧
      Models backend (store.alloc t).2 (plain.alloc (t.plain backend)).2 := by
  have hmap := Slab.alloc_map (Tensor.plain backend) store t
  rw [h.view] at hmap
  rw [hmap]
  refine ⟨rfl, h.wellFormed.alloc t, ?_, rfl⟩
  intro j t' hj
  rw [h.wellFormed.get_alloc] at hj
  split at hj
  · cases hj
    exact ht
  · exact h.resident j t' hj

theorem setTensor (h : Models backend store plain) {old : Tensor F H}
    (hget : store.get id = some old) (ht : t.Resident backend) :
    Models backend (store.setTensor id t) (plain.put id (t.plain backend)) := by
  refine ⟨h.wellFormed.put hget t, ?_, ?_⟩
  · intro j t' hj
    unfold TensorStore.setTensor at hj
    rw [Slab.get_put (Slab.lt_length hget)] at hj
    split at hj
    · cases hj
      exact ht
    · exact h.resident j t' hj
  · unfold TensorStore.setTensor
    rw [Slab.put_map, h.view]

/-- A tensor that is moved. -/
theorem moved (h : Models backend store plain) {old : Tensor F H}
    (hget : store.get id = some old) (ht : t.Resident backend)
    (hsame : t.plain backend = old.plain backend) :
    Models backend (store.setTensor id t) plain := by
  have hset := h.setTensor hget ht
  rw [hsame, Slab.put_self] at hset
  · exact hset
  · rw [h.get_eq, hget]
    rfl

theorem release (h : Models backend store plain) (hget : store.get id = some t) :
    Models backend (store.release id) (plain.release id) := by
  refine ⟨h.wellFormed.release hget, ?_, ?_⟩
  · intro j t' hj
    rw [Slab.get_release (Slab.lt_length hget)] at hj
    split at hj
    · cases hj
    · exact h.resident j t' hj
  · rw [Slab.release_map, h.view]

theorem retainIds (h : Models backend store plain) (keep : List TensorId) :
    Models backend (store.retainIds keep) (plain.retain keep) := by
  refine ⟨h.wellFormed.retain keep, ?_, ?_⟩
  · intro j t' hj
    unfold TensorStore.retainIds at hj
    rw [Slab.get_retain] at hj
    split at hj
    · exact h.resident j t' hj
    · cases hj
  · unfold TensorStore.retainIds
    rw [Slab.retain_map, h.view]

end Models

/-! ## The transfers do nothing -/

/-- A tensor that is read back. -/
theorem readBack_spec (hres : t.Resident backend) (hdirty : t.dirty = .device)
    {handle : H} (hhandle : t.deviceHandle = some handle) :
    ({ t with data := backend.readback handle, dirty := .both } : Tensor F H).Resident backend ∧
      ({ t with data := backend.readback handle, dirty := .both } : Tensor F H).plain backend
        = t.plain backend := by
  have hcontent : t.content backend = backend.readback handle := content_of_device hdirty hhandle
  have hlen : (backend.readback handle).length = shapeSize t.shape := hcontent ▸ hres.length
  refine ⟨⟨hres.size, hlen, by simp, fun _ => ⟨handle, hhandle, rfl⟩⟩, ?_⟩
  unfold Tensor.plain
  rw [hcontent]
  rfl

theorem ensureHost_models (h : Models backend store plain) (id : TensorId) :
    Matches (fun store u => Models backend store plain ∧
        ∃ t, store.get id = some t ∧ t.dirty ≠ .device ∧ u = t.plain backend)
      (store.ensureHost backend id) (plain.tensor id) := by
  unfold TensorStore.ensureHost
  refine (h.tensor id).bind_left ?_
  rintro t _ ⟨rfl, hres, hget⟩
  by_cases hdirty : t.dirty = .device
  · rw [if_neg (not_not.mpr hdirty)]
    split
    · rename_i hnone
      obtain ⟨_, handle, hhandle⟩ := hres.device hdirty
      rw [hnone] at hhandle
      cases hhandle
    · rename_i handle hhandle
      obtain ⟨hres', hsame⟩ := readBack_spec hres hdirty hhandle
      exact ⟨_, rfl, h.moved hget hres' hsame, _, get_setTensor hget, by simp, hsame.symm⟩
  · rw [if_pos hdirty]
    exact ⟨_, rfl, h, t, hget, hdirty, rfl⟩

theorem ensureDevice_models [Add F] (hexact : backend.Exact) (h : Models backend store plain)
    (id : TensorId) :
    Matches (fun store u => Models backend store plain ∧
        ∃ t handle, store.get id = some t ∧ t.onDevice = some handle ∧ u = t.plain backend)
      (store.ensureDevice backend id) (plain.tensor id) := by
  unfold TensorStore.ensureDevice
  refine (h.tensor id).bind_left ?_
  rintro t _ ⟨rfl, hres, hget⟩
  split
  · rename_i hon
    obtain ⟨handle, hhandle⟩ := Option.isSome_iff_exists.mp hon.1
    refine ⟨_, rfl, h, t, handle, hget, ?_, rfl⟩
    unfold Tensor.onDevice
    rw [if_pos hon.2, hhandle]
  · rename_i hoff
    have hdirty : t.dirty ≠ .device := by
      intro hdevice
      obtain ⟨_, handle, hhandle⟩ := hres.device hdevice
      apply hoff
      rw [hhandle, hdevice]
      exact ⟨rfl, by simp⟩
    have hread := hexact.readback_upload t.data t.shape (hres.data_length hdirty)
    have hsame : ({ t with deviceHandle := some (backend.upload t.data t.shape), dirty := .both } :
        Tensor F H).plain backend = t.plain backend := by
      unfold Tensor.plain
      rw [content_of_not_device hdirty]
      rfl
    refine ⟨_, rfl, h.moved hget ⟨hres.size, hres.data_length hdirty, by simp, ?_⟩ hsame, _, _,
      get_setTensor hget, rfl, hsame.symm⟩
    exact fun _ => ⟨_, rfl, hread⟩

/-- The ids that are read back hold their current copy on the device. -/
def Flushable (backend : Backend F H) (store : TensorStore F H) (flushed : List (TensorId × H)) :
    Prop :=
  ∀ p ∈ flushed, ∃ t, store.get p.1 = some t ∧ t.deviceHandle = some p.2 ∧
    t.content backend = backend.readback p.2

theorem toFlush_flushable {ids : List TensorId}
    {flushed : List (TensorId × H)} (hcall : store.toFlush ids = .ok flushed) :
    Flushable backend store flushed := by
  induction ids generalizing flushed with
  | nil =>
    cases hcall
    intro p hp
    cases hp
  | cons id ids ih =>
    rw [TensorStore.toFlush] at hcall
    cases hget : store.get id with
    | none =>
      simp only [TensorStore.tensor, hget] at hcall
      cases hcall
    | some t =>
      simp only [TensorStore.tensor, hget] at hcall
      change (if t.dirty ≠ .device then _ else _) = _ at hcall
      split at hcall
      · exact ih hcall
      · rename_i hdirty
        split at hcall
        · cases hcall
        · rename_i handle hhandle
          cases hrest : store.toFlush ids with
          | error err =>
            rw [hrest] at hcall
            cases hcall
          | ok rest =>
            rw [hrest] at hcall
            cases hcall
            intro p hp
            rcases List.mem_cons.mp hp with rfl | hp
            · exact ⟨t, hget, hhandle, content_of_device (not_not.mp hdirty) hhandle⟩
            · exact ih hrest p hp

theorem toFlush_returns (h : Models backend store plain) {ids : List TensorId}
    (hlive : ∀ id ∈ ids, store.get id ≠ none) : ∃ flushed, store.toFlush ids = .ok flushed := by
  induction ids with
  | nil => exact ⟨[], rfl⟩
  | cons id ids ih =>
    obtain ⟨t, hget⟩ := Option.ne_none_iff_exists'.mp (hlive id List.mem_cons_self)
    obtain ⟨rest, hrest⟩ := ih fun j hj => hlive j (List.mem_cons_of_mem _ hj)
    rw [TensorStore.toFlush]
    simp only [TensorStore.tensor, hget]
    change ∃ flushed, (if t.dirty ≠ .device then _ else _) = _
    split
    · exact ⟨rest, hrest⟩
    · rename_i hdirty
      obtain ⟨_, handle, hhandle⟩ := (h.resident id t hget).device (not_not.mp hdirty)
      rw [hrest]
      simp only [hhandle]
      exact ⟨_, rfl⟩

theorem flushLoop_models (h : Models backend store plain) {flushed : List (TensorId × H)}
    (hall : Flushable backend store flushed) :
    ∃ store', store.flushLoop backend flushed = .ok store' ∧ Models backend store' plain := by
  induction flushed generalizing store with
  | nil => exact ⟨store, rfl, h⟩
  | cons p flushed ih =>
    obtain ⟨t, hget, hhandle, hcontent⟩ := hall p List.mem_cons_self
    have hres := h.resident _ t hget
    have hlen : (backend.readback p.2).length = shapeSize t.shape := hcontent ▸ hres.length
    have hres' : ({ t with data := backend.readback p.2, dirty := .both } :
        Tensor F H).Resident backend := ⟨hres.size, hlen, by simp, fun _ => ⟨p.2, hhandle, rfl⟩⟩
    have hsame : ({ t with data := backend.readback p.2, dirty := .both } :
        Tensor F H).plain backend = t.plain backend := by
      unfold Tensor.plain
      rw [hcontent]
      rfl
    have h' := h.moved hget hres' hsame
    rw [TensorStore.flushLoop]
    simp only [TensorStore.tensor, hget]
    refine ih h' ?_
    intro q hq
    obtain ⟨u, hu, huhandle, hucontent⟩ := hall q (List.mem_cons_of_mem _ hq)
    by_cases hqp : q.1 = p.1
    · rw [hqp, hget] at hu
      cases hu
      refine ⟨{ t with data := backend.readback p.2, dirty := .both }, ?_, huhandle, ?_⟩
      · rw [hqp]
        exact get_setTensor hget
      · rw [hhandle] at huhandle
        exact congrArg backend.readback (Option.some.inj huhandle)
    · refine ⟨u, ?_, huhandle, hucontent⟩
      unfold TensorStore.setTensor
      rw [Slab.get_put (Slab.lt_length hget), if_neg hqp]
      exact hu

theorem flushToHostBatch_returns (h : Models backend store plain) {ids : List TensorId}
    (hlive : ∀ id ∈ ids, store.get id ≠ none) :
    ∃ store', store.flushToHostBatch backend ids = .ok store' ∧ Models backend store' plain := by
  obtain ⟨flushed, hflush⟩ := toFlush_returns h hlive
  unfold TensorStore.flushToHostBatch
  rw [hflush]
  exact flushLoop_models h (toFlush_flushable hflush)

/-! ## Reading and writing -/

theorem tensor_of_get (hget : store.get id = some t) : store.tensor id = .ok t := by
  unfold TensorStore.tensor
  rw [hget]

theorem toHost_models (h : Models backend store plain) (id : TensorId) :
    Matches (fun r u => Models backend r.2 plain ∧ r.1 = u.value)
      (store.toHost backend id) (plain.tensor id) := by
  unfold TensorStore.toHost
  refine (ensureHost_models h id).bind_left ?_
  rintro store' _ ⟨h', t, hget, hdirty, rfl⟩
  rw [tensor_of_get hget]
  exact ⟨_, rfl, h', (content_of_not_device hdirty).symm⟩

theorem tensorHost_models (h : Models backend store plain) (id : TensorId) :
    Matches (fun r u => Models backend r.2 plain ∧ r.1.plain backend = u ∧
        r.1.Resident backend ∧ r.1.dirty ≠ .device)
      (store.tensorHost backend id) (plain.tensor id) := by
  unfold TensorStore.tensorHost
  refine (ensureHost_models h id).bind_left ?_
  rintro store' _ ⟨h', t, hget, hdirty, rfl⟩
  rw [tensor_of_get hget]
  have hres := h'.resident id t hget
  have hdata : t.clone.data = t.data := if_neg hdirty
  have hsame : t.clone.content backend = t.content backend := by
    have hclone : t.clone.content backend = t.clone.data := content_of_not_device hdirty
    rw [hclone, hdata, content_of_not_device hdirty]
  refine ⟨_, rfl, h', ?_, ⟨hres.size, hsame ▸ hres.length, ?_, ?_⟩, hdirty⟩
  · unfold Tensor.plain
    rw [hsame]
    rfl
  · exact fun hdevice => absurd hdevice hdirty
  · intro hboth
    obtain ⟨handle, hhandle, hread⟩ := hres.both hboth
    refine ⟨handle, ?_, hread.trans hdata.symm⟩
    change (if t.dirty = .host then none else t.deviceHandle) = _
    rw [show t.dirty = .both from hboth]
    exact hhandle

/-- A tensor to be written on the host. -/
theorem getMut_models (h : Models backend store plain) {u : Plain F} (hu : plain.get id = some u) :
    ∃ t store', store.getMut backend id = .ok (some t, store') ∧ Models backend store' plain ∧
      store'.get id = some t ∧ t.dirty = .host ∧ t.plain backend = u := by
  have hget := h.get_eq id
  rw [hu] at hget
  obtain ⟨t, ht, rfl⟩ := Option.map_eq_some_iff.mp hget.symm
  have hhost : ∃ store₁ t₁, store.hostForWrite backend id = .ok store₁ ∧
      Models backend store₁ plain ∧ store₁.get id = some t₁ ∧ t₁.dirty ≠ .device ∧
        t.plain backend = t₁.plain backend := by
    unfold TensorStore.hostForWrite
    rw [ht]
    dsimp only
    split
    · have hens := ensureHost_models h id
      unfold PlainStore.tensor at hens
      rw [hu] at hens
      obtain ⟨store₁, hok, h₁, t₁, hget₁, hdirty, hsame⟩ := hens.returns rfl
      rw [hok]
      exact ⟨store₁, t₁, rfl, h₁, hget₁, hdirty, hsame⟩
    · rename_i hdirty
      exact ⟨store, t, rfl, h, ht, hdirty, rfl⟩
  obtain ⟨store₁, t₁, hcall, h₁, hget₁, hdirty, hsame⟩ := hhost
  have hres := h₁.resident id t₁ hget₁
  have hplain : ({ t₁ with deviceHandle := none, dirty := .host } : Tensor F H).plain backend =
      t₁.plain backend := by
    unfold Tensor.plain
    rw [content_of_not_device hdirty]
    rfl
  have hlen := hres.data_length hdirty
  refine ⟨{ t₁ with deviceHandle := none, dirty := .host }, store₁.setTensor id
    { t₁ with deviceHandle := none, dirty := .host }, ?_, ?_, get_setTensor hget₁, rfl, ?_⟩
  · unfold TensorStore.getMut
    rw [hcall]
    dsimp only [bind, Except.bind]
    rw [hget₁]
    rfl
  · exact h₁.moved hget₁ ⟨hres.size, hlen, by simp, by simp⟩ hplain
  · exact hplain.trans hsame.symm

/-- Writing the host copy of such a tensor. -/
theorem writeHost_models (h : Models backend store plain) (hget : store.get id = some t)
    (hdirty : t.dirty = .host) {data : List F} (hlen : data.length = shapeSize t.shape) :
    Models backend (store.setTensor id { t with data := data })
      (plain.put id { t.plain backend with value := data }) := by
  have hres := h.resident id t hget
  have hcontent : ({ t with data := data } : Tensor F H).content backend = data :=
    content_of_not_device (by simp [hdirty])
  have hres' : ({ t with data := data } : Tensor F H).Resident backend :=
    ⟨hres.size, hcontent.symm ▸ hlen, by simp [hdirty], by simp [hdirty]⟩
  have hset := h.setTensor hget hres'
  unfold Tensor.plain at hset
  rw [hcontent] at hset
  exact hset

theorem replaceDeviceHandle_models (h : Models backend store plain) {u : Plain F}
    (hu : plain.get id = some u) {handle : H}
    (hlen : (backend.readback handle).length = shapeSize u.shape) :
    ∃ store', store.replaceDeviceHandle id handle = .ok store' ∧
      Models backend store' (plain.put id { u with value := backend.readback handle }) := by
  have hget := h.get_eq id
  rw [hu] at hget
  obtain ⟨t, ht, rfl⟩ := Option.map_eq_some_iff.mp hget.symm
  unfold TensorStore.replaceDeviceHandle
  rw [tensor_of_get ht]
  refine ⟨_, rfl, ?_⟩
  have hres := h.resident id t ht
  exact h.setTensor ht ⟨hres.size, hlen, fun _ => ⟨rfl, handle, rfl⟩, by simp⟩

theorem setGrad_models (h : Models backend store plain) (id : TensorId)
    (grad : Option TensorId) :
    Matches (Models backend) (store.setGrad id grad) (plain.setGrad id grad) := by
  unfold TensorStore.setGrad PlainStore.setGrad
  refine (h.tensor id).bind ?_
  rintro t _ ⟨rfl, hres, hget⟩
  exact h.setTensor hget (hres.relabel t.requiresGrad grad)

/-- The copy of a tensor. -/
theorem cloneTensor_models (h : Models backend store plain) (id : TensorId) :
    Matches (fun r s => r.1 = s.1 ∧ Models backend r.2 s.2)
      (store.cloneTensor backend id) (plain.cloneTensor id) := by
  unfold TensorStore.cloneTensor PlainStore.cloneTensor
  have htensor := h.tensor id
  refine htensor.bind ?_
  rintro t _ ⟨rfl, hres, hget⟩
  split
  · rename_i hdirty
    obtain ⟨hdata, handle, hhandle⟩ := hres.device hdirty
    have hself : ({ t with data := [] } : Tensor F H) = t := by
      rw [← hdata]
    rw [hself]
    exact h.alloc hres
  · have hhost := tensorHost_models h id
    unfold PlainStore.tensor at hhost
    rw [h.get_eq, hget] at hhost
    obtain ⟨⟨t', store'⟩, hcall, h', hsame, hres', _⟩ := hhost.returns rfl
    rw [hcall, ← hsame]
    exact h'.alloc hres'

theorem fillLike_models (h : Models backend store plain) (id : TensorId) (value : F) :
    Matches (fun r s => r.1 = s.1 ∧ Models backend r.2 s.2)
      (store.fillLike id value) (plain.fillLike id value) := by
  unfold TensorStore.fillLike PlainStore.fillLike
  refine (h.tensor id).bind ?_
  rintro t _ ⟨rfl, hres, hget⟩
  have hlen : (List.replicate t.size value).length = shapeSize t.shape := by
    rw [List.length_replicate, hres.size]
  unfold Tensor.new
  rw [if_neg (not_not.mpr hlen)]
  have hnew : (⟨List.replicate t.size value, t.shape, shapeSize t.shape, false, none, none,
      .host⟩ : Tensor F H).Resident backend := Tensor.Resident.of_host hlen
  have halloc := h.alloc hnew
  rw [hres.size] at halloc ⊢
  exact halloc

/-! ## Adding gradients -/

/-- The gradient of a tensor has its shape. -/
def GradFits (plain : PlainStore F) (id : TensorId) : Prop :=
  ∀ u grad g, plain.get id = some u → u.grad = some grad → plain.get grad = some g →
    g.shape = u.shape

variable [Add F]

theorem length_addAssign (xs ys : List F) : (addAssign xs ys).length = xs.length := by
  induction xs generalizing ys with
  | nil => simp [addAssign]
  | cons x xs ih =>
    cases ys with
    | nil => rfl
    | cons y ys => simp [addAssign, ih]

theorem addInto_models (hexact : backend.Exact) (h : Models backend store plain)
    {shape : List Nat} {existing incoming : TensorId}
    (hexisting : ∀ u, plain.get existing = some u → u.shape = shape)
    (hincoming : ∀ u, plain.get incoming = some u → u.shape = shape) :
    Matches (Models backend) (store.addInto backend shape existing incoming)
      (plain.addInto existing incoming) := by
  unfold TensorStore.addInto PlainStore.addInto
  refine (h.tensor existing).bind ?_
  rintro e _ ⟨rfl, hres, hget⟩
  refine (h.tensor incoming).bind ?_
  rintro i _ ⟨rfl, hires, higet⟩
  have hplain : plain.get existing = some (e.plain backend) := by
    rw [h.get_eq, hget]
    rfl
  have hiplain : plain.get incoming = some (i.plain backend) := by
    rw [h.get_eq, higet]
    rfl
  have hshape : e.shape = shape := hexisting _ hplain
  have hishape : i.shape = shape := hincoming _ hiplain
  split
  · rename_i eh ih hon hion
    obtain ⟨_, _, hread⟩ := hres.onDevice hon
    obtain ⟨_, _, hiread⟩ := hires.onDevice hion
    have hlen : (backend.readback eh).length = shapeSize shape := by
      rw [hread, hres.length, hshape]
    have hilen : (backend.readback ih).length = shapeSize shape := by
      rw [hiread, hires.length, hishape]
    obtain ⟨sum, hsum, hsumread⟩ := hexact.addIntoDevice eh ih shape hlen hilen
    rw [hsum]
    rw [hread, hiread] at hsumread
    have hsumlen : (backend.readback sum).length = shapeSize (e.plain backend).shape := by
      rw [hsumread, length_addAssign]
      exact hres.length
    obtain ⟨store', hcall, h'⟩ := replaceDeviceHandle_models h hplain hsumlen
    change Matches _ (store.replaceDeviceHandle existing sum) _
    rw [hcall]
    rw [hsumread] at h'
    exact h'
  · have hhost := toHost_models h incoming
    unfold PlainStore.tensor at hhost
    rw [hiplain] at hhost
    obtain ⟨⟨incomingData, store₁⟩, hcall, h₁, hdata⟩ := hhost.returns rfl
    obtain ⟨t, store₂, hmut, h₂, ht, hdirty, hsame⟩ := getMut_models h₁ hplain
    rw [hcall]
    change Matches _ ((store₁.getMut backend existing) >>= _) _
    rw [hmut]
    have hvalue : t.data = e.content backend := by
      have hcontent : t.content backend = t.data :=
        content_of_not_device (by simp [hdirty])
      rw [← hcontent]
      exact congrArg Plain.value hsame
    have hdata' : incomingData = i.content backend := hdata
    have hlen : (addAssign t.data incomingData).length = shapeSize t.shape := by
      rw [length_addAssign, (h₂.resident _ _ ht).data_length (by simp [hdirty])]
    have hset := writeHost_models h₂ ht hdirty hlen
    rw [hsame, hvalue, hdata'] at hset
    change Models backend (store₂.setTensor existing
      { t with data := addAssign t.data incomingData }) _
    rw [hvalue, hdata']
    exact hset

theorem accumulateGrad_models (hexact : backend.Exact) (h : Models backend store plain)
    {paramId : TensorId} (hfit : GradFits plain paramId) (gradId : TensorId) :
    Matches (Models backend) (store.accumulateGrad backend paramId gradId)
      (plain.accumulateGrad paramId gradId) := by
  unfold TensorStore.accumulateGrad PlainStore.accumulateGrad
  refine (h.tensor paramId).bind ?_
  rintro param _ ⟨rfl, hres, hget⟩
  change Matches _ (if param.requiresGrad = false then _ else _)
    (if param.requiresGrad = false then _ else _)
  split
  · exact h
  · refine (h.tensor gradId).bind ?_
    rintro grad _ ⟨rfl, hgres, hgget⟩
    have hpget : plain.get paramId = some (param.plain backend) := by
      rw [h.get_eq, hget]
      rfl
    have hgplain : plain.get gradId = some (grad.plain backend) := by
      rw [h.get_eq, hgget]
      rfl
    change Matches _ (if param.shape ≠ grad.shape then _ else _)
      (if param.shape ≠ grad.shape then _ else _)
    split
    · exact Matches.error _ _
    · rename_i hshape
      rw [not_not] at hshape
      cases hgrad : param.grad with
      | some existingId =>
        change Matches _ _ (match param.grad with | some existingId => _ | none => _)
        rw [hgrad]
        refine addInto_models hexact h ?_ ?_
        · exact fun u hu => hfit _ existingId u hpget hgrad hu
        · intro u hu
          rw [hgplain] at hu
          cases hu
          exact hshape.symm
      | none =>
        change Matches _ _ (match param.grad with | some existingId => _ | none => _)
        rw [hgrad]
        refine (cloneTensor_models h gradId).bind ?_
        rintro ⟨clonedGradId, store'⟩ ⟨_, plain'⟩ ⟨rfl, h'⟩
        exact setGrad_models h' paramId _

end Store

end Arle.Autograd
