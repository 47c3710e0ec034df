import Arle.Autograd.Tensor

/-!
# AdamW

`AdamW` of `crates/autograd/src/optim.rs` over exact arithmetic: the numbers are those of an
ordered field `F`, and `sqrt` is any function. The host path reads the gradients back and
updates the parameters in place; the device path hands everything to the backend and installs
the handles it returns. `expect` and `assert` panic. The optimizer uses the backend of the
store. The batched evaluation at the end of a device step is left out.
-/

namespace Arle.Autograd

/-- The numbers one optimizer step works with. -/
structure AdamWArgs (F : Type) where
  lr : F
  beta1 : F
  beta2 : F
  eps : F
  wd : F
  bc1 : F
  bc2 : F

/-- The calls of the backend that the optimizer makes. -/
structure AdamWBackend (F H : Type) extends Backend F H where
  zeros : List Nat → H
  /-- The parameter, the moments, the gradient and the shape. -/
  adamwStep : H → H → H → List F → List Nat → AdamWArgs F → Result (H × H × H)
  adamwStepDevice : H → H → H → H → List Nat → AdamWArgs F → Result (H × H × H)

inductive MomentStorage (F H : Type)
  | host (data : List F)
  | device (handle : H)

structure ParamMoments (F H : Type) where
  m : MomentStorage F H
  v : MomentStorage F H
  shape : List Nat

structure AdamW (F H : Type) where
  lr : F
  beta1 : F
  beta2 : F
  eps : F
  wd : F
  stepCount : Nat
  state : TensorId → Option (ParamMoments F H)
  /-- Made by `new_with_device`. -/
  deviceBacked : Bool

section Update

variable {F : Type} [Field F] [LinearOrder F] (sqrt : F → F) (args : AdamWArgs F)

/-- The decay of the weights. -/
def decayed (param : List F) : List F :=
  if args.wd > 0 then param.map fun value => value * (1 - args.lr * args.wd) else param

/-- The update of one number, its gradient and its moments: the body of the loop of
`step_host`. -/
def updateOne (value g m v : F) : F × F × F :=
  let mNext := args.beta1 * m + (1 - args.beta1) * g
  let vNext := args.beta2 * v + (1 - args.beta2) * g * g
  let denom := sqrt (vNext * (1 / args.bc2)) + args.eps
  (value - args.lr / args.bc1 * mNext / denom, mNext, vNext)

/-- The loop of `step_host`: it stops at the end of the shortest list. -/
def updateLoop : List F → List F → List F → List F → List F × List F × List F
  | value :: param, g :: grad, m :: ms, v :: vs =>
    let (value', m', v') := updateOne sqrt args value g m v
    let (param', ms', vs') := updateLoop param grad ms vs
    (value' :: param', m' :: ms', v' :: vs')
  | param, _, ms, vs => (param, ms, vs)

/-- The documented update of a parameter. -/
def adamwUpdate (param grad m v : List F) : List F × List F × List F :=
  updateLoop sqrt args (decayed args param) grad m v

end Update

namespace AdamW

variable {F H : Type} [Field F] [LinearOrder F] (sqrt : F → F) (backend : AdamWBackend F H)

/-- The numbers of a step with the step count `stepCount`. -/
def args (opt : AdamW F H) : AdamWArgs F where
  lr := opt.lr
  beta1 := opt.beta1
  beta2 := opt.beta2
  eps := opt.eps
  wd := opt.wd
  bc1 := 1 - opt.beta1 ^ opt.stepCount
  bc2 := 1 - opt.beta2 ^ opt.stepCount

/-- `new`. -/
def new (lr beta1 beta2 eps wd : F) : AdamW F H :=
  ⟨lr, beta1, beta2, eps, wd, 0, fun _ => none, false⟩

/-- `new_with_device`. -/
def newWithDevice (lr beta1 beta2 eps wd : F) : AdamW F H :=
  ⟨lr, beta1, beta2, eps, wd, 0, fun _ => none, true⟩

/-- Write the moments of a parameter. -/
def setMoments (opt : AdamW F H) (id : TensorId) (moments : ParamMoments F H) : AdamW F H :=
  { opt with state := Function.update opt.state id (some moments) }

/-- One round of the loop of `step_host`. -/
def stepHostParam (opt : AdamW F H) (paramId : TensorId) (store : TensorStore F H) :
    Result (AdamW F H × TensorStore F H) :=
  match store.get paramId with
  | none => .error .panicked
  | some param =>
    match param.grad with
    | none => .ok (opt, store)
    | some gradId =>
      let paramLen := max param.data.length param.size
      match store.toHost backend.toBackend gradId with
      | .error _ => .error .panicked
      | .ok (grad, store) =>
        let moments := (opt.state paramId).getD
          ⟨.host (List.replicate paramLen 0), .host (List.replicate paramLen 0), param.shape⟩
        match moments.m, moments.v with
        | .host m, .host v =>
          match store.getMut backend.toBackend paramId with
          | .ok (some param, store) =>
            if grad.length ≠ param.data.length then .error .panicked
            else
              let (data, m, v) := adamwUpdate sqrt opt.args param.data grad m v
              .ok (opt.setMoments paramId ⟨.host m, .host v, moments.shape⟩,
                store.setTensor paramId { param with data := data })
          | _ => .error .panicked
        | _, _ => .error .panicked

/-- Moments that a host path left behind are moved to the device. -/
def migrate (shape : List Nat) : MomentStorage F H → H
  | .host data => backend.upload data shape
  | .device handle => handle

/-- The call of the kernel: on the device when the gradient is there. -/
def runKernel (args : AdamWArgs F) (paramHandle mHandle vHandle : H)
    (gradDeviceHandle : Option H) (gradId : TensorId) (shape : List Nat)
    (store : TensorStore F H) : Result ((H × H × H) × TensorStore F H) :=
  match gradDeviceHandle with
  | some gradHandle => do
    let handles ← backend.adamwStepDevice paramHandle mHandle vHandle gradHandle shape args
    return (handles, store)
  | none => do
    let (grad, store) ← store.toHost backend.toBackend gradId
    let handles ← backend.adamwStep paramHandle mHandle vHandle grad shape args
    return (handles, store)

/-- One round of the loop of `step_device`. -/
def stepDeviceParam (opt : AdamW F H) (paramId : TensorId) (store : TensorStore F H) :
    Result (AdamW F H × TensorStore F H) :=
  match store.get paramId with
  | none => .error .panicked
  | some param =>
    match param.grad with
    | none => .ok (opt, store)
    | some gradId =>
      match store.get gradId with
      | none => .error .panicked
      | some gradTensor =>
        let gradDeviceHandle := gradTensor.onDevice
        match store.ensureDevice backend.toBackend paramId with
        | .error _ => .error .panicked
        | .ok store =>
          match (store.get paramId).bind Tensor.deviceHandle with
          | none => .error .panicked
          | some paramHandle =>
            let entry := (opt.state paramId).getD
              ⟨.device (backend.zeros param.shape), .device (backend.zeros param.shape),
                param.shape⟩
            let mHandle := migrate backend entry.shape entry.m
            let vHandle := migrate backend entry.shape entry.v
            match runKernel backend opt.args paramHandle mHandle vHandle gradDeviceHandle gradId
              entry.shape store with
            | .error _ => .error .panicked
            | .ok ((newParam, newM, newV), store) =>
              match store.replaceDeviceHandle paramId newParam with
              | .error _ => .error .panicked
              | .ok store =>
                .ok (opt.setMoments paramId ⟨.device newM, .device newV, entry.shape⟩, store)

/-- A round on the path of the optimizer. -/
def stepParam (opt : AdamW F H) (paramId : TensorId) (store : TensorStore F H) :
    Result (AdamW F H × TensorStore F H) :=
  if opt.deviceBacked then stepDeviceParam backend opt paramId store
  else stepHostParam sqrt backend opt paramId store

/-- The loop over the parameters. -/
def stepLoop (opt : AdamW F H) :
    List TensorId → TensorStore F H → Result (AdamW F H × TensorStore F H)
  | [], store => .ok (opt, store)
  | paramId :: params, store => do
    let (opt, store) ← stepParam sqrt backend opt paramId store
    stepLoop opt params store

/-- `step`. -/
def step (opt : AdamW F H) (params : List TensorId) (store : TensorStore F H) :
    Result (AdamW F H × TensorStore F H) :=
  stepLoop sqrt backend { opt with stepCount := opt.stepCount + 1 } params store

/-- One round of the device loop of `zero_grad`: the gradient is dropped. -/
def dropGrad (store : TensorStore F H) (paramId : TensorId) : Result (TensorStore F H) :=
  match (store.get paramId).bind Tensor.grad with
  | none => .ok store
  | some gradId =>
    match store.setGrad paramId none with
    | .error _ => .error .panicked
    | .ok store =>
      match store.free gradId with
      | .error _ => .error .panicked
      | .ok store => .ok store

/-- One round of the host loop of `zero_grad`: the gradient is filled with zeros. -/
def fillGrad (store : TensorStore F H) (paramId : TensorId) : Result (TensorStore F H) :=
  match (store.get paramId).bind Tensor.grad with
  | none => .ok store
  | some gradId => do
    match ← store.getMut backend.toBackend gradId with
    | (none, store) => return store
    | (some grad, store) =>
      return store.setTensor gradId { grad with data := List.replicate grad.data.length 0 }

/-- A round on the path of the optimizer. -/
def zeroParam (opt : AdamW F H) (store : TensorStore F H) (paramId : TensorId) :
    Result (TensorStore F H) :=
  if opt.deviceBacked then dropGrad store paramId else fillGrad backend store paramId

/-- `zero_grad`. -/
def zeroGrad (opt : AdamW F H) : List TensorId → TensorStore F H → Result (TensorStore F H)
  | [], store => .ok store
  | paramId :: params, store => do
    let store ← zeroParam backend opt store paramId
    zeroGrad opt params store

/-- The data of a moment. -/
def readMoment : MomentStorage F H → List F
  | .host data => data
  | .device handle => backend.readback handle

/-- `moments_host`. -/
def momentsHost (opt : AdamW F H) (id : TensorId) : Option (List F × List F) :=
  (opt.state id).map fun moments => (readMoment backend moments.m, readMoment backend moments.v)

end AdamW

end Arle.Autograd
