import Arle.Lib.Assoc
import Arle.Lib.LittleEndian

/-!
# Trainer checkpoints

`save_trainer_state_v2` and `load_trainer_state_v2` of `crates/train/src/checkpoint.rs`, with the
JSON and the safetensors encodings as parameters. An `f32` is its bits. A directory has the two
files of a checkpoint, and a file operation is done or not.
-/

namespace Arle.Train

abbrev F32 := UInt32

/-- `AdamWParamState`. -/
structure AdamWParamState where
  name : String
  m : List F32
  v : List F32
  shape : List Nat
deriving DecidableEq, Repr

/-- `AdamWState`. -/
structure AdamWState where
  step : UInt64
  params : List AdamWParamState
  skippedExport : UInt64
deriving DecidableEq, Repr

/-- `TrainerStateDoc`; `schedule_params` is a JSON value. -/
structure TrainerStateDoc (Value : Type) where
  step : UInt64
  optimSchema : String
  scheduleName : String
  scheduleParams : Value
  gradAccumCurrent : UInt64
  rngSeed : UInt64
  codecVersion : UInt32
deriving DecidableEq, Repr

/-- `TRAINER_STATE_CODEC_VERSION`. -/
def trainerStateCodecVersion : UInt32 := 2

inductive CheckpointError
  | io
  | json
  | versionMismatch (version : UInt32)
  | momentLength (name : String) (shape : List Nat) (expected m v : Nat)
  | safetensors
  | noSuffix (key : String)
  | unsupportedDtype
  | missingMomentPair (name : String)
  | shapes (name : String) (m v : List Nat)
deriving DecidableEq, Repr

inductive Dtype
  | f32
  | other
deriving DecidableEq, Repr

/-- A tensor of a safetensors file. -/
structure TensorView where
  dtype : Dtype
  shape : List Nat
  data : List UInt8
deriving DecidableEq, Repr

abbrev Metadata := Assoc String String

/-- The encodings of `serde_json` and `safetensors`; a decoding can fail. -/
structure Codec (Value : Type) where
  toStringPretty : TrainerStateDoc Value → String
  fromSlice : String → Option (TrainerStateDoc Value)
  serialize : List (String × TensorView) → Metadata → List UInt8
  readMetadata : List UInt8 → Option (Option Metadata)
  deserialize : List UInt8 → Option (List (String × TensorView))

/-- The files `trainer_state.json` and `optimizer.safetensors`. -/
structure Dir where
  trainerState : Option String
  optimizer : Option (List UInt8)

def Dir.empty : Dir := ⟨none, none⟩

/-! ## Saving -/

/-- `to_le_bytes`. -/
def toLeBytes (x : F32) : List UInt8 := LittleEndian.toBytes 4 x.toNat

/-- `OptimTensorView::from_f32`. -/
def fromF32 (shape : List Nat) (values : List F32) : TensorView :=
  ⟨.f32, shape, values.flatMap toLeBytes⟩

/-- The number of elements of a shape, a product in `usize`. -/
def expectedLen (shape : List Nat) : Nat := if shape = [] then 1 else shape.prod % 2 ^ 64

/-- The loop over the params. -/
def optimTensors : List AdamWParamState → Except CheckpointError (List (String × TensorView))
  | [] => .ok []
  | param :: params =>
    if param.m.length ≠ expectedLen param.shape ∨ param.v.length ≠ expectedLen param.shape then
      .error (.momentLength param.name param.shape (expectedLen param.shape) param.m.length
        param.v.length)
    else
      match optimTensors params with
      | .error e => .error e
      | .ok tensors =>
        .ok ((param.name ++ ".m", fromF32 param.shape param.m) ::
          (param.name ++ ".v", fromF32 param.shape param.v) :: tensors)

/-- The header metadata. -/
def optimMetadata (optim : AdamWState) : Metadata :=
  AList.insert "skipped_export" (toString optim.skippedExport.toNat)
    (AList.insert "step" (toString optim.step.toNat) ∅)

/-- The file operations of a save. -/
inductive FileOp
  | createDirAll
  | writeTrainerState
  | serializeToFile
deriving DecidableEq, Repr

section Codec

variable {Value : Type} (codec : Codec Value)

/-- `save_trainer_state_v2`, which fails or dies before the file operation `stop`. -/
def saveTrainerStateV2 (stop : Option FileOp) (dir : Dir) (state : TrainerStateDoc Value)
    (optim : AdamWState) : Except CheckpointError Unit × Dir :=
  if stop = some .createDirAll then (.error .io, dir)
  else if stop = some .writeTrainerState then (.error .io, dir)
  else
    let dir := { dir with trainerState := some (codec.toStringPretty state) }
    match optimTensors optim.params with
    | .error e => (.error e, dir)
    | .ok tensors =>
      if stop = some .serializeToFile then (.error .safetensors, dir)
      else
        (.ok (), { dir with optimizer := some (codec.serialize tensors (optimMetadata optim)) })

end Codec

/-! ## Loading -/

inductive Moment
  | m
  | v
deriving DecidableEq, Repr

/-- `MomentPair`. -/
structure MomentPair where
  m : Option (List Nat × List F32)
  v : Option (List Nat × List F32)

/-- `strip_suffix`. -/
def stripSuffix (key suffix : String) : Option String :=
  if suffix.toList <:+ key.toList then
    some (String.ofList (key.toList.take (key.toList.length - suffix.toList.length)))
  else none

/-- `split_moment_key`. -/
def splitMomentKey (key : String) : Option (String × Moment) :=
  match stripSuffix key ".m" with
  | some base => some (base, .m)
  | none => (stripSuffix key ".v").map fun base => (base, .v)

/-- `chunks_exact(4)` and `f32::from_le_bytes`. -/
def fromLeBytes : List UInt8 → List F32
  | b0 :: b1 :: b2 :: b3 :: rest =>
    UInt32.ofNat (LittleEndian.ofBytes [b0, b1, b2, b3]) :: fromLeBytes rest
  | _ => []

/-- `optim_tensor_view_to_f32`. -/
def optimTensorViewToF32 (view : TensorView) : Except CheckpointError (List F32) :=
  match view.dtype with
  | .f32 => .ok (fromLeBytes view.data)
  | .other => .error .unsupportedDtype

def MomentPair.set (pair : MomentPair) (moment : List Nat × List F32) : Moment → MomentPair
  | .m => { pair with m := some moment }
  | .v => { pair with v := some moment }

/-- The loop over the tensors: the base names in the order in which they are seen first, and their
moments. -/
def groupTensors : List (String × TensorView) → List String → Assoc String MomentPair →
    Except CheckpointError (List String × Assoc String MomentPair)
  | [], order, groups => .ok (order, groups)
  | (key, view) :: tensors, order, groups =>
    match splitMomentKey key with
    | none => .error (.noSuffix key)
    | some (base, which) =>
      let order := if (groups.lookup base).isSome then order else order ++ [base]
      let entry := (groups.lookup base).getD ⟨none, none⟩
      match optimTensorViewToF32 view with
      | .error e => .error e
      | .ok data =>
        groupTensors tensors order (groups.insert base (entry.set (view.shape, data) which))

/-- The loop body over the names. -/
def pairParam (groups : Assoc String MomentPair) (name : String) :
    Except CheckpointError AdamWParamState :=
  let pair := (groups.lookup name).getD ⟨none, none⟩
  match pair.m, pair.v with
  | none, _ => .error (.missingMomentPair name)
  | _, none => .error (.missingMomentPair name)
  | some (mShape, mData), some (vShape, vData) =>
    if mShape ≠ vShape then .error (.shapes name mShape vShape)
    else .ok ⟨name, mData, vData, mShape⟩

/-- The digits of a number, after a plus sign. -/
def digitsOf : List Char → List Char
  | '+' :: rest => rest
  | chars => chars

/-- `str::parse` at an unsigned type of `w` bits. -/
def parseUnsigned (w : Nat) (s : String) : Option Nat :=
  let digits := digitsOf s.toList
  if digits = [] ∨ ¬ digits.all Char.isDigit then none
  else if Nat.ofDigitChars 10 digits 0 < 2 ^ w then some (Nat.ofDigitChars 10 digits 0)
  else none

/-- A number of the header metadata. -/
def metadataNumber (metadata : Option Metadata) (key : String) (default : UInt64) : UInt64 :=
  match metadata.bind fun metadata => metadata.lookup key with
  | none => default
  | some text =>
    match parseUnsigned 64 text with
    | none => default
    | some value => UInt64.ofNat value

section Codec

variable {Value : Type} (codec : Codec Value)

/-- The part of `load_trainer_state_v2` that reads the bytes of the optimizer file. -/
def loadOptim (bytes : List UInt8) (stateStep : UInt64) : Except CheckpointError AdamWState :=
  match codec.readMetadata bytes, codec.deserialize bytes with
  | none, _ => .error .safetensors
  | some _, none => .error .safetensors
  | some metadata, some tensors =>
    match groupTensors tensors [] ∅ with
    | .error e => .error e
    | .ok (order, groups) =>
      (order.mapM (pairParam groups)).map fun params =>
        ⟨metadataNumber metadata "step" stateStep, params,
          metadataNumber metadata "skipped_export" 0⟩

/-- `load_trainer_state_v2`. -/
def loadTrainerStateV2 (dir : Dir) : Except CheckpointError (TrainerStateDoc Value × AdamWState) :=
  match dir.trainerState with
  | none => .error .io
  | some json =>
    match codec.fromSlice json with
    | none => .error .json
    | some state =>
      if state.codecVersion ≠ trainerStateCodecVersion then
        .error (.versionMismatch state.codecVersion)
      else
        match dir.optimizer with
        | none => .error .io
        | some bytes => (loadOptim codec bytes state.step).map fun optim => (state, optim)

end Codec

end Arle.Train
