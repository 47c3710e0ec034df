import Mathlib
import Arle.Train.Checkpoint
import Arle.Train.LoraModel

/-!
# Adapters for the rollout engine

`sync_lora_from_store` of `crates/train/src/infer_student.rs`: the adapter tensors are found by
their names, and an update for the engine is made of them. The adapter map is the list of its
entries in the order in which the hash map is walked. What is left out is the lock of the engine;
the result is the update that it is sent.
-/

namespace Arle.Train.Lora

open Arle.Autograd

/-! ## Names -/

inductive AdapterModule
  | q
  | v
deriving DecidableEq

inductive Which
  | a
  | b
deriving DecidableEq

/-- The tensor of an adapter that the end of a name stands for. -/
def whichOf (name : String) : Option Which :=
  if endsWith name ".lora_a" then some .a else if endsWith name ".lora_b" then some .b else none

def moduleOf (part : List Char) : Option AdapterModule :=
  if part = "q_proj".toList then some .q else if part = "v_proj".toList then some .v else none

/-- `parse_adapter_name`. -/
def parseAdapterName (name : String) : Option (Nat × AdapterModule × Which) := do
  let which ← whichOf name
  let parts := name.toList.splitOn '.'
  let layersPos ← parts.findIdx? (· = "layers".toList)
  let layerPart ← parts[layersPos + 1]?
  let layerIdx ← parseUnsigned 64 (String.ofList layerPart)
  let attnPart ← parts[layersPos + 2]?
  guard (attnPart = "self_attn".toList)
  let modulePart ← parts[layersPos + 3]?
  let module ← moduleOf modulePart
  return (layerIdx, module, which)

/-! ## Partial layers -/

/-- A matrix on the host: its values, rows and columns. -/
abbrev HostMatrix (F : Type) := List F × Nat × Nat

/-- The matrices of one projection, as far as they are found. -/
structure PartialProj (F : Type) where
  a : Option (HostMatrix F)
  b : Option (HostMatrix F)

structure PartialLayer (F : Type) where
  q : PartialProj F
  v : PartialProj F

structure StudentLoraMatrices (F : Type) where
  a : List F
  b : List F
  rank : Nat
  inFeatures : Nat
  outFeatures : Nat

structure StudentLoraLayer (F : Type) where
  layerIdx : Nat
  qProj : Option (StudentLoraMatrices F)
  vProj : Option (StudentLoraMatrices F)

structure StudentLoraUpdate (F : Type) where
  layers : List (StudentLoraLayer F)
  rank : Nat
  alpha : F

section Sync

variable {F : Type}

def PartialProj.empty : PartialProj F := ⟨none, none⟩

def PartialLayer.empty : PartialLayer F := ⟨.empty, .empty⟩

def PartialProj.set (slot : PartialProj F) (matrix : HostMatrix F) : Which → PartialProj F
  | .a => { slot with a := some matrix }
  | .b => { slot with b := some matrix }

def PartialLayer.set (entry : PartialLayer F) (module : AdapterModule) (which : Which)
    (matrix : HostMatrix F) : PartialLayer F :=
  match module with
  | .q => { entry with q := entry.q.set matrix which }
  | .v => { entry with v := entry.v.set matrix which }

def PartialProj.intoMatrices (proj : PartialProj F) (rank layerIdx : Nat) (label : String) :
    Except String (Option (StudentLoraMatrices F)) :=
  match proj.a, proj.b with
  | none, none => .ok none
  | some (a, aRows, aCols), some (b, bRows, bCols) =>
    if aRows ≠ rank then
      .error s!"LoRA sync: layer {layerIdx} {label} lora_A rows {aRows} != rank {rank}"
    else if bCols ≠ rank then
      .error s!"LoRA sync: layer {layerIdx} {label} lora_B cols {bCols} != rank {rank}"
    else .ok (some { a := a, b := b, rank := rank, inFeatures := aCols, outFeatures := bRows })
  | some _, none => .error s!"LoRA sync: layer {layerIdx} {label} has lora_A without lora_B"
  | none, some _ => .error s!"LoRA sync: layer {layerIdx} {label} has lora_B without lora_A"

/-! ## The update -/

/-- The part of a round of the first loop that looks at the tensor. -/
def hostMatrix (store : ParamStore F) (name : String) (id : TensorId) :
    Except String (HostMatrix F) :=
  match store.get id with
  | none => .error s!"LoRA sync: tensor id {id} ({name}) missing from store"
  | some tensor =>
    match tensor.shape with
    | [rows, cols] => .ok (tensor.data, rows, cols)
    | shape => .error s!"LoRA sync: {name} expected rank-2 matrix, got shape {shape}"

/-- A round of the first loop. -/
def collectAdapter (store : ParamStore F) (layers : Assoc Nat (PartialLayer F))
    (named : String × TensorId) : Except String (Assoc Nat (PartialLayer F)) :=
  match parseAdapterName named.1 with
  | none => .ok layers
  | some (layerIdx, module, which) => do
    let matrix ← hostMatrix store named.1 named.2
    let entry := (layers.lookup layerIdx).getD .empty
    return layers.insert layerIdx (entry.set module which matrix)

/-- A round of the second loop. -/
def outLayer (layers : Assoc Nat (PartialLayer F)) (rank layerIdx : Nat) :
    Except String (StudentLoraLayer F) :=
  match layers.lookup layerIdx with
  | none => .error "layer present"
  | some entry => do
    let qProj ← entry.q.intoMatrices rank layerIdx "q_proj"
    let vProj ← entry.v.intoMatrices rank layerIdx "v_proj"
    return { layerIdx := layerIdx, qProj := qProj, vProj := vProj }

/-- What `sync_lora_from_store` sends, or its error. -/
def syncLoraFromStore (store : ParamStore F) (adapterMap : List (String × TensorId))
    (loraConfig : LoraConfig F) : Except String (StudentLoraUpdate F) :=
  if loraConfig.rank = 0 then .error "InferStudent LoRA sync: lora_config.rank must be > 0"
  else do
    let layers ← adapterMap.foldlM (collectAdapter store) ∅
    if layers.keys = [] then
      throw (s!"LoRA sync: no q/v adapters found in adapter_map ({adapterMap.length} entries); " ++
        "train target set must be AttentionQv")
    else
      let layerIndices := layers.keys.mergeSort (· ≤ ·)
      let outLayers ← layerIndices.mapM (outLayer layers loraConfig.rank)
      return { layers := outLayers, rank := loraConfig.rank, alpha := loraConfig.alpha }

end Sync

end Arle.Train.Lora
