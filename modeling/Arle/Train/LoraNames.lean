import Mathlib
import Arle.Train.CheckpointLoad
import Arle.Train.LoraSync

/-!
# The names of adapters

A name of an adapter is split at its dots into the prefix, the layer, the block and the
projection. So the name determines the projection, and the parser finds the layer and the module
of those names that belong to a query or value projection.
-/

namespace Arle.Train.Lora

/-! ## The parts of a name -/

def Proj.block : Proj → String
  | gateProj | upProj | downProj => "mlp"
  | qProj | kProj | vProj | oProj => "self_attn"
  | inProjQkv | inProjZ | inProjB | inProjA | outProj => "linear_attn"

def Proj.leaf : Proj → String
  | gateProj => "gate_proj"
  | upProj => "up_proj"
  | downProj => "down_proj"
  | qProj => "q_proj"
  | kProj => "k_proj"
  | vProj => "v_proj"
  | oProj => "o_proj"
  | inProjQkv => "in_proj_qkv"
  | inProjZ => "in_proj_z"
  | inProjB => "in_proj_b"
  | inProjA => "in_proj_a"
  | outProj => "out_proj"

def Which.leaf : Which → String
  | .a => "lora_a"
  | .b => "lora_b"

def Which.ending : Which → String
  | .a => ".lora_a"
  | .b => ".lora_b"

/-- The names of the adapter tensors of a projection. -/
def adapterName (layerIdx : Nat) (proj : Proj) (which : Which) : String :=
  proj.tensorName layerIdx ++ which.ending

/-- The parts of a name between the dots. -/
def nameParts (layerIdx : Nat) (proj : Proj) (which : Which) : List (List Char) :=
  ["model".toList, "language_model".toList, "layers".toList, (toString layerIdx).toList,
    proj.block.toList, proj.leaf.toList, "weight".toList, which.leaf.toList]

theorem toList_adapterName (layerIdx : Nat) (proj : Proj) (which : Which) :
    (adapterName layerIdx proj which).toList =
      ['.'].intercalate (nameParts layerIdx proj which) := by
  cases proj <;> cases which <;>
    simp [adapterName, nameParts, Proj.tensorName, mlpPrefix, selfAttnPrefix, linearAttnPrefix,
      layerPrefix, modelPrefix, Proj.block, Proj.leaf, Which.leaf, Which.ending, List.intercalate,
      List.intersperse]

theorem dot_notMem_nameParts (layerIdx : Nat) (proj : Proj) (which : Which) :
    ∀ part ∈ nameParts layerIdx proj which, '.' ∉ part := by
  have hdigits : '.' ∉ (toString layerIdx).toList := by
    rw [Nat.toString_eq_repr, Nat.toList_repr]
    intro hdot
    exact absurd (Nat.isDigit_of_mem_toDigits (by decide) (by decide) hdot) (by decide)
  have hblock : '.' ∉ proj.block.toList := by cases proj <;> decide
  have hleaf : '.' ∉ proj.leaf.toList := by cases proj <;> decide
  have hending : '.' ∉ which.leaf.toList := by cases which <;> decide
  simp only [nameParts, List.forall_mem_cons]
  exact ⟨by decide, by decide, by decide, hdigits, hblock, hleaf, by decide, hending,
    fun _ h => by cases h⟩

theorem splitOn_adapterName (layerIdx : Nat) (proj : Proj) (which : Which) :
    (adapterName layerIdx proj which).toList.splitOn '.' = nameParts layerIdx proj which := by
  rw [toList_adapterName]
  exact List.splitOn_intercalate _ (dot_notMem_nameParts layerIdx proj which) (List.cons_ne_nil _ _)


theorem whichOf_adapterName (layerIdx : Nat) (proj : Proj) (which : Which) :
    whichOf (adapterName layerIdx proj which) = some which := by
  have hends : ∀ ending : String, endsWith (adapterName layerIdx proj which) ending = true ↔
      ending.toList <:+ (adapterName layerIdx proj which).toList :=
    fun ending => List.isSuffixOf_iff_suffix
  have hsuffix : which.ending.toList <:+ (adapterName layerIdx proj which).toList := by
    rw [adapterName, String.toList_append]
    exact List.suffix_append _ _
  unfold whichOf
  cases which with
  | a => exact if_pos ((hends _).mpr hsuffix)
  | b =>
    rw [if_neg]
    · exact if_pos ((hends _).mpr hsuffix)
    · intro ha
      rcases List.suffix_or_suffix_of_suffix ((hends _).mp ha) hsuffix with h | h
      · exact absurd h (by decide)
      · exact absurd h (by decide)

/-- The module of a projection that is recognized. -/
def moduleOfProj : Proj → Option AdapterModule
  | .qProj => some .q
  | .vProj => some .v
  | _ => none

/-- A name is parsed back if it is that of an adapter on a query or value projection. -/
theorem parseAdapterName_eq {layerIdx : Nat} (hlt : layerIdx < 2 ^ 64) (proj : Proj)
    (which : Which) : parseAdapterName (adapterName layerIdx proj which) =
      (moduleOfProj proj).map fun module => (layerIdx, module, which) := by
  unfold parseAdapterName
  rw [whichOf_adapterName, splitOn_adapterName]
  have hlayers : (nameParts layerIdx proj which).findIdx? (· = "layers".toList) = some 2 := by
    simp [nameParts, List.findIdx?_cons]
  have hparse : parseUnsigned 64 (String.ofList (toString layerIdx).toList) = some layerIdx := by
    rw [String.ofList_toList]
    exact parseUnsigned_toString hlt
  dsimp only
  rw [hlayers]
  simp only [nameParts, Option.bind_eq_bind, Option.bind_some, List.getElem?_cons_succ,
    List.getElem?_cons_zero]
  rw [hparse]
  cases proj <;> rfl

theorem adapterName_inj {layerIdx layerIdx' : Nat} {proj proj' : Proj} {which which' : Which}
    (h : adapterName layerIdx proj which = adapterName layerIdx' proj' which') :
    layerIdx = layerIdx' ∧ proj = proj' ∧ which = which' := by
  have hparts := congrArg (·.toList.splitOn '.') h
  simp only [splitOn_adapterName, nameParts, List.cons.injEq, String.toList_inj, true_and,
    and_true] at hparts
  obtain ⟨hidx, -, hleaf, hending⟩ := hparts
  refine ⟨Nat.repr_injective hidx, ?_, ?_⟩
  · cases proj <;> cases proj' <;> first | rfl | exact absurd hleaf (by decide)
  · cases which <;> cases which' <;> first | rfl | exact absurd hending (by decide)

/-- The smaller target set has the projections that are recognized. -/
theorem includes_attentionQv (layerIdx : Nat) (proj : Proj) :
    LoraTargetSet.attentionQv.includes (proj.tensorName layerIdx) = (moduleOfProj proj).isSome := by
  have hends : ∀ ending : String, endsWith (proj.tensorName layerIdx) ending = true ↔
      ending.toList <:+ (proj.tensorName layerIdx).toList :=
    fun ending => List.isSuffixOf_iff_suffix
  have hsuffix : ("." ++ proj.block ++ "." ++ proj.leaf ++ ".weight").toList <:+
      (proj.tensorName layerIdx).toList := by
    refine ⟨(layerPrefix layerIdx).toList, ?_⟩
    cases proj <;> simp [Proj.tensorName, Proj.block, Proj.leaf, mlpPrefix, selfAttnPrefix,
      linearAttnPrefix]
  have hnot : ∀ ending : String,
      ¬ ending.toList <:+ ("." ++ proj.block ++ "." ++ proj.leaf ++ ".weight").toList →
      ¬ ("." ++ proj.block ++ "." ++ proj.leaf ++ ".weight").toList <:+ ending.toList →
      endsWith (proj.tensorName layerIdx) ending = false := by
    intro ending h h'
    rw [Bool.eq_false_iff]
    intro hending
    exact (List.suffix_or_suffix_of_suffix ((hends _).mp hending) hsuffix).elim h h'
  unfold LoraTargetSet.includes
  dsimp only
  cases proj with
  | qProj => rw [(hends ".self_attn.q_proj.weight").mpr hsuffix]; rfl
  | vProj => rw [(hends ".self_attn.v_proj.weight").mpr hsuffix, Bool.or_true]; rfl
  | _ => rw [hnot _ (by decide) (by decide), hnot _ (by decide) (by decide)]; rfl

end Arle.Train.Lora
