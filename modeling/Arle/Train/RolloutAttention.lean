import Mathlib
import Arle.Train.RolloutRows

/-!
# The attention of a rollout, position by position

The rows that enter an attention are a sequence. The row at a position of its value depends on the
rows up to there only (`attentionRow`), and both forward passes compute it: the one over the whole
sequence, and the one that is given the rows from a position on and finds the keys and values of
the rows before in its cache.
-/

namespace Arle.Train.Rollout

open Arle.Autograd

variable {cfg : Qwen35Config}

theorem ok_bind {ε α β : Type} (a : α) (f : α → Except ε β) : (Except.ok a >>= f) = f a := rfl

/-! ## Configurations -/

/-- What the checks of a configuration say on its heads. -/
structure ValidHeads (cfg : Qwen35Config) : Prop where
  heads : cfg.numAttentionHeads ≠ 0
  kvHeads : cfg.numKeyValueHeads ≠ 0
  headDim : cfg.headDim ≠ 0
  multiple : cfg.numAttentionHeads % cfg.numKeyValueHeads = 0
  even : cfg.headDim % 2 = 0

theorem reject_bind_eq_ok {α : Type} {bad : Prop} [Decidable bad] {message : String}
    {f : Unit → Except Lora.Qwen35Error α} {a : α} :
    (Lora.Qwen35Config.reject bad message >>= f) = .ok a ↔ ¬ bad ∧ f () = .ok a := by
  unfold Lora.Qwen35Config.reject
  by_cases hbad : bad
  · rw [if_pos hbad]
    constructor
    · intro h
      cases h
    · exact fun h => absurd hbad h.1
  · rw [if_neg hbad]
    exact ⟨fun h => ⟨hbad, h⟩, fun h => h.2⟩

theorem validHeads_of_validate (h : cfg.validateTrainContract = .ok ()) : ValidHeads cfg := by
  unfold Lora.Qwen35Config.validateTrainContract Lora.Qwen35Config.validate at h
  simp only [bind_assoc, reject_bind_eq_ok] at h
  obtain ⟨-, -, hheads, hmultiple, -, -, -, heven, -⟩ := h
  simp only [not_or, not_not] at hheads hmultiple heven
  exact ⟨hheads.1, hheads.2.1, hheads.2.2, hmultiple, heven.2⟩

namespace ValidHeads

theorem heads_eq (h : ValidHeads cfg) :
    cfg.numAttentionHeads = cfg.numKeyValueHeads * kvRepeat cfg :=
  (Nat.mul_div_cancel' (Nat.dvd_of_mod_eq_zero h.multiple)).symm

theorem kvRepeat_ne_zero (h : ValidHeads cfg) : kvRepeat cfg ≠ 0 := by
  intro hzero
  have heads := h.heads_eq
  rw [hzero, Nat.mul_zero] at heads
  exact h.heads heads

theorem div_kvRepeat_lt (h : ValidHeads cfg) {i : Nat} (hi : i < cfg.numAttentionHeads) :
    i / kvRepeat cfg < cfg.numKeyValueHeads := by
  rw [h.heads_eq] at hi
  exact Nat.div_lt_of_lt_mul (by rwa [Nat.mul_comm])

end ValidHeads

theorem validateQwenDecodePrepareCommon_eq {F : Type} (hcfg : ValidHeads cfg)
    {cos sin : List (List F)} (hcos : cos.length = 1) (hsin : sin.length = 1) (dim : Nat)
    {heads : Nat} (hheads : heads ≠ 0) :
    validateQwenDecodePrepareCommon [1, 1, dim] cos sin heads cfg.headDim dim = .ok () := by
  have hdim := hcfg.headDim
  have heven := hcfg.even
  unfold validateQwenDecodePrepareCommon
  dsimp only
  rw [if_neg (by simp), if_neg (by omega), if_neg (by omega)]

variable {F : Type} [Field F] (kernels : Kernels F)

/-! ## The rows of an attention -/

/-- The distance of two heads in a row of the query projection. -/
def headStride (cfg : Qwen35Config) : Nat :=
  if cfg.fullAttnGated then cfg.headDim * 2 else cfg.headDim

/-- Rows of cosines and of sines for all positions. -/
structure Angles (F : Type) where
  cos : Nat → List F
  sin : Nat → List F

section Row

variable (attn : Qwen35FullAttention F cfg) (angles : Angles F) (h : Nat → List F)

def queryRow (p i : Nat) : List F :=
  kernels.rotate (angles.cos p) (angles.sin p)
    (attn.qNorm.apply (headRow (attn.qProj.apply (h p)) (i * headStride cfg) cfg.headDim))

def gateRow (p i : Nat) : List F :=
  headRow (attn.qProj.apply (h p)) (i * headStride cfg + cfg.headDim) cfg.headDim

def keyRow (p i : Nat) : List F :=
  kernels.rotate (angles.cos p) (angles.sin p)
    (attn.kNorm.apply (headRow (attn.kProj.apply (h p)) (i * cfg.headDim) cfg.headDim))

def valueRow (p i : Nat) : List F :=
  headRow (attn.vProj.apply (h p)) (i * cfg.headDim) cfg.headDim

variable [LinearOrder F]

/-- The query at a position attends to the keys up to there. -/
def contextRow (p i : Nat) : List F :=
  (List.range cfg.headDim).map fun d =>
    attention kernels.exp (1 / kernels.sqrt (cfg.headDim : F)) cfg.headDim (p + 1) 0
      (fun i j c => (queryRow kernels attn angles h j i).getD c 0)
      (fun i l c => (keyRow kernels attn angles h l (i / kvRepeat cfg)).getD c 0)
      (fun i l c => (valueRow attn h l (i / kvRepeat cfg)).getD c 0) i p d

def gatedRow (p i : Nat) : List F :=
  if cfg.fullAttnGated then
    List.zipWith (· * ·) (contextRow kernels attn angles h p i)
      ((gateRow attn h p i).map kernels.sigmoid)
  else contextRow kernels attn angles h p i

def attentionRow (p : Nat) : List F :=
  attn.oProj.apply ((List.range cfg.numAttentionHeads).flatMap fun i =>
    gatedRow kernels attn angles h p i)

end Row

/-! ## Preparation -/

section Prepare

variable {attn : Qwen35FullAttention F cfg} {angles : Angles F} {h : Nat → List F} {start m : Nat}

/-- The rows of a table for the positions from `start` on. -/
structure TableRows (table : List (List F)) (row : Nat → List F) (start m : Nat) : Prop where
  length : table.length = m
  entry : ∀ j < m, table.getD j [] = row (start + j)

/-- The gates of the heads, where the query projection, whose rows are given, has them. -/
inductive Gates (cfg : Qwen35Config) (m : Nat) (row : Nat → List F) : Option (HostTensor F) → Prop
  | gated {gate : HostTensor F} (hgated : cfg.fullAttnGated = true)
      (hshape : gate.shape = [1, cfg.numAttentionHeads, m, cfg.headDim])
      (hrows : Rows cfg.numAttentionHeads m cfg.headDim gate.data fun i j =>
        headRow (row j) (i * headStride cfg + cfg.headDim) cfg.headDim) : Gates cfg m row (some gate)
  | plain (hplain : cfg.fullAttnGated = false) : Gates cfg m row none

/-- The prepared tensors have the rows of the positions from `start` on. -/
structure Prepared.Holds (attn : Qwen35FullAttention F cfg) (angles : Angles F)
    (h : Nat → List F) (start m : Nat) (prepared : Prepared F) : Prop where
  q_shape : prepared.q.shape = [1, cfg.numAttentionHeads, m, cfg.headDim]
  q : Rows cfg.numAttentionHeads m cfg.headDim prepared.q.data fun i j =>
    queryRow kernels attn angles h (start + j) i
  gate : Gates cfg m (fun j => attn.qProj.apply (h (start + j))) prepared.gate
  k_shape : prepared.k.shape = [1, cfg.numKeyValueHeads, m, cfg.headDim]
  k : Rows cfg.numKeyValueHeads m cfg.headDim prepared.k.data fun i j =>
    keyRow kernels attn angles h (start + j) i
  v_shape : prepared.v.shape = [1, cfg.numKeyValueHeads, m, cfg.headDim]
  v : Rows cfg.numKeyValueHeads m cfg.headDim prepared.v.data fun i j =>
    valueRow attn h (start + j) i

/-- The norm and the rotation of a tensor of heads. -/
theorem normRope_eq (hcfg : ValidHeads cfg) {cos sin : List (List F)}
    (hcos : TableRows cos angles.cos start m) (hsin : TableRows sin angles.sin start m)
    (norm : RowMap F cfg.headDim cfg.headDim) {heads : Nat} {x : HostTensor F}
    (hx : x.shape = [1, heads, m, cfg.headDim]) {row : Nat → Nat → List F}
    (hrows : Rows heads m cfg.headDim x.data row) : ∃ y z,
    mapRows norm x = .ok y ∧ rope kernels y cos sin = .ok z ∧
      z.shape = [1, heads, m, cfg.headDim] ∧ Rows heads m cfg.headDim z.data fun i j =>
        kernels.rotate (angles.cos (start + j)) (angles.sin (start + j)) (norm.apply (row i j)) := by
  obtain ⟨y, hy, hyshape, hyrows⟩ := mapRows_eq norm [1, heads, m] hx (by simp) hrows
  obtain ⟨z, hz, hzshape, hzrows⟩ := rope_eq kernels hyshape hcfg.even hcos.length hsin.length
    hyrows
  refine ⟨y, z, hy, hz, hzshape, hzrows.congr fun i _ j hj => ?_⟩
  rw [hcos.entry j hj, hsin.entry j hj]

theorem qProjDim_eq : cfg.fullAttnQProjDim = cfg.numAttentionHeads * headStride cfg := by
  unfold Lora.Qwen35Config.fullAttnQProjDim headStride
  split
  · exact Nat.mul_assoc _ _ _
  · rfl

theorem splitQuery_eq {x : HostTensor F} {row : Nat → List F}
    (hx : x.shape = [1, m, cfg.fullAttnQProjDim])
    (hrows : Rows 1 m cfg.fullAttnQProjDim x.data fun _ j => row j) : ∃ q gate,
    splitQuery cfg x 1 m = .ok (q, gate) ∧
      q.shape = [1, cfg.numAttentionHeads, m, cfg.headDim] ∧
      Rows cfg.numAttentionHeads m cfg.headDim q.data (fun i j =>
        headRow (row j) (i * headStride cfg) cfg.headDim) ∧ Gates cfg m row gate := by
  rw [qProjDim_eq] at hx hrows
  unfold splitQuery
  by_cases hgated : cfg.fullAttnGated = true
  · have hstride : headStride cfg = cfg.headDim * 2 := if_pos hgated
    rw [if_pos hgated]
    rw [hstride] at hx hrows ⊢
    have hsize : shapeSize [1, m, cfg.numAttentionHeads, cfg.headDim * 2] = shapeSize x.shape := by
      rw [hx, shapeSize_three, shapeSize_four]
      ring
    have hcut := rows_cut hrows
    let cut : HostTensor F := ⟨x.data, [1, m, cfg.numAttentionHeads, cfg.headDim * 2],
      x.length_data.trans hsize.symm⟩
    have hcutshape : cut.shape = [1, m, cfg.numAttentionHeads, cfg.headDim * 2] := rfl
    obtain ⟨q, hq, hqshape, hqrows⟩ := slice_stretch 0 cfg.headDim hcutshape
      (by omega) hcut
    obtain ⟨g, hg, hgshape, hgrows⟩ := slice_stretch cfg.headDim cfg.headDim
      hcutshape (by omega) hcut
    obtain ⟨q', hq', hqshape', hqrows'⟩ := transpose_heads hqshape hqrows
    obtain ⟨g', hg', hgshape', hgrows'⟩ := transpose_heads hgshape hgrows
    rw [Nat.zero_add] at hq
    rw [← Nat.mul_two] at hg
    refine ⟨q', some g', ?_, hqshape', hqrows'.congr fun i _ j _ => ?_,
      .gated hgated hgshape' (hgrows'.congr fun i _ j _ => ?_)⟩
    · rw [HostTensor.reshape_eq hsize, result_ok_bind, hq, result_ok_bind, hg, result_ok_bind, hq',
        result_ok_bind, hg', result_ok_bind]
      rfl
    · exact headRow_headRow (by omega)
    · rw [hstride]
      exact headRow_headRow (by omega)
  · have hstride : headStride cfg = cfg.headDim := if_neg hgated
    rw [if_neg hgated]
    rw [hstride] at hx hrows ⊢
    obtain ⟨q, hq, hqshape, hqrows⟩ := splitHeads_eq hx hrows
    refine ⟨q, none, ?_, hqshape, hqrows, .plain (Bool.not_eq_true _ ▸ hgated)⟩
    rw [hq, result_ok_bind]
    rfl

theorem prepare_eq (hcfg : ValidHeads cfg) {cos sin : List (List F)}
    (hcos : TableRows cos angles.cos start m) (hsin : TableRows sin angles.sin start m)
    {x : HostTensor F} (hx : x.shape = [1, m, cfg.hiddenSize])
    (hrows : Rows 1 m cfg.hiddenSize x.data fun _ j => h (start + j)) : ∃ prepared,
    prepare kernels x attn cos sin 1 m = .ok prepared ∧
      prepared.Holds kernels attn angles h start m := by
  have hlead : [1, m].prod = 1 * m := by simp
  obtain ⟨qFull, hqFull, hqFullshape, hqFullrows⟩ := mapRows_eq attn.qProj _ hx hlead hrows
  obtain ⟨kFull, hkFull, hkFullshape, hkFullrows⟩ := mapRows_eq attn.kProj _ hx hlead hrows
  obtain ⟨vFull, hvFull, hvFullshape, hvFullrows⟩ := mapRows_eq attn.vProj _ hx hlead hrows
  obtain ⟨q, gate, hsplit, hqshape, hqrows, hgate⟩ := splitQuery_eq hqFullshape hqFullrows
  obtain ⟨k, hk, hkshape, hkrows⟩ := splitHeads_eq hkFullshape hkFullrows
  obtain ⟨v, hv, hvshape, hvrows⟩ := splitHeads_eq hvFullshape hvFullrows
  obtain ⟨q', q'', hq', hq'', hqshape'', hqrows''⟩ := normRope_eq kernels hcfg hcos hsin attn.qNorm
    hqshape hqrows
  obtain ⟨k', k'', hk', hk'', hkshape'', hkrows''⟩ := normRope_eq kernels hcfg hcos hsin attn.kNorm
    hkshape hkrows
  refine ⟨⟨q'', gate, k'', v⟩, ?_, hqshape'', hqrows'', hgate, hkshape'', hkrows'', hvshape,
    hvrows⟩
  unfold prepare
  rw [hqFull, result_ok_bind, hsplit, result_ok_bind]
  dsimp only
  rw [hkFull, result_ok_bind, hvFull, result_ok_bind, hk, result_ok_bind, hv, result_ok_bind, hq',
    result_ok_bind, hk', result_ok_bind, hq'', result_ok_bind, hk'']
  rfl

/-! ## Fused preparation -/

theorem qwenDecodePrepareQ_eq (hcfg : ValidHeads cfg) {cos sin : List (List F)}
    (hcos : TableRows cos angles.cos start 1) (hsin : TableRows sin angles.sin start 1)
    {x : HostTensor F} {row : Nat → List F} (hx : x.shape = [1, 1, cfg.fullAttnQProjDim])
    (hrows : Rows 1 1 cfg.fullAttnQProjDim x.data fun _ j => row j) : ∃ q gate,
    qwenDecodePrepareQ kernels x attn cos sin 1 = .ok (q, gate) ∧
      q.shape = [1, cfg.numAttentionHeads, 1, cfg.headDim] ∧
      Rows cfg.numAttentionHeads 1 cfg.headDim q.data (fun i j =>
        kernels.rotate (angles.cos (start + j)) (angles.sin (start + j))
          (attn.qNorm.apply (headRow (row j) (i * headStride cfg) cfg.headDim))) ∧
      Gates cfg 1 row gate := by
  have hstride : headStride cfg = if cfg.fullAttnGated then cfg.headDim * 2 else cfg.headDim := rfl
  have hdim : cfg.fullAttnQProjDim = cfg.numAttentionHeads * cfg.headDim *
      if cfg.fullAttnGated then 2 else 1 := by
    unfold Lora.Qwen35Config.fullAttnQProjDim
    split
    · rfl
    · rw [Nat.mul_one]
  have hhead : ∀ i < cfg.numAttentionHeads, i * headStride cfg + headStride cfg ≤
      cfg.fullAttnQProjDim := fun i hi => by
    rw [qProjDim_eq]
    exact headPlace_le hi
  have hone : ∀ {i j : Nat}, j < 1 → headRow (row 0) (i * headStride cfg) cfg.headDim =
      headRow (row j) (i * headStride cfg) cfg.headDim := by
    intro i j hj
    obtain rfl : j = 0 := by omega
    rfl
  obtain ⟨q, hq, hqshape, hqrows⟩ := headTensor_eq (headStride cfg) 0 cfg.headDim
    hrows fun i hi => by
      have hle : cfg.headDim ≤ headStride cfg := by
        rw [hstride]
        split <;> omega
      exact Nat.le_trans (Nat.add_le_add_left hle _) (hhead i hi)
  obtain ⟨q', q'', hq', hq'', hqshape'', hqrows''⟩ := normRope_eq kernels hcfg hcos hsin attn.qNorm
    hqshape (hqrows.congr fun i _ j hj => hone hj)
  obtain ⟨gate, hgate, hgates⟩ : ∃ gate,
      gateTensor cfg x.data 1 cfg.fullAttnQProjDim (headStride cfg) = .ok gate ∧
        Gates cfg 1 row gate := by
    unfold gateTensor
    by_cases hgated : cfg.fullAttnGated = true
    · have hdouble : headStride cfg = cfg.headDim * 2 := if_pos hgated
      obtain ⟨g, hg, hgshape, hgrows⟩ := headTensor_eq (headStride cfg) cfg.headDim
        cfg.headDim hrows fun i hi => by
          have hle := hhead i hi
          omega
      refine ⟨some g, ?_, .gated hgated hgshape (hgrows.congr fun i _ j hj => ?_)⟩
      · rw [if_pos hgated, hg]
        rfl
      · obtain rfl : j = 0 := by omega
        rfl
    · exact ⟨none, if_neg hgated, .plain (Bool.not_eq_true _ ▸ hgated)⟩
  refine ⟨q'', gate, ?_, hqshape'', hqrows'', hgates⟩
  have hvalid := validateQwenDecodePrepareCommon_eq hcfg hcos.length hsin.length
    cfg.fullAttnQProjDim hcfg.heads
  unfold qwenDecodePrepareQ
  rw [hx]
  dsimp only
  rw [if_neg (by simp), ← hdim, hvalid, result_ok_bind, ← hstride, hq, result_ok_bind, hgate,
    result_ok_bind, hq', result_ok_bind, hq'']
  rfl

theorem qwenDecodePrepareKv_eq (hcfg : ValidHeads cfg) {cos sin : List (List F)}
    (hcos : TableRows cos angles.cos start 1) (hsin : TableRows sin angles.sin start 1)
    {x y : HostTensor F} {rowK rowV : Nat → List F} (hx : x.shape = [1, 1, cfg.fullAttnKvDim])
    (hy : y.shape = [1, 1, cfg.fullAttnKvDim])
    (hxrows : Rows 1 1 cfg.fullAttnKvDim x.data fun _ j => rowK j)
    (hyrows : Rows 1 1 cfg.fullAttnKvDim y.data fun _ j => rowV j) : ∃ k v,
    qwenDecodePrepareKv kernels x y attn cos sin 1 = .ok (k, v) ∧
      k.shape = [1, cfg.numKeyValueHeads, 1, cfg.headDim] ∧
      Rows cfg.numKeyValueHeads 1 cfg.headDim k.data (fun i j =>
        kernels.rotate (angles.cos (start + j)) (angles.sin (start + j))
          (attn.kNorm.apply (headRow (rowK j) (i * cfg.headDim) cfg.headDim))) ∧
      v.shape = [1, cfg.numKeyValueHeads, 1, cfg.headDim] ∧
      Rows cfg.numKeyValueHeads 1 cfg.headDim v.data fun i j =>
        headRow (rowV j) (i * cfg.headDim) cfg.headDim := by
  have hhead : ∀ i < cfg.numKeyValueHeads, i * cfg.headDim + 0 + cfg.headDim ≤
      cfg.fullAttnKvDim := fun i hi => headPlace_le hi
  have hone : ∀ {row : Nat → List F} {i j : Nat}, j < 1 → headRow (row 0) (i * cfg.headDim + 0)
      cfg.headDim = headRow (row j) (i * cfg.headDim) cfg.headDim := by
    intro row i j hj
    obtain rfl : j = 0 := by omega
    rfl
  obtain ⟨k, hk, hkshape, hkrows⟩ := headTensor_eq _ _ _ hxrows hhead
  obtain ⟨v, hv, hvshape, hvrows⟩ := headTensor_eq _ _ _ hyrows hhead
  obtain ⟨k', k'', hk', hk'', hkshape'', hkrows''⟩ := normRope_eq kernels hcfg hcos hsin attn.kNorm
    hkshape (hkrows.congr fun i _ j hj => hone hj)
  refine ⟨k'', v, ?_, hkshape'', hkrows'', hvshape, hvrows.congr fun i _ j hj => hone hj⟩
  have hvalid := validateQwenDecodePrepareCommon_eq hcfg hcos.length hsin.length
    (cfg.numKeyValueHeads * cfg.headDim) hcfg.kvHeads
  have hcheck : checkShape [1, 1, cfg.fullAttnKvDim] y.shape = .ok () :=
    if_neg (not_not_intro hy)
  have hdim : cfg.fullAttnKvDim = cfg.numKeyValueHeads * cfg.headDim := rfl
  unfold qwenDecodePrepareKv
  rw [hx]
  dsimp only
  rw [if_neg (by simp), hcheck, hdim, hvalid, result_ok_bind, result_ok_bind, ← hdim, hk,
    result_ok_bind, hv, result_ok_bind, hk', result_ok_bind, hk'']
  rfl

theorem prepareFused_eq (hcfg : ValidHeads cfg) {cos sin : List (List F)}
    (hcos : TableRows cos angles.cos start 1) (hsin : TableRows sin angles.sin start 1)
    {x : HostTensor F} (hx : x.shape = [1, 1, cfg.hiddenSize])
    (hrows : Rows 1 1 cfg.hiddenSize x.data fun _ j => h (start + j)) : ∃ prepared,
    prepareFused kernels x attn cos sin 1 = .ok prepared ∧
      prepared.Holds kernels attn angles h start 1 := by
  have hlead : [1, 1].prod = 1 * 1 := by simp
  obtain ⟨qFull, hqFull, hqFullshape, hqFullrows⟩ := mapRows_eq attn.qProj _ hx hlead hrows
  obtain ⟨kFull, hkFull, hkFullshape, hkFullrows⟩ := mapRows_eq attn.kProj _ hx hlead hrows
  obtain ⟨vFull, hvFull, hvFullshape, hvFullrows⟩ := mapRows_eq attn.vProj _ hx hlead hrows
  obtain ⟨q, gate, hq, hqshape, hqrows, hgate⟩ := qwenDecodePrepareQ_eq kernels hcfg
    hcos hsin hqFullshape hqFullrows
  obtain ⟨k, v, hkv, hkshape, hkrows, hvshape, hvrows⟩ := qwenDecodePrepareKv_eq
    kernels hcfg hcos hsin hkFullshape hvFullshape hkFullrows hvFullrows
  refine ⟨⟨q, gate, k, v⟩, ?_, hqshape, hqrows, hgate, hkshape, hkrows, hvshape, hvrows⟩
  unfold prepareFused
  rw [hqFull, result_ok_bind, hq, result_ok_bind]
  dsimp only
  rw [hkFull, result_ok_bind, hvFull, result_ok_bind, hkv]
  rfl

/-- Both preparations compute the same. -/
theorem prepareWithKvCache_eq (hcfg : ValidHeads cfg) (tapeEnabled : Bool)
    {cos sin : List (List F)}
    (hcos : TableRows cos angles.cos start m) (hsin : TableRows sin angles.sin start m)
    {x : HostTensor F} (hx : x.shape = [1, m, cfg.hiddenSize])
    (hrows : Rows 1 m cfg.hiddenSize x.data fun _ j => h (start + j)) : ∃ prepared,
    prepareWithKvCache kernels tapeEnabled x attn cos sin 1 m = .ok prepared ∧
      prepared.Holds kernels attn angles h start m := by
  unfold prepareWithKvCache
  split
  · rename_i hfused
    obtain ⟨-, rfl, -, -⟩ := hfused
    exact prepareFused_eq kernels hcfg hcos hsin hx hrows
  · exact prepare_eq kernels hcfg hcos hsin hx hrows

end Prepare

/-! ## The last part -/

section Finish

variable [LinearOrder F] {attn : Qwen35FullAttention F cfg} {angles : Angles F}
  {h : Nat → List F} {start m : Nat}

theorem length_contextRow (p i : Nat) :
    (contextRow kernels attn angles h p i).length = cfg.headDim := by
  rw [contextRow, List.length_map, List.length_range]

theorem finish_eq {attnHidden : HostTensor F} {gate : Option (HostTensor F)}
    (hshape : attnHidden.shape = [1, cfg.numAttentionHeads, m, cfg.headDim])
    (hrows : Rows cfg.numAttentionHeads m cfg.headDim attnHidden.data fun i j =>
      contextRow kernels attn angles h (start + j) i)
    (hgate : Gates cfg m (fun j => attn.qProj.apply (h (start + j))) gate) : ∃ y,
    finish kernels attn attnHidden gate 1 m = .ok y ∧ y.shape = [1, m, cfg.hiddenSize] ∧
      Rows 1 m cfg.hiddenSize y.data fun _ j =>
        attentionRow kernels attn angles h (start + j) := by
  obtain ⟨gated, hgated, hgatedshape, hgatedrows⟩ : ∃ gated,
      applyGate kernels attnHidden gate = .ok gated ∧
        gated.shape = [1, cfg.numAttentionHeads, m, cfg.headDim] ∧
        Rows cfg.numAttentionHeads m cfg.headDim gated.data fun i j =>
          gatedRow kernels attn angles h (start + j) i := by
    cases hgate with
    | @gated gate hflag hgateshape hgaterows =>
      have hsame : attnHidden.shape = (mapEntries kernels.sigmoid gate).shape :=
        hshape.trans hgateshape.symm
      obtain ⟨z, hz, hzshape, hzrows⟩ := zipEntries_eq (· * ·) hsame hrows
        (mapEntries_rows kernels.sigmoid hgaterows)
      exact ⟨z, hz, hzshape.trans hshape, hzrows.congr fun i _ j _ => (if_pos hflag).symm⟩
    | plain hflag =>
      exact ⟨attnHidden, rfl, hshape,
        hrows.congr fun i _ j _ => (if_neg (hflag ▸ Bool.false_ne_true)).symm⟩
  obtain ⟨merged, hmerged, hmergedshape, hmergedrows⟩ := mergeHeads_eq hgatedshape hgatedrows
  obtain ⟨y, hy, hyshape, hyrows⟩ := mapRows_eq attn.oProj [1, m] hmergedshape
    (by simp) hmergedrows
  refine ⟨y, ?_, hyshape, hyrows⟩
  unfold finish
  rw [hgated, result_ok_bind, hmerged, result_ok_bind, hy]

/-! ## The whole sequence -/

/-- The entries of an attention over the repeated keys and values are the rows of the context. -/
theorem rows_of_attention {data : List F} {kvLen : Nat} (hle : start + m ≤ kvLen)
    (hfills : Fills cfg.numAttentionHeads m cfg.headDim data
      (attention kernels.exp (1 / kernels.sqrt (cfg.headDim : F)) cfg.headDim kvLen start
        (fun i j c => (queryRow kernels attn angles h (start + j) i).getD c 0)
        (fun i l c => (keyRow kernels attn angles h l (i / kvRepeat cfg)).getD c 0)
        (fun i l c => (valueRow attn h l (i / kvRepeat cfg)).getD c 0))) :
    Rows cfg.numAttentionHeads m cfg.headDim data fun i j =>
      contextRow kernels attn angles h (start + j) i := by
  refine .of_fills hfills (fun i _ j _ => length_contextRow kernels _ _) fun i _ j hj d hd => ?_
  rw [attention_of_hidden kernels.exp (by omega), contextRow, Dot.getD_map_range _ hd]
  exact attention_congr_row kernels.exp (Nat.zero_add _).symm (fun _ _ => rfl)
    (fun _ _ _ _ => rfl) fun _ _ => rfl

theorem forwardFullAttention_eq (hcfg : ValidHeads cfg) (hsgemm : kernels.sgemm.Multiplies)
    (hm : m ≠ 0) {cos sin : List (List F)} (hcos : TableRows cos angles.cos 0 m)
    (hsin : TableRows sin angles.sin 0 m) {x : HostTensor F}
    (hx : x.shape = [1, m, cfg.hiddenSize])
    (hrows : Rows 1 m cfg.hiddenSize x.data fun _ j => h j) : ∃ y,
    forwardFullAttention kernels x attn cos sin 1 m = .ok y ∧
      y.shape = [1, m, cfg.hiddenSize] ∧
      Rows 1 m cfg.hiddenSize y.data fun _ j => attentionRow kernels attn angles h j := by
  obtain ⟨prepared, hprepared, hholds⟩ := prepare_eq (h := h) kernels hcfg hcos hsin
    hx (hrows.congr fun _ _ j _ => by rw [Nat.zero_add])
  obtain ⟨k, hk, hkshape, hkrows⟩ := repeatKv_eq hcfg.kvRepeat_ne_zero hholds.k_shape hholds.k
  obtain ⟨v, hv, hvshape, hvrows⟩ := repeatKv_eq hcfg.kvRepeat_ne_zero hholds.v_shape hholds.v
  rw [← hcfg.heads_eq] at hkshape hkrows hvshape hvrows
  have hone := Nat.one_mul cfg.numAttentionHeads
  obtain ⟨out, hout, houtshape, hfills⟩ := causalSdpa_eq kernels.exp kernels.sqrt hsgemm hm
    hholds.q_shape hkshape hvshape (hone.symm ▸ hholds.q.fills) (hone.symm ▸ hkrows.fills)
    (hone.symm ▸ hvrows.fills)
  simp only [Nat.one_mul, Nat.zero_add] at hfills
  have houtrows : Rows cfg.numAttentionHeads m cfg.headDim out.data fun i j =>
      contextRow kernels attn angles h (0 + j) i :=
    rows_of_attention kernels (Nat.le_of_eq (Nat.zero_add m))
      (by simpa only [Nat.zero_add] using hfills)
  obtain ⟨y, hy, hyshape, hyrows⟩ := finish_eq kernels houtshape houtrows hholds.gate
  refine ⟨y, ?_, hyshape, hyrows.congr fun _ _ j _ => by rw [Nat.zero_add]⟩
  unfold forwardFullAttention
  rw [hprepared, result_ok_bind, hk, result_ok_bind, hv, result_ok_bind, hout, result_ok_bind, hy]

end Finish

/-! ## The cache of a layer -/

section Cache

/-- What the heads of a cached tensor hold, up to position `n`: `row p i` for head `i`. -/
structure HoldsRows (cfg : Qwen35Config) (maxSeqLen n : Nat) (row : Nat → Nat → List F)
    (cached : HostTensor F) : Prop where
  shape : cached.shape = [1, cfg.numKeyValueHeads, maxSeqLen, cfg.headDim]
  entry : ∀ i < cfg.numKeyValueHeads, ∀ p < n, ∀ c < cfg.headDim,
    cached.data.getD ((i * maxSeqLen + p) * cfg.headDim + c) 0 = (row p i).getD c 0

/-- Before the first token there is no tensor. -/
def HoldsCached (cfg : Qwen35Config) (maxSeqLen n : Nat) (row : Nat → Nat → List F) :
    Option (HostTensor F) → Prop
  | none => n = 0
  | some cached => HoldsRows cfg maxSeqLen n row cached

theorem HoldsRows.fills {maxSeqLen n : Nat} {row : Nat → Nat → List F} {cached : HostTensor F}
    (h : HoldsRows cfg maxSeqLen n row cached) :
    Fills (1 * cfg.numKeyValueHeads) maxSeqLen cfg.headDim cached.data fun i p c =>
      cached.data.getD ((i * maxSeqLen + p) * cfg.headDim + c) 0 := by
  refine fills_getD ?_ 0
  rw [cached.length_data, h.shape, shapeSize_four]

theorem HoldsCached.getD {maxSeqLen n : Nat} {row : Nat → Nat → List F}
    {cached : Option (HostTensor F)} (h : HoldsCached cfg maxSeqLen n row cached) :
    HoldsRows cfg maxSeqLen n row
      (cached.getD (zeros [1, cfg.numKeyValueHeads, maxSeqLen, cfg.headDim])) := by
  cases cached with
  | some cached => exact h
  | none =>
    obtain rfl : n = 0 := h
    exact ⟨rfl, fun _ _ p hp => absurd hp (Nat.not_lt_zero p)⟩

theorem appendCachedKv_eq (hwrites : WritesRows kernels.kvCacheWriteAxis2)
    {maxSeqLen start m : Nat} {row : Nat → Nat → List F} {cached : Option (HostTensor F)}
    (hcached : HoldsCached cfg maxSeqLen start row cached) {next : HostTensor F}
    (hshape : next.shape = [1, cfg.numKeyValueHeads, m, cfg.headDim])
    (hrows : Rows cfg.numKeyValueHeads m cfg.headDim next.data fun i j => row (start + j) i)
    (hroom : start + m ≤ maxSeqLen) : ∃ out,
    appendCachedKv kernels cached next maxSeqLen start = .ok out ∧
      HoldsRows cfg maxSeqLen (start + m) row out := by
  have hold := hcached.getD
  obtain ⟨out, hout, houtshape, hfills⟩ := hwrites 1 cfg.numKeyValueHeads maxSeqLen m cfg.headDim
    start _ next _ _ hold.shape hshape hroom hold.fills
    ((Nat.one_mul cfg.numKeyValueHeads).symm ▸ hrows.fills)
  refine ⟨out, ?_, houtshape, fun i hi p hp c hc => ?_⟩
  · unfold appendCachedKv
    rw [hshape]
    dsimp only
    rw [if_neg (Nat.not_lt_of_le hroom), hout]
    rfl
  · rw [hfills.getD ((Nat.one_mul _).symm ▸ hi) (Nat.lt_of_lt_of_le hp hroom) hc]
    by_cases hnew : start ≤ p
    · rw [if_pos ⟨hnew, hp⟩, Nat.add_sub_of_le hnew]
    · rw [if_neg fun h => hnew h.1, hold.entry i hi p (Nat.lt_of_not_le hnew) c hc]

end Cache

/-! ## Attention with a cache -/

section Cached

variable [LinearOrder F] {attn : Qwen35FullAttention F cfg} {angles : Angles F}
  {h : Nat → List F} {start m maxSeqLen : Nat}

/-- The cache of a layer holds the keys and values of the positions up to `n`. -/
structure LayerHolds (attn : Qwen35FullAttention F cfg) (angles : Angles F) (h : Nat → List F)
    (maxSeqLen n : Nat) (layerCache : Qwen35LayerKvCache F) : Prop where
  capacity : layerCache.maxSeqLen = maxSeqLen
  seqCursor : layerCache.seqCursor = n
  k : HoldsCached cfg maxSeqLen n (keyRow kernels attn angles h) layerCache.k
  v : HoldsCached cfg maxSeqLen n (valueRow attn h) layerCache.v

/-- The key head of a query head in the only batch. -/
theorem kvRow_eq {i : Nat} (hi : i < cfg.numAttentionHeads) :
    kvRow cfg.numAttentionHeads cfg.numKeyValueHeads i = i / kvRepeat cfg := by
  rw [kvRow, Nat.div_eq_of_lt hi, Nat.mod_eq_of_lt hi, Nat.zero_mul, Nat.zero_add, kvRepeat]

theorem attendCached_eq (hcfg : ValidHeads cfg) (hsgemm : kernels.sgemm.Multiplies)
    (hattends : AttendsHeads kernels.exp kernels.sqrt kernels.causalSdpaDecodeGqaCache)
    (hchunk : m = 1 ∨ start = 0) (hm : m ≠ 0) (hroom : start + m ≤ maxSeqLen)
    {prepared : Prepared F} (hprepared : prepared.Holds kernels attn angles h start m)
    {kCache vCache : HostTensor F}
    (hk : HoldsRows cfg maxSeqLen (start + m) (keyRow kernels attn angles h) kCache)
    (hv : HoldsRows cfg maxSeqLen (start + m) (valueRow attn h) vCache) : ∃ out,
    attendCached kernels false prepared kCache vCache cfg start m start = .ok out ∧
      out.shape = [1, cfg.numAttentionHeads, m, cfg.headDim] ∧
      Rows cfg.numAttentionHeads m cfg.headDim out.data fun i j =>
        contextRow kernels attn angles h (start + j) i := by
  have hone := Nat.one_mul cfg.numAttentionHeads
  unfold attendCached
  by_cases hsingle : m = 1
  · subst hsingle
    obtain ⟨out, hout, houtshape, hfills⟩ := hattends 1 cfg.numAttentionHeads cfg.numKeyValueHeads
      maxSeqLen cfg.headDim (start + 1) start prepared.q kCache vCache _ _ _ hprepared.q_shape
      hk.shape hv.shape hcfg.heads hcfg.kvHeads hcfg.multiple hroom rfl
      (hone.symm ▸ hprepared.q.fills) hk.fills hv.fills
    rw [hone] at hfills
    refine ⟨out, ?_, houtshape, .of_fills hfills (fun i _ j _ => length_contextRow kernels _ _)
      fun i hi j hj d hd => ?_⟩
    · dsimp only
      rw [if_pos ⟨rfl, rfl, rfl⟩, causalSdpaDecodeGqaCached, if_neg Bool.false_ne_true, hout]
      rfl
    · obtain rfl : j = 0 := by omega
      have hhead := hcfg.div_kvRepeat_lt hi
      rw [Nat.add_zero, contextRow, Dot.getD_map_range _ hd]
      apply attention_congr_row kernels.exp
      · omega
      · intro c hc
        rfl
      · intro l hl c hc
        rw [kvRow_eq hi, hk.entry _ hhead l hl c hc]
      · intro l hl
        rw [kvRow_eq hi, hv.entry _ hhead l hl d hd]
  · obtain rfl : start = 0 := hchunk.resolve_left hsingle
    obtain ⟨k, hk', hkshape, hkrows⟩ := repeatKv_eq hcfg.kvRepeat_ne_zero hprepared.k_shape
      hprepared.k
    obtain ⟨v, hv', hvshape, hvrows⟩ := repeatKv_eq hcfg.kvRepeat_ne_zero hprepared.v_shape
      hprepared.v
    rw [← hcfg.heads_eq] at hkshape hkrows hvshape hvrows
    obtain ⟨out, hout, houtshape, hfills⟩ := causalSdpaWithQStart_eq kernels.exp kernels.sqrt hsgemm
      hm (Nat.le_of_eq (Nat.zero_add m)) hprepared.q_shape hkshape hvshape
      (hone.symm ▸ hprepared.q.fills) (hone.symm ▸ hkrows.fills) (hone.symm ▸ hvrows.fills)
    rw [hone] at hfills
    refine ⟨out, ?_, houtshape, rows_of_attention kernels (Nat.le_of_eq (Nat.zero_add m))
      (by simpa only [Nat.zero_add] using hfills)⟩
    dsimp only
    rw [if_neg fun h => hsingle h.2.1, if_neg (not_not_intro rfl), hk', result_ok_bind, hv',
      result_ok_bind, hout]
    rfl

theorem forwardFullAttentionWithKvCache_eq (hcfg : ValidHeads cfg)
    (hsgemm : kernels.sgemm.Multiplies) (hwrites : WritesRows kernels.kvCacheWriteAxis2)
    (hattends : AttendsHeads kernels.exp kernels.sqrt kernels.causalSdpaDecodeGqaCache)
    (hchunk : m = 1 ∨ start = 0) (hm : m ≠ 0) (hroom : start + m ≤ maxSeqLen)
    {cos sin : List (List F)} (hcos : TableRows cos angles.cos start m)
    (hsin : TableRows sin angles.sin start m) {x : HostTensor F}
    (hx : x.shape = [1, m, cfg.hiddenSize])
    (hrows : Rows 1 m cfg.hiddenSize x.data fun _ j => h (start + j))
    {layerCache : Qwen35LayerKvCache F}
    (hcache : LayerHolds kernels attn angles h maxSeqLen start layerCache) : ∃ y layerCache',
    forwardFullAttentionWithKvCache kernels false x attn cos sin 1 m layerCache start =
        .ok (y, layerCache') ∧
      y.shape = [1, m, cfg.hiddenSize] ∧
      Rows 1 m cfg.hiddenSize y.data (fun _ j => attentionRow kernels attn angles h (start + j)) ∧
      LayerHolds kernels attn angles h maxSeqLen (start + m) layerCache' := by
  obtain ⟨prepared, hprepared, hholds⟩ := prepareWithKvCache_eq kernels hcfg false
    hcos hsin hx hrows
  obtain ⟨kCache, hkappend, hk⟩ := appendCachedKv_eq kernels hwrites hcache.k hholds.k_shape
    hholds.k hroom
  obtain ⟨vCache, hvappend, hv⟩ := appendCachedKv_eq kernels hwrites hcache.v hholds.v_shape
    hholds.v hroom
  obtain ⟨out, hout, houtshape, houtrows⟩ := attendCached_eq kernels hcfg hsgemm hattends hchunk hm
    hroom hholds hk hv
  obtain ⟨y, hy, hyshape, hyrows⟩ := finish_eq kernels houtshape houtrows hholds.gate
  refine ⟨y, ⟨some kCache, some vCache, layerCache.maxSeqLen, start + m⟩, ?_, hyshape, hyrows,
    hcache.capacity, rfl, hk, hv⟩
  have hcursor : checkCursor layerCache start = .ok () := if_neg (not_not_intro hcache.seqCursor)
  unfold forwardFullAttentionWithKvCache
  rw [hprepared, hcursor, hcache.seqCursor]
  change (appendCachedKv kernels layerCache.k prepared.k layerCache.maxSeqLen start >>= fun _ =>
    _) = _
  rw [hcache.capacity, hkappend, ok_bind, hvappend, ok_bind, hout, ok_bind, hy]
  rfl

end Cached

end Arle.Train.Rollout
