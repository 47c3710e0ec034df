import Mathlib
import Arle.TensorParallel.GroupAxes

/-!
# The parallel state of a rank

A rank keeps, for each axis, the group that contains it and its place there. The groups of every
accepted configuration partition the ranks of the world, and they agree with the coordinates.
-/

namespace Arle.Distributed

open AxisGroups TensorParallel

inductive ParallelGroupKind
  | world
  | tensor
  | pipeline
  | expert
  | attentionTensor
  | attentionData
  | attentionContext
  | moeTensor
  | moeExpert
  | moeData
deriving DecidableEq, Repr

def ParallelGroupKind.name : ParallelGroupKind → String
  | .world => "world"
  | .tensor => "tp"
  | .pipeline => "pp"
  | .expert => "ep"
  | .attentionTensor => "attn_tp"
  | .attentionData => "attn_dp"
  | .attentionContext => "attn_cp"
  | .moeTensor => "moe_tp"
  | .moeExpert => "moe_ep"
  | .moeData => "moe_dp"

structure RankGroup where
  kind : ParallelGroupKind
  ranks : List Nat
  rank : Nat
  rankInGroup : Nat
deriving DecidableEq, Repr

def RankGroup.new (kind : ParallelGroupKind) (ranks : List Nat) (rank : Nat) :
    Except String RankGroup :=
  match ranks.findIdx? fun candidate => candidate == rank with
  | some rankInGroup => .ok { kind, ranks, rank, rankInGroup }
  | none => .error s!"rank {rank} is not a member of {kind.name} group {ranks}"

structure ParallelState where
  config : MultiAxisConfig
  coord : RankCoord
  worldGroup : RankGroup
  tpGroup : RankGroup
  ppGroup : RankGroup
  epGroup : RankGroup
  attnTpGroup : RankGroup
  attnDpGroup : RankGroup
  attnCpGroup : RankGroup
  moeTpGroup : RankGroup
  moeEpGroup : RankGroup
  moeDpGroup : RankGroup
deriving DecidableEq, Repr

def groupContaining (kind : ParallelGroupKind) (groups : List (List Nat)) (rank : Nat) :
    Except String RankGroup :=
  match groups.find? fun group => group.contains rank with
  | some ranks => RankGroup.new kind ranks rank
  | none => .error s!"rank {rank} has no {kind.name} group"

def ParallelState.new (config : MultiAxisConfig) (worldRank : Nat) :
    Except String ParallelState := do
  config.validate
  let coord ← RankCoord.fromWorldRank config worldRank
  let worldGroup ← RankGroup.new .world (collect 0 config.worldSize) worldRank
  let tpGroup ← groupContaining .tensor (buildTpGroups config) worldRank
  let ppGroup ← groupContaining .pipeline (buildPpGroups config) worldRank
  let moeEpGroups := buildMoeEpGroups config
  let epGroup ← groupContaining .expert moeEpGroups worldRank
  let attnTpGroup ← groupContaining .attentionTensor (buildAttnTpGroups config) worldRank
  let attnDpGroup ← groupContaining .attentionData (buildAttnDpGroups config) worldRank
  let attnCpGroup ← groupContaining .attentionContext (buildAttnCpGroups config) worldRank
  let moeTpGroup ← groupContaining .moeTensor (buildMoeTpGroups config) worldRank
  let moeEpGroup ← groupContaining .moeExpert moeEpGroups worldRank
  let moeDpGroup ← groupContaining .moeData (buildMoeDpGroups config) worldRank
  return {
    config
    coord
    worldGroup
    tpGroup
    ppGroup
    epGroup
    attnTpGroup
    attnDpGroup
    attnCpGroup
    moeTpGroup
    moeEpGroup
    moeDpGroup }

section New

/-- The group of a rank along an axis. -/
def axisGroup (kind : ParallelGroupKind) (a : Axis) (rank : Nat) : RankGroup where
  kind := kind
  ranks := a.row (rank / a.block) (rank % a.stride)
  rank := rank
  rankInGroup := a.digit rank

theorem groupContaining_groups (kind : ParallelGroupKind) {a : Axis} {rank : Nat}
    (hrank : rank < a.total) :
    groupContaining kind a.groups rank = .ok (axisGroup kind a rank) := by
  unfold groupContaining
  rw [a.find_groups hrank]
  simp only [RankGroup.new]
  rw [a.findIdx_row rank]
  rfl

/-- The world is an axis of its own. -/
theorem new_world {n rank : Nat} (hrank : rank < n) :
    RankGroup.new .world (collect 0 n) rank = .ok ⟨.world, collect 0 n, rank, rank⟩ := by
  have hpos : 0 < n := Nat.zero_lt_of_lt hrank
  have hfind := (⟨1, n, 1, Nat.one_pos, hpos⟩ : Axis).findIdx_row rank
  unfold Axis.row Axis.block Axis.digit at hfind
  simp only [Nat.one_mul, Nat.div_eq_of_lt hrank, Nat.zero_mul, Nat.mod_one, Nat.add_zero,
    Nat.div_one, Nat.mod_eq_of_lt hrank] at hfind
  unfold RankGroup.new collect
  rw [Nat.sub_zero, hfind]

variable {cfg : MultiAxisConfig}

/-- The state of a rank, with the row and the digit of each axis. -/
def stateOf (h : cfg.Valid) (r : Nat) : ParallelState where
  config := cfg
  coord := coord h r
  worldGroup := ⟨.world, collect 0 cfg.worldSize, r, r⟩
  tpGroup := axisGroup .tensor h.tpAxis r
  ppGroup := axisGroup .pipeline h.ppAxis r
  epGroup := axisGroup .expert h.moe.midAxis r
  attnTpGroup := axisGroup .attentionTensor h.attn.innerAxis r
  attnDpGroup := axisGroup .attentionData h.attn.outerAxis r
  attnCpGroup := axisGroup .attentionContext h.attn.midAxis r
  moeTpGroup := axisGroup .moeTensor h.moe.innerAxis r
  moeEpGroup := axisGroup .moeExpert h.moe.midAxis r
  moeDpGroup := axisGroup .moeData h.moeDpAxis r

/-- Every rank of the world gets its state. -/
theorem new_eq (h : cfg.Valid) {r : Nat} (hr : r < cfg.worldSize) :
    ParallelState.new cfg r = .ok (stateOf h r) := by
  have hattn := hr.trans_eq (cells_attn h).symm
  have hmoe := hr.trans_eq (cells_moe h).symm
  unfold ParallelState.new
  rw [(MultiAxisConfig.validate_iff h.toWordSized).mpr h, fromWorldRank_eq h hr, new_world hr,
    buildTpGroups_eq h, buildPpGroups_eq h, buildMoeEpGroups_eq h, buildAttnTpGroups_eq h,
    buildAttnDpGroups_eq h, buildAttnCpGroups_eq h, buildMoeTpGroups_eq h, buildMoeDpGroups_eq h]
  simp only [groupContaining_groups _ (hr.trans_eq (total_tpAxis h).symm),
    groupContaining_groups _ (hr.trans_eq (total_ppAxis h).symm),
    groupContaining_groups _ (hattn.trans_eq h.attn.total_inner.symm),
    groupContaining_groups _ (hattn.trans_eq h.attn.total_mid.symm),
    groupContaining_groups _ (hattn.trans_eq h.attn.total_outer.symm),
    groupContaining_groups _ (hmoe.trans_eq h.moe.total_inner.symm),
    groupContaining_groups _ (hmoe.trans_eq h.moe.total_mid.symm),
    groupContaining_groups _ (hr.trans_eq (total_moeDpAxis h).symm)]
  rfl

end New

section Layout

/-- The groups are a partition of the numbers below `n`. -/
structure IsPartition (groups : List (List Nat)) (n : Nat) : Prop where
  covers : groups.flatten.Perm (List.range n)
  nonempty : ∀ g ∈ groups, g ≠ []

/-- The groups of an axis agree with the coordinates: `size` is the length of the axis, `same`
says that two ranks differ along the axis only, `own` is the coordinate along the axis and
`group` the group of a rank in its state. -/
structure AgreesWithCoord (cfg : MultiAxisConfig) (groups : List (List Nat)) (size : Nat)
    (same : RankCoord → RankCoord → Prop) (own : RankCoord → Nat)
    (group : ParallelState → RankGroup) : Prop where
  length : ∀ g ∈ groups, g.length = size
  share : ∀ r r' c c', RankCoord.fromWorldRank cfg r = .ok c →
    RankCoord.fromWorldRank cfg r' = .ok c' → ((∃ g ∈ groups, r ∈ g ∧ r' ∈ g) ↔ same c c')
  position : ∀ r < cfg.worldSize, ∃ state, ParallelState.new cfg r = .ok state ∧
    RankCoord.fromWorldRank cfg r = .ok state.coord ∧ (group state).ranks ∈ groups ∧
    r ∈ (group state).ranks ∧ (group state).rankInGroup = own state.coord

/-- The layout of a configuration, up to what two ranks of one pipeline group have in common. -/
structure RankLayout (samePp : RankCoord → RankCoord → Prop) (cfg : MultiAxisConfig) : Prop where
  partition : ∀ groups ∈ [buildTpGroups cfg, buildPpGroups cfg, buildAttnCpGroups cfg,
    buildAttnTpGroups cfg, buildAttnDpGroups cfg, buildMoeDpGroups cfg, buildMoeEpGroups cfg,
    buildMoeTpGroups cfg], IsPartition groups cfg.worldSize
  tp : AgreesWithCoord cfg (buildTpGroups cfg) cfg.tpSize
    (fun c c' => c.ppRank = c'.ppRank) (·.tpRank) (·.tpGroup)
  pp : AgreesWithCoord cfg (buildPpGroups cfg) cfg.ppSize samePp (·.ppRank) (·.ppGroup)
  attnTp : AgreesWithCoord cfg (buildAttnTpGroups cfg) cfg.attnTpSize
    (fun c c' => c.ppRank = c'.ppRank ∧ c.attnDpRank = c'.attnDpRank ∧
      c.attnCpRank = c'.attnCpRank) (·.attnTpRank) (·.attnTpGroup)
  attnCp : AgreesWithCoord cfg (buildAttnCpGroups cfg) cfg.attnCpSize
    (fun c c' => c.ppRank = c'.ppRank ∧ c.attnDpRank = c'.attnDpRank ∧
      c.attnTpRank = c'.attnTpRank) (·.attnCpRank) (·.attnCpGroup)
  attnDp : AgreesWithCoord cfg (buildAttnDpGroups cfg) cfg.attnDpSize
    (fun c c' => c.ppRank = c'.ppRank ∧ c.attnCpRank = c'.attnCpRank ∧
      c.attnTpRank = c'.attnTpRank) (·.attnDpRank) (·.attnDpGroup)
  moeTp : AgreesWithCoord cfg (buildMoeTpGroups cfg) cfg.moeTpSize
    (fun c c' => c.ppRank = c'.ppRank ∧ c.moeDpRank = c'.moeDpRank ∧
      c.moeEpRank = c'.moeEpRank) (·.moeTpRank) (·.moeTpGroup)
  moeEp : AgreesWithCoord cfg (buildMoeEpGroups cfg) cfg.epSize
    (fun c c' => c.ppRank = c'.ppRank ∧ c.moeDpRank = c'.moeDpRank ∧
      c.moeTpRank = c'.moeTpRank) (·.moeEpRank) (·.moeEpGroup)
  ep : AgreesWithCoord cfg (buildMoeEpGroups cfg) cfg.epSize
    (fun c c' => c.ppRank = c'.ppRank ∧ c.moeDpRank = c'.moeDpRank ∧
      c.moeTpRank = c'.moeTpRank) (·.moeEpRank) (·.epGroup)
  moeDp : cfg.attnCpSize ≤ cfg.moeDpSize →
    AgreesWithCoord cfg (buildMoeDpGroups cfg) cfg.moeDpSize
      (fun c c' => c.ppRank = c'.ppRank ∧ c.moeEpRank = c'.moeEpRank ∧
        c.moeTpRank = c'.moeTpRank) (·.moeDpRank) (·.moeDpGroup)

theorem isPartition_groups {a : Axis} {n : Nat} (htotal : a.total = n) :
    IsPartition a.groups n := by
  subst htotal
  constructor
  · exact a.flatten_groups_perm
  · intro g hg hnil
    have hlen := a.length_of_mem_groups hg
    have hsize := a.size_pos
    rw [hnil, List.length_nil] at hlen
    omega

variable {cfg : MultiAxisConfig} {same : RankCoord → RankCoord → Prop} {own : RankCoord → Nat}
  {group : ParallelState → RankGroup}

/-- The groups of an axis agree with the coordinates when the coordinates are the digits of the
axis and of the others. -/
theorem agreesWithCoord_groups {a : Axis} (h : cfg.Valid) (htotal : a.total = cfg.worldSize)
    (hshare : ∀ r r', r < cfg.worldSize → r' < cfg.worldSize →
      ((∃ g ∈ a.groups, r ∈ g ∧ r' ∈ g) ↔ same (coord h r) (coord h r')))
    (hgroup : ∀ r, ∃ kind, group (stateOf h r) = axisGroup kind a r)
    (hown : ∀ r, own (coord h r) = a.digit r) :
    AgreesWithCoord cfg a.groups a.size same own group := by
  refine ⟨fun g hg => a.length_of_mem_groups hg, ?_, ?_⟩
  · intro r r' c c' hc hc'
    obtain ⟨hr, rfl⟩ := fromWorldRank_ok h hc
    obtain ⟨hr', rfl⟩ := fromWorldRank_ok h hc'
    exact hshare r r' hr hr'
  · intro r hr
    obtain ⟨kind, hgr⟩ := hgroup r
    refine ⟨_, new_eq h hr, fromWorldRank_eq h hr, ?_, ?_, ?_⟩
    · rw [hgr]
      exact a.row_mem_groups (hr.trans_eq htotal.symm)
    · rw [hgr]
      exact a.mem_row r
    · rw [hgr]
      exact (hown r).symm

/-- Two ranks of one pipeline stage. -/
theorem ppRank_eq_iff (h : cfg.Valid) {r r' : Nat} (hr : r < cfg.worldSize)
    (hr' : r' < cfg.worldSize) :
    (coord h r).ppRank = (coord h r').ppRank ↔ r / cfg.tpSize = r' / cfg.tpSize := by
  unfold coord
  rw [digit_ppAxis h hr, digit_ppAxis h hr']

/-- Every list of groups is a partition. -/
theorem isPartition_of_valid (h : cfg.Valid) :
    ∀ groups ∈ [buildTpGroups cfg, buildPpGroups cfg, buildAttnCpGroups cfg,
      buildAttnTpGroups cfg, buildAttnDpGroups cfg, buildMoeDpGroups cfg, buildMoeEpGroups cfg,
      buildMoeTpGroups cfg], IsPartition groups cfg.worldSize := by
  rw [buildTpGroups_eq h, buildPpGroups_eq h, buildMoeEpGroups_eq h, buildAttnTpGroups_eq h,
    buildAttnDpGroups_eq h, buildAttnCpGroups_eq h, buildMoeTpGroups_eq h, buildMoeDpGroups_eq h]
  have hattn := cells_attn h
  have hmoe := cells_moe h
  simp only [List.forall_mem_cons, List.not_mem_nil, false_imp_iff, implies_true, and_true]
  refine ⟨?_, ?_, ?_, ?_, ?_, ?_, ?_, ?_⟩
  · exact isPartition_groups (total_tpAxis h)
  · exact isPartition_groups (total_ppAxis h)
  · exact isPartition_groups (h.attn.total_mid.trans hattn)
  · exact isPartition_groups (h.attn.total_inner.trans hattn)
  · exact isPartition_groups (h.attn.total_outer.trans hattn)
  · exact isPartition_groups (total_moeDpAxis h)
  · exact isPartition_groups (h.moe.total_mid.trans hmoe)
  · exact isPartition_groups (h.moe.total_inner.trans hmoe)

section Axes

variable (h : cfg.Valid)

theorem agrees_tp : AgreesWithCoord cfg h.tpAxis.groups h.tpAxis.size
    (fun c c' => c.ppRank = c'.ppRank) (·.tpRank) (·.tpGroup) := by
  apply agreesWithCoord_groups h (total_tpAxis h) _ (fun r => ⟨.tensor, rfl⟩) fun r => rfl
  intro r r' hr hr'
  have hblock : h.tpAxis.block = cfg.tpSize := Nat.one_mul _
  have hstride : h.tpAxis.stride = 1 := rfl
  rw [h.tpAxis.share_iff (hr.trans_eq (total_tpAxis h).symm), ppRank_eq_iff h hr hr', hblock,
    hstride, Nat.mod_one, Nat.mod_one, and_iff_left rfl]

theorem agrees_pp : AgreesWithCoord cfg h.ppAxis.groups h.ppAxis.size
    (fun c c' => c.tpRank = c'.tpRank) (·.ppRank) (·.ppGroup) := by
  apply agreesWithCoord_groups h (total_ppAxis h) _ (fun r => ⟨.pipeline, rfl⟩) fun r => rfl
  intro r r' hr hr'
  have hblock : h.ppAxis.block = cfg.worldSize := h.worldSize_eq.symm
  rw [h.ppAxis.share_iff (hr.trans_eq (total_ppAxis h).symm), hblock, Nat.div_eq_of_lt hr,
    Nat.div_eq_of_lt hr', and_iff_right rfl]
  unfold coord
  rw [digit_tpAxis, digit_tpAxis]
  rfl

variable {g : Grid} (hspan : g.span = cfg.tpSize) (hcells : g.blocks * g.span = cfg.worldSize)
  {inner mid outer : RankCoord → Nat} (hinner : ∀ r, inner (coord h r) = g.innerAxis.digit r)
  (hmid : ∀ r, mid (coord h r) = g.midAxis.digit r)
  (houter : ∀ r, outer (coord h r) = g.outerAxis.digit r)

include hspan hcells hinner hmid houter

theorem agrees_inner (hgroup : ∀ r, ∃ kind, group (stateOf h r) = axisGroup kind g.innerAxis r) :
    AgreesWithCoord cfg g.innerAxis.groups g.inner
      (fun c c' => c.ppRank = c'.ppRank ∧ outer c = outer c' ∧ mid c = mid c') inner group := by
  apply agreesWithCoord_groups h (g.total_inner.trans hcells) _ hgroup hinner
  intro r r' hr hr'
  rw [g.share_inner (hr.trans_eq hcells.symm), hspan, ppRank_eq_iff h hr hr', houter, houter,
    hmid, hmid]

theorem agrees_mid (hgroup : ∀ r, ∃ kind, group (stateOf h r) = axisGroup kind g.midAxis r) :
    AgreesWithCoord cfg g.midAxis.groups g.mid
      (fun c c' => c.ppRank = c'.ppRank ∧ outer c = outer c' ∧ inner c = inner c') mid group := by
  apply agreesWithCoord_groups h (g.total_mid.trans hcells) _ hgroup hmid
  intro r r' hr hr'
  rw [g.share_mid (hr.trans_eq hcells.symm), hspan, ppRank_eq_iff h hr hr', houter, houter,
    hinner, hinner]

theorem agrees_outer (hgroup : ∀ r, ∃ kind, group (stateOf h r) = axisGroup kind g.outerAxis r) :
    AgreesWithCoord cfg g.outerAxis.groups g.outer
      (fun c c' => c.ppRank = c'.ppRank ∧ mid c = mid c' ∧ inner c = inner c') outer group := by
  apply agreesWithCoord_groups h (g.total_outer.trans hcells) _ hgroup houter
  intro r r' hr hr'
  rw [g.share_outer (hr.trans_eq hcells.symm), hspan, ppRank_eq_iff h hr hr', hmid, hmid,
    hinner, hinner]

end Axes

/-- The layout of every accepted configuration whose sizes fit: the ranks of one pipeline group
agree on the tensor rank, those of every other group on the pipeline rank and on the coordinates
of the decomposition that the axis is not. -/
theorem rank_layout (cfg : MultiAxisConfig) (hsize : cfg.WordSized)
    (hvalidate : cfg.validate = .ok ()) : RankLayout (fun c c' => c.tpRank = c'.tpRank) cfg := by
  have h := (MultiAxisConfig.validate_iff hsize).mp hvalidate
  have hspan := h.span_attn
  have hcells := cells_attn h
  have hspan' := h.span_moe
  have hcells' := cells_moe h
  constructor
  case partition => exact isPartition_of_valid h
  case tp =>
    rw [buildTpGroups_eq h]
    exact agrees_tp h
  case pp =>
    rw [buildPpGroups_eq h]
    exact agrees_pp h
  case attnTp =>
    rw [buildAttnTpGroups_eq h]
    exact agrees_inner h hspan hcells (fun _ => rfl) (fun _ => rfl) (fun _ => rfl)
      fun _ => ⟨_, rfl⟩
  case attnCp =>
    rw [buildAttnCpGroups_eq h]
    exact agrees_mid h hspan hcells (fun _ => rfl) (fun _ => rfl) (fun _ => rfl)
      fun _ => ⟨_, rfl⟩
  case attnDp =>
    rw [buildAttnDpGroups_eq h]
    exact agrees_outer h hspan hcells (fun _ => rfl) (fun _ => rfl) (fun _ => rfl)
      fun _ => ⟨_, rfl⟩
  case moeTp =>
    rw [buildMoeTpGroups_eq h]
    exact agrees_inner h hspan' hcells' (fun _ => rfl) (fun _ => rfl) (fun _ => rfl)
      fun _ => ⟨_, rfl⟩
  case moeEp | ep =>
    rw [buildMoeEpGroups_eq h]
    exact agrees_mid h hspan' hcells' (fun _ => rfl) (fun _ => rfl) (fun _ => rfl)
      fun _ => ⟨_, rfl⟩
  case moeDp =>
    intro hcp
    have haxis := h.moeDpAxis_of_le hcp
    rw [buildMoeDpGroups_eq h, haxis]
    refine agrees_outer h hspan' hcells' (fun _ => rfl) (fun _ => rfl) (fun _ => rfl) ?_
    intro r
    refine ⟨.moeData, ?_⟩
    unfold stateOf
    rw [haxis]

/-- Two stages of four ranks, with two expert ranks and two data ranks. -/
theorem rank_layout_two_stages :
    MultiAxisConfig.validate ⟨4, 2, 2, 2, 1, 1⟩ = .ok () ∧
      RankLayout (fun c c' => c.tpRank = c'.tpRank) ⟨4, 2, 2, 2, 1, 1⟩ :=
  ⟨rfl, rank_layout ⟨4, 2, 2, 2, 1, 1⟩ ⟨by decide, by decide, by decide⟩ rfl⟩

/-- No axis is longer than the world. -/
theorem RankLayout.attnDpSize_le {samePp : RankCoord → RankCoord → Prop} {cfg : MultiAxisConfig}
    (h : RankLayout samePp cfg) (hpos : 0 < cfg.worldSize) : cfg.attnDpSize ≤ cfg.worldSize := by
  obtain ⟨state, -, -, hin, -⟩ := h.attnDp.position 0 hpos
  have hcovers := (h.partition (buildAttnDpGroups cfg) (by simp)).covers
  have hle := (List.sublist_flatten_of_mem hin).length_le
  rwa [h.attnDp.length _ hin, hcovers.length_eq, List.length_range] at hle

/-- The two ranks of a pipeline of two stages share their pipeline group, and their pipeline
ranks differ. Sizes whose product wraps to one are accepted for a single rank. -/
theorem pipeline_group_crosses_stages :
    (MultiAxisConfig.validate ⟨1, 2, 1, 1, 1, 1⟩ = .ok () ∧
      ¬ RankLayout (fun c c' => c.ppRank = c'.ppRank ∧ c.tpRank = c'.tpRank)
        ⟨1, 2, 1, 1, 1, 1⟩) ∧
    MultiAxisConfig.validate ⟨1, 1, 1, 3, 0xAAAAAAAAAAAAAAAB, 1⟩ = .ok () ∧
      ∀ samePp, ¬ RankLayout samePp ⟨1, 1, 1, 3, 0xAAAAAAAAAAAAAAAB, 1⟩ := by
  refine ⟨⟨rfl, ?_⟩, rfl, fun samePp hlayout =>
    absurd (hlayout.attnDpSize_le (by decide)) (by decide)⟩
  intro hlayout
  have hshare := hlayout.pp.share 0 1 ⟨0, 0, 0, 0, 0, 0, 0, 0, 0⟩ ⟨1, 0, 1, 0, 0, 0, 0, 0, 0⟩
    rfl rfl
  have hstages : 0 = 1 := (hshare.mp ⟨[0, 1], List.mem_singleton.mpr rfl, by simp, by simp⟩).1
  omega

end Layout

end Arle.Distributed
