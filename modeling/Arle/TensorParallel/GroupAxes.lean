import Mathlib
import Arle.Lib.AxisGroups
import Arle.TensorParallel.MultiAxis

/-!
# Every list of groups is an axis of a grid

The attention sizes and the expert sizes cut a block of `tp` ranks in two ways. In an accepted
configuration both are grids, and each list of groups is the list of one axis, the shortcuts of
the builders included. The coordinates of a rank are the digits of the axes.
-/

namespace Arle.TensorParallel

open AxisGroups

section Ranges

/-- A strided range over whole blocks, from an offset in the first step. -/
theorem stepBy_eq {st en step size o : Nat} (hen : st + step * size = en + o) (ho : o < step) :
    stepBy st en step = List.range' st size step := by
  have hcount : (en - st + (step - 1)) / step = size := by
    have hstep : 0 < step := Nat.zero_lt_of_lt ho
    cases size with
    | zero =>
      rw [Nat.mul_zero] at hen
      rw [Nat.div_eq_of_lt]
      omega
    | succ size =>
      rw [Nat.mul_succ] at hen
      apply Nat.div_eq_of_lt_le
      · rw [Nat.succ_mul, Nat.mul_comm]
        omega
      · rw [Nat.succ_mul, Nat.succ_mul, Nat.mul_comm]
        omega
  unfold stepBy
  rw [hcount]

/-- A strided range over whole steps. -/
theorem stepBy_add {st step size : Nat} (hstep : 0 < step) :
    stepBy st (st + step * size) step = List.range' st size step := stepBy_eq rfl hstep

theorem collect_add (st size : Nat) : collect st (st + size) = List.range' st size := by
  unfold collect
  rw [Nat.add_sub_cancel_left]

end Ranges

namespace MultiAxisConfig.Valid

variable {cfg : MultiAxisConfig}

theorem tp_eq_attn (h : cfg.Valid) :
    cfg.tpSize = cfg.attnTpSize * (cfg.attnCpSize * cfg.attnDpSize) := by
  unfold attnTpSize
  rw [Nat.div_div_eq_div_mul, Nat.mul_comm cfg.attnCpSize]
  exact (Nat.div_mul_cancel h.attn_dvd).symm

theorem tp_eq_moe (h : cfg.Valid) :
    cfg.tpSize = cfg.moeTpSize * (cfg.epSize * cfg.moeDpSize) := by
  unfold moeTpSize
  rw [Nat.div_div_eq_div_mul]
  exact (Nat.div_mul_cancel h.moe_dvd).symm

theorem attnTp_pos (h : cfg.Valid) : 0 < cfg.attnTpSize := by
  have htp := h.tp_pos
  rw [h.tp_eq_attn] at htp
  exact Nat.pos_of_mul_pos_right htp

theorem moeTp_pos (h : cfg.Valid) : 0 < cfg.moeTpSize := by
  have htp := h.tp_pos
  rw [h.tp_eq_moe] at htp
  exact Nat.pos_of_mul_pos_right htp

/-- The attention decomposition of the ranks. -/
def attn (h : cfg.Valid) : Grid :=
  ⟨cfg.attnTpSize, cfg.attnCpSize, cfg.attnDpSize, cfg.ppSize,
    h.attnTp_pos, h.attnCp_pos, h.attnDp_pos⟩

/-- The expert decomposition of the ranks. -/
def moe (h : cfg.Valid) : Grid :=
  ⟨cfg.moeTpSize, cfg.epSize, cfg.moeDpSize, cfg.ppSize, h.moeTp_pos, h.ep_pos, h.moeDp_pos⟩

/-- The tensor axis. -/
def tpAxis (h : cfg.Valid) : Axis := ⟨1, cfg.tpSize, cfg.ppSize, Nat.one_pos, h.tp_pos⟩

/-- The pipeline axis. -/
def ppAxis (h : cfg.Valid) : Axis := ⟨cfg.tpSize, cfg.ppSize, 1, h.tp_pos, h.pp_pos⟩

/-- The axis of the expert data groups. -/
def moeDpAxis (h : cfg.Valid) : Axis :=
  if cfg.attnCpSize > cfg.moeDpSize then h.attn.midAxis else h.moe.outerAxis

theorem moeDpAxis_of_le (h : cfg.Valid) (hcp : cfg.attnCpSize ≤ cfg.moeDpSize) :
    h.moeDpAxis = h.moe.outerAxis := if_neg (Nat.not_lt.mpr hcp)

theorem span_attn (h : cfg.Valid) : h.attn.span = cfg.tpSize := h.tp_eq_attn.symm

theorem span_moe (h : cfg.Valid) : h.moe.span = cfg.tpSize := h.tp_eq_moe.symm

theorem whole_attn (h : cfg.Valid) : h.attn.whole = h.tpAxis := by
  ext
  · rfl
  · exact h.span_attn
  · rfl

theorem whole_moe (h : cfg.Valid) : h.moe.whole = h.tpAxis := by
  ext
  · rfl
  · exact h.span_moe
  · rfl

theorem num_tp_groups (h : cfg.Valid) : cfg.worldSize / cfg.tpSize = cfg.ppSize := by
  rw [h.worldSize_eq]
  exact Nat.mul_div_cancel_left _ h.tp_pos

theorem num_pp_groups (h : cfg.Valid) : cfg.worldSize / cfg.ppSize = cfg.tpSize := by
  rw [h.worldSize_eq]
  exact Nat.mul_div_cancel _ h.pp_pos

end MultiAxisConfig.Valid

section Builders

variable {cfg : MultiAxisConfig}

theorem buildTpGroups_eq (h : cfg.Valid) : buildTpGroups cfg = h.tpAxis.groups := by
  rw [h.tpAxis.groups_of_stride_one rfl]
  unfold buildTpGroups
  simp only [h.num_tp_groups, Nat.succ_mul, collect_add]
  rfl

theorem buildPpGroups_eq (h : cfg.Valid) : buildPpGroups cfg = h.ppAxis.groups := by
  have hrow (idx : Nat) (hidx : idx < cfg.tpSize) :
      stepBy idx cfg.worldSize cfg.tpSize = h.ppAxis.row 0 idx := by
    unfold Axis.row
    rw [Nat.zero_mul, Nat.zero_add]
    rw [h.worldSize_eq]
    apply stepBy_eq _ hidx
    exact Nat.add_comm _ _
  unfold buildPpGroups Axis.groups
  rw [show h.ppAxis.blocks = 1 from rfl, flatMap_range_one]
  simp only [h.num_pp_groups]
  apply List.map_congr_left
  intro idx hidx
  exact hrow idx (List.mem_range.mp hidx)

theorem buildAttnTpGroups_eq (h : cfg.Valid) :
    buildAttnTpGroups cfg = h.attn.innerAxis.groups := by
  unfold buildAttnTpGroups
  simp only [h.num_tp_groups, Nat.succ_mul, ← Nat.add_assoc, collect_add]
  split
  · rename_i htp
    rw [h.attn.inner_eq_span (htp.trans h.span_attn.symm), h.whole_attn, buildTpGroups_eq h]
  · rw [h.attn.groups_inner, h.span_attn]
    rfl

theorem buildMoeTpGroups_eq (h : cfg.Valid) :
    buildMoeTpGroups cfg = h.moe.innerAxis.groups := by
  unfold buildMoeTpGroups
  simp only [h.num_tp_groups, Nat.succ_mul, ← Nat.add_assoc, collect_add]
  split
  · rename_i htp
    rw [h.moe.inner_eq_span (htp.trans h.span_moe.symm), h.whole_moe, buildTpGroups_eq h]
  · rw [h.moe.groups_inner, h.span_moe]
    rfl

theorem buildAttnCpGroups_eq (h : cfg.Valid) :
    buildAttnCpGroups cfg = h.attn.midAxis.groups := by
  unfold buildAttnCpGroups
  split
  · rename_i hcp
    rw [h.attn.mid_eq_span (hcp.trans h.span_attn.symm), h.whole_attn, buildTpGroups_eq h]
  · have hrow (t d o : Nat) :
        stepBy (t * cfg.tpSize + d * cfg.attnTpSize * cfg.attnCpSize + o)
            (t * cfg.tpSize + (d + 1) * cfg.attnTpSize * cfg.attnCpSize + o) cfg.attnTpSize =
          List.range' (t * cfg.tpSize + d * (cfg.attnTpSize * cfg.attnCpSize) + o)
            cfg.attnCpSize cfg.attnTpSize := by
      rw [← Nat.mul_assoc, ← stepBy_add h.attnTp_pos]
      congr 1
      ring
    simp only [h.num_tp_groups, hrow]
    rw [h.attn.groups_mid, h.span_attn]
    rfl

theorem buildMoeEpGroups_eq (h : cfg.Valid) :
    buildMoeEpGroups cfg = h.moe.midAxis.groups := by
  unfold buildMoeEpGroups
  split
  · rename_i hep
    rw [h.moe.mid_eq_span (hep.trans h.span_moe.symm), h.whole_moe, buildTpGroups_eq h]
  · have hst (t d o : Nat) :
        t * cfg.tpSize + d * cfg.epSize * cfg.moeTpSize + o =
          t * cfg.tpSize + d * (cfg.moeTpSize * cfg.epSize) + o := by ring
    simp only [h.num_tp_groups, hst, Nat.mul_comm cfg.epSize cfg.moeTpSize,
      stepBy_add h.moeTp_pos]
    rw [h.moe.groups_mid, h.span_moe]
    rfl

theorem buildAttnDpGroups_eq (h : cfg.Valid) :
    buildAttnDpGroups cfg = h.attn.outerAxis.groups := by
  rw [h.attn.groups_outer, h.span_attn]
  have hspan : cfg.attnTpSize * cfg.attnCpSize * cfg.attnDpSize = cfg.tpSize := by
    rw [h.tp_eq_attn, Nat.mul_assoc]
  have hinner : h.attn.inner * h.attn.mid = cfg.attnCpSize * cfg.attnTpSize := Nat.mul_comm _ _
  unfold buildAttnDpGroups
  split
  · -- Every rank is a group of its own.
    rename_i hdp
    rw [hdp, Nat.mul_one, Nat.mul_comm] at hspan
    rw [hinner, hspan, show h.attn.outer = 1 from hdp]
    rw [h.worldSize_eq, Nat.mul_comm, map_range_mul]
    rfl
  · simp only [h.num_tp_groups]
    apply List.flatMap_congr
    intro t _
    rw [hinner, map_range_mul]
    apply List.flatMap_congr
    intro c hc
    apply List.map_congr_left
    intro o ho
    have hlt : c * cfg.attnTpSize + o < cfg.attnTpSize * cfg.attnCpSize := by
      have hmul := Nat.mul_le_mul_right cfg.attnTpSize (Nat.succ_le_of_lt (List.mem_range.mp hc))
      have hlast := List.mem_range.mp ho
      rw [Nat.succ_mul] at hmul
      rw [Nat.mul_comm cfg.attnTpSize]
      omega
    rw [Nat.mul_comm cfg.attnCpSize, Nat.add_assoc]
    apply stepBy_eq _ hlt
    have hsteps : cfg.attnTpSize * cfg.attnCpSize * h.attn.outer = cfg.tpSize := hspan
    rw [hsteps]
    omega

/-- With more context ranks than expert data ranks the two axes share their groups. -/
theorem buildMoeDpGroups_eq (h : cfg.Valid) : buildMoeDpGroups cfg = h.moeDpAxis.groups := by
  have hspan : cfg.moeTpSize * cfg.epSize * cfg.moeDpSize = cfg.tpSize := by
    rw [h.tp_eq_moe, Nat.mul_assoc]
  unfold buildMoeDpGroups MultiAxisConfig.Valid.moeDpAxis
  split
  · exact buildAttnCpGroups_eq h
  split
  · rename_i hdp
    rw [h.moe.outer_eq_span (hdp.trans h.span_moe.symm), h.whole_moe, buildTpGroups_eq h]
  · have hen (t o : Nat) :
        (t + 1) * cfg.tpSize + o =
          t * cfg.tpSize + o + cfg.moeTpSize * cfg.epSize * cfg.moeDpSize := by
      rw [hspan]
      ring
    simp only [h.num_tp_groups, hen, stepBy_add (Nat.mul_pos h.moeTp_pos h.ep_pos)]
    rw [h.moe.groups_outer, h.span_moe]
    rfl

end Builders

section Coordinates

variable {cfg : MultiAxisConfig} (h : cfg.Valid)

theorem total_tpAxis : h.tpAxis.total = cfg.worldSize := by
  rw [h.worldSize_eq]
  unfold Axis.total Axis.block MultiAxisConfig.Valid.tpAxis
  ring

theorem total_ppAxis : h.ppAxis.total = cfg.worldSize :=
  (Nat.one_mul _).trans h.worldSize_eq.symm

theorem cells_attn : h.attn.blocks * h.attn.span = cfg.worldSize := by
  rw [h.span_attn, h.worldSize_eq]
  exact Nat.mul_comm _ _

theorem cells_moe : h.moe.blocks * h.moe.span = cfg.worldSize := by
  rw [h.span_moe, h.worldSize_eq]
  exact Nat.mul_comm _ _

theorem total_moeDpAxis : h.moeDpAxis.total = cfg.worldSize := by
  unfold MultiAxisConfig.Valid.moeDpAxis
  split
  · exact h.attn.total_mid.trans (cells_attn h)
  · exact h.moe.total_outer.trans (cells_moe h)

/-- The coordinates of a rank, as the digits of the axes. -/
def coord (r : Nat) : RankCoord where
  worldRank := r
  tpRank := h.tpAxis.digit r
  ppRank := h.ppAxis.digit r
  attnTpRank := h.attn.innerAxis.digit r
  attnDpRank := h.attn.outerAxis.digit r
  attnCpRank := h.attn.midAxis.digit r
  moeTpRank := h.moe.innerAxis.digit r
  moeEpRank := h.moe.midAxis.digit r
  moeDpRank := h.moe.outerAxis.digit r

theorem digit_tpAxis (r : Nat) : h.tpAxis.digit r = r % cfg.tpSize := by
  unfold Axis.digit MultiAxisConfig.Valid.tpAxis
  rw [Nat.div_one]

theorem digit_ppAxis {r : Nat} (hr : r < cfg.worldSize) : h.ppAxis.digit r = r / cfg.tpSize :=
  Nat.mod_eq_of_lt (Nat.div_lt_of_lt_mul (hr.trans_eq h.worldSize_eq))

theorem fromWorldRank_eq {r : Nat} (hr : r < cfg.worldSize) :
    RankCoord.fromWorldRank cfg r = .ok (coord h r) := by
  unfold RankCoord.fromWorldRank coord
  rw [(MultiAxisConfig.validate_iff h.toWordSized).mpr h, digit_tpAxis, digit_ppAxis h hr]
  simp only [Grid.digit_inner, Grid.digit_mid, Grid.digit_outer, h.span_attn, h.span_moe]
  exact if_neg (Nat.not_le.mpr hr)

/-- A rank with coordinates is a rank of the world. -/
theorem fromWorldRank_ok {r : Nat} {c : RankCoord} (hc : RankCoord.fromWorldRank cfg r = .ok c) :
    r < cfg.worldSize ∧ c = coord h r := by
  by_cases hr : r < cfg.worldSize
  · refine ⟨hr, ?_⟩
    rw [fromWorldRank_eq h hr] at hc
    exact (Except.ok.inj hc).symm
  · unfold RankCoord.fromWorldRank at hc
    rw [(MultiAxisConfig.validate_iff h.toWordSized).mpr h] at hc
    have hge : r ≥ cfg.worldSize := Nat.not_lt.mp hr
    simp [hge, bind, Except.bind, throw, throwThe, MonadExceptOf.throw] at hc

end Coordinates

end Arle.TensorParallel
