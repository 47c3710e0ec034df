import Mathlib
import Arle.Lib.Word

/-!
# Axis sizes, rank coordinates and rank groups

The layout of the ranks over the parallel axes, as pure arithmetic: the accepted axis sizes, the
coordinates of a rank, and the lists of groups that the collectives run over. Sizes count
devices and are words: the products of sizes that are checked, and the size of the world, wrap.
No number that a builder computes from sizes that fit (`WordSized`) is over the size of the world
and that of one tensor group, so those are exact.
-/

namespace Arle.TensorParallel

structure MultiAxisConfig where
  tpSize : Nat
  ppSize : Nat
  epSize : Nat
  attnDpSize : Nat
  attnCpSize : Nat
  moeDpSize : Nat
deriving DecidableEq, Repr

namespace MultiAxisConfig

def validate (self : MultiAxisConfig) : Except String Unit := do
  if self.tpSize = 0 ∨ self.ppSize = 0 ∨ self.epSize = 0 ∨ self.attnDpSize = 0 ∨
      self.attnCpSize = 0 ∨ self.moeDpSize = 0 then
    throw (s!"all axis sizes must be >= 1 (tp={self.tpSize}, pp={self.ppSize}, " ++
      s!"ep={self.epSize}, attn_dp={self.attnDpSize}, attn_cp={self.attnCpSize}, " ++
      s!"moe_dp={self.moeDpSize})")
  let attnDiv := Word.wrappingMul 64 self.attnDpSize self.attnCpSize
  if self.tpSize % attnDiv ≠ 0 then
    throw (s!"assert tp_size % (attn_dp_size * attn_cp_size) == 0 failed: tp={self.tpSize}, " ++
      s!"attn_dp={self.attnDpSize}, attn_cp={self.attnCpSize}")
  let moeDiv := Word.wrappingMul 64 self.epSize self.moeDpSize
  if self.tpSize % moeDiv ≠ 0 then
    throw (s!"assert tp_size % (ep_size * moe_dp_size) == 0 failed: tp={self.tpSize}, " ++
      s!"ep={self.epSize}, moe_dp={self.moeDpSize}")

def worldSize (self : MultiAxisConfig) : Nat := Word.wrappingMul 64 self.tpSize self.ppSize

def attnTpSize (self : MultiAxisConfig) : Nat := self.tpSize / self.attnDpSize / self.attnCpSize

def moeTpSize (self : MultiAxisConfig) : Nat := self.tpSize / self.epSize / self.moeDpSize

end MultiAxisConfig

structure RankCoord where
  worldRank : Nat
  tpRank : Nat
  ppRank : Nat
  attnTpRank : Nat
  attnDpRank : Nat
  attnCpRank : Nat
  moeTpRank : Nat
  moeEpRank : Nat
  moeDpRank : Nat
deriving DecidableEq, Repr

def RankCoord.fromWorldRank (cfg : MultiAxisConfig) (worldRank : Nat) :
    Except String RankCoord := do
  cfg.validate
  let world := cfg.worldSize
  if worldRank ≥ world then
    throw s!"world_rank ({worldRank}) must be < world_size ({world})"
  let tpRank := worldRank % cfg.tpSize
  let ppRank := worldRank / cfg.tpSize
  let attnTp := cfg.attnTpSize
  let attnTpRank := tpRank % attnTp
  let attnCpRank := tpRank / attnTp % cfg.attnCpSize
  let attnDpRank := tpRank / (attnTp * cfg.attnCpSize)
  let moeTp := cfg.moeTpSize
  let moeTpRank := tpRank % moeTp
  let moeEpRank := tpRank / moeTp % cfg.epSize
  let moeDpRank := tpRank / (moeTp * cfg.epSize)
  return {
    worldRank
    tpRank
    ppRank
    attnTpRank
    attnDpRank
    attnCpRank
    moeTpRank
    moeEpRank
    moeDpRank }

/-- The half-open range `st..en`. -/
def collect (st en : Nat) : List Nat := List.range' st (en - st)

/-- `(st..en).step_by(step)`: every `step`-th number of the range, the first one included. -/
def stepBy (st en step : Nat) : List Nat := List.range' st ((en - st + (step - 1)) / step) step

def buildTpGroups (cfg : MultiAxisConfig) : List (List Nat) :=
  let world := cfg.worldSize
  let numTpGroups := world / cfg.tpSize
  (List.range numTpGroups).map fun tpGroupIdx =>
    let st := tpGroupIdx * cfg.tpSize
    let en := (tpGroupIdx + 1) * cfg.tpSize
    collect st en

def buildPpGroups (cfg : MultiAxisConfig) : List (List Nat) :=
  let world := cfg.worldSize
  let numPpGroups := world / cfg.ppSize
  (List.range numPpGroups).map fun ppGroupIdx => stepBy ppGroupIdx world numPpGroups

def buildAttnCpGroups (cfg : MultiAxisConfig) : List (List Nat) :=
  if cfg.attnCpSize = cfg.tpSize then
    buildTpGroups cfg
  else
    let world := cfg.worldSize
    let numTpGroups := world / cfg.tpSize
    let attnTp := cfg.attnTpSize
    (List.range numTpGroups).flatMap fun tpGroupIdx =>
      (List.range cfg.attnDpSize).flatMap fun dpIdx =>
        (List.range attnTp).map fun attnTpIdx =>
          let st := tpGroupIdx * cfg.tpSize + dpIdx * attnTp * cfg.attnCpSize + attnTpIdx
          let en := tpGroupIdx * cfg.tpSize + (dpIdx + 1) * attnTp * cfg.attnCpSize + attnTpIdx
          stepBy st en attnTp

def buildAttnTpGroups (cfg : MultiAxisConfig) : List (List Nat) :=
  let attnTp := cfg.attnTpSize
  if attnTp = cfg.tpSize then
    buildTpGroups cfg
  else
    let world := cfg.worldSize
    let numTpGroups := world / cfg.tpSize
    (List.range numTpGroups).flatMap fun tpGroupIdx =>
      (List.range (cfg.attnCpSize * cfg.attnDpSize)).map fun cpDpCombinedIdx =>
        let st := tpGroupIdx * cfg.tpSize + cpDpCombinedIdx * attnTp
        let en := tpGroupIdx * cfg.tpSize + (cpDpCombinedIdx + 1) * attnTp
        collect st en

def buildAttnDpGroups (cfg : MultiAxisConfig) : List (List Nat) :=
  if cfg.attnDpSize = 1 then
    (List.range cfg.worldSize).map fun r => [r]
  else
    let world := cfg.worldSize
    let numTpGroups := world / cfg.tpSize
    let attnTp := cfg.attnTpSize
    let stride := attnTp * cfg.attnCpSize
    (List.range numTpGroups).flatMap fun tpGroupIdx =>
      (List.range cfg.attnCpSize).flatMap fun cpIdx =>
        (List.range attnTp).map fun attnTpIdx =>
          let st := tpGroupIdx * cfg.tpSize + cpIdx * attnTp + attnTpIdx
          let en := tpGroupIdx * cfg.tpSize + cfg.tpSize
          stepBy st en stride

def buildMoeDpGroups (cfg : MultiAxisConfig) : List (List Nat) :=
  if cfg.attnCpSize > cfg.moeDpSize then
    buildAttnCpGroups cfg
  else if cfg.moeDpSize = cfg.tpSize then
    buildTpGroups cfg
  else
    let world := cfg.worldSize
    let numTpGroups := world / cfg.tpSize
    let moeTp := cfg.moeTpSize
    let stride := moeTp * cfg.epSize
    (List.range numTpGroups).flatMap fun tpGroupIdx =>
      (List.range (moeTp * cfg.epSize)).map fun tpEpCombinedIdx =>
        let st := tpGroupIdx * cfg.tpSize + tpEpCombinedIdx
        let en := (tpGroupIdx + 1) * cfg.tpSize + tpEpCombinedIdx
        stepBy st en stride

def buildMoeEpGroups (cfg : MultiAxisConfig) : List (List Nat) :=
  if cfg.epSize = cfg.tpSize then
    buildTpGroups cfg
  else
    let world := cfg.worldSize
    let numTpGroups := world / cfg.tpSize
    let moeTp := cfg.moeTpSize
    (List.range numTpGroups).flatMap fun tpGroupIdx =>
      (List.range cfg.moeDpSize).flatMap fun moeDpIdx =>
        (List.range moeTp).map fun moeTpIdx =>
          let st := tpGroupIdx * cfg.tpSize + moeDpIdx * cfg.epSize * moeTp + moeTpIdx
          let en := st + cfg.epSize * moeTp
          stepBy st en moeTp

def buildMoeTpGroups (cfg : MultiAxisConfig) : List (List Nat) :=
  let moeTp := cfg.moeTpSize
  if moeTp = cfg.tpSize then
    buildTpGroups cfg
  else
    let world := cfg.worldSize
    let numTpGroups := world / cfg.tpSize
    (List.range numTpGroups).flatMap fun tpGroupIdx =>
      (List.range (cfg.epSize * cfg.moeDpSize)).map fun epDpCombinedIdx =>
        let st := tpGroupIdx * cfg.tpSize + epDpCombinedIdx * moeTp
        let en := tpGroupIdx * cfg.tpSize + (epDpCombinedIdx + 1) * moeTp
        collect st en

/-- The products of the sizes fit a word, and so do the ranks past the last one in which a strided
range of a builder may end. -/
structure MultiAxisConfig.WordSized (cfg : MultiAxisConfig) : Prop where
  attn_lt : cfg.attnDpSize * cfg.attnCpSize < 2 ^ 64
  moe_lt : cfg.epSize * cfg.moeDpSize < 2 ^ 64
  world_le : cfg.tpSize * cfg.ppSize + cfg.tpSize ≤ 2 ^ 64

/-- What `validate` accepts of the sizes that fit. -/
structure MultiAxisConfig.Valid (cfg : MultiAxisConfig) : Prop extends cfg.WordSized where
  tp_pos : 0 < cfg.tpSize
  pp_pos : 0 < cfg.ppSize
  ep_pos : 0 < cfg.epSize
  attnDp_pos : 0 < cfg.attnDpSize
  attnCp_pos : 0 < cfg.attnCpSize
  moeDp_pos : 0 < cfg.moeDpSize
  attn_dvd : cfg.attnDpSize * cfg.attnCpSize ∣ cfg.tpSize
  moe_dvd : cfg.epSize * cfg.moeDpSize ∣ cfg.tpSize

namespace MultiAxisConfig

variable {cfg : MultiAxisConfig}

theorem validate_iff (hsize : cfg.WordSized) : cfg.validate = .ok () ↔ cfg.Valid := by
  unfold validate
  rw [Word.wrappingMul_of_lt hsize.attn_lt, Word.wrappingMul_of_lt hsize.moe_lt]
  constructor
  · intro h
    split at h
    · cases h
    · rename_i hpos
      simp only at h
      split at h
      · cases h
      · rename_i hattn
        split at h
        · cases h
        · rename_i hmoe
          refine ⟨hsize, by omega, by omega, by omega, by omega, by omega, by omega, ?_, ?_⟩
          · exact Nat.dvd_of_mod_eq_zero (not_not.mp hattn)
          · exact Nat.dvd_of_mod_eq_zero (not_not.mp hmoe)
  · intro h
    have h₁ := h.tp_pos
    have h₂ := h.pp_pos
    have h₃ := h.ep_pos
    have h₄ := h.attnDp_pos
    have h₅ := h.attnCp_pos
    have h₆ := h.moeDp_pos
    rw [if_neg (by omega)]
    simp only
    rw [if_neg (not_not.mpr (Nat.mod_eq_zero_of_dvd h.attn_dvd))]
    rw [if_neg (not_not.mpr (Nat.mod_eq_zero_of_dvd h.moe_dvd))]
    rfl

/-- Three data ranks for each of `(2 ^ 65 + 1) / 3` context ranks wrap to the one device there is. -/
example : validate ⟨1, 1, 1, 3, 12297829382473034411, 1⟩ = .ok () := rfl

theorem Valid.worldSize_eq (h : cfg.Valid) : cfg.worldSize = cfg.tpSize * cfg.ppSize := by
  have := h.world_le
  have := h.tp_pos
  exact Word.wrappingMul_of_lt (by omega)

end MultiAxisConfig

end Arle.TensorParallel
