import Mathlib
import Arle.Lib.Dot
import Arle.Lib.Word

/-!
# Expert placement

The contiguous ownership of experts by the ranks of an expert-parallel group, the remapping of
global expert ids to local ones, and the masking formula for fused expert dispatch. Sizes count
experts and ranks and are words; the products of the formula wrap, those of a group are at most its
number of experts. An index is an integer, and negative ones are masked.
-/

namespace Arle.Distributed

/-- The experts of a rank. The experts are divided evenly over the ranks. -/
structure ExpertGroup where
  rank : Nat
  worldSize : Nat
  numExperts : Nat
  expertsPerRank : Nat
  expertToRank : List Nat
  rank_lt : rank < worldSize
  numExperts_pos : 0 < numExperts
  numExperts_eq : expertsPerRank * worldSize = numExperts
  expertToRank_eq :
    expertToRank = (List.range numExperts).map fun expertIdx => expertIdx / expertsPerRank

namespace ExpertGroup

def new (rank worldSize numExperts : Nat) : Except String ExpertGroup :=
  if _hworld : worldSize = 0 then
    .error "expert world_size must be >= 1"
  else if hrank : rank ≥ worldSize then
    .error s!"expert rank {rank} must be < world_size {worldSize}"
  else if hpos : numExperts = 0 then
    .error "num_experts must be >= 1"
  else if hdiv : numExperts % worldSize ≠ 0 then
    .error s!"num_experts {numExperts} must be divisible by world_size {worldSize}"
  else
    .ok {
      rank
      worldSize
      numExperts
      expertsPerRank := numExperts / worldSize
      expertToRank := (List.range numExperts).map fun expertIdx =>
        expertIdx / (numExperts / worldSize)
      rank_lt := Nat.lt_of_not_le hrank
      numExperts_pos := Nat.pos_of_ne_zero hpos
      numExperts_eq := Nat.div_mul_cancel (Nat.dvd_of_mod_eq_zero (not_not.mp hdiv))
      expertToRank_eq := rfl }

variable (self : ExpertGroup)

def rankForExpert (expertIdx : Nat) : Option Nat := self.expertToRank[expertIdx]?

def ownsExpert (expertIdx : Nat) : Bool := self.rankForExpert expertIdx = some self.rank

/-- The start of `local_expert_range`. -/
def localExpertStart : Nat := self.rank * self.expertsPerRank

/-- `local_expert_range`. -/
def localExpertRange : List Nat := List.range' self.localExpertStart self.expertsPerRank

def localExpertIdx (expertIdx : Nat) : Option Nat :=
  if !self.ownsExpert expertIdx then none
  else some (expertIdx - self.localExpertStart)

/-- The local id of one index of the list. -/
def maskIndexToLocal (expertIdx : Int) : Except String Int :=
  if expertIdx < 0 then
    .ok (-1)
  else if expertIdx.toNat ≥ self.numExperts then
    .error s!"expert index {expertIdx.toNat} out of range for num_experts {self.numExperts}"
  else
    .ok ((self.localExpertIdx expertIdx.toNat).elim (-1) fun idx => (idx : Int))

def maskIndicesToLocal (indices : List Int) : Except String (List Int) :=
  indices.mapM self.maskIndexToLocal

end ExpertGroup

/-- The masking formula for one index; `none` when it panics, as it divides by a product that has
wrapped to zero. -/
def tilekernelsMaskIndex (numExperts perGpu tpRank numTpRanks : Nat) (expertIdx : Int) :
    Option (Except String Int) :=
  let perDp := Word.wrappingMul 64 numTpRanks perGpu
  if expertIdx < 0 then
    some (.ok (-1))
  else if expertIdx.toNat ≥ numExperts then
    some (.error s!"expert index {expertIdx.toNat} out of range for num_experts {numExperts}")
  else if expertIdx.toNat / perGpu % numTpRanks ≠ tpRank then
    some (.ok (-1))
  else if perDp = 0 then
    none
  else
    let value := expertIdx.toNat - tpRank * perGpu
    let dpRank := value / perDp
    -- the outer subtraction saturates, the inner one wraps
    let gaps := Word.wrappingMul 64 dpRank (Word.wrappingSub 64 perDp perGpu)
    some (.ok ((value - gaps : Nat) : Int))

def tilekernelsMaskIndicesByTpLayout (indices : List Int) (numExperts numEpRanks tpRank
    numTpRanks : Nat) : Option (Except String (List Int)) :=
  if numExperts = 0 then
    some (.error "num_experts must be >= 1")
  else if numEpRanks = 0 then
    some (.error "num_ep_ranks must be >= 1")
  else if numTpRanks = 0 then
    some (.error "num_tp_ranks must be >= 1")
  else if tpRank ≥ numTpRanks then
    some (.error s!"tp_rank {tpRank} must be < num_tp_ranks {numTpRanks}")
  else if numExperts % numEpRanks ≠ 0 then
    some (.error s!"num_experts {numExperts} must be divisible by num_ep_ranks {numEpRanks}")
  else
    let perGpu := numExperts / numEpRanks
    (indices.mapM fun expertIdx =>
      ExceptT.mk (tilekernelsMaskIndex numExperts perGpu tpRank numTpRanks expertIdx)).run

/-! ## Groups -/

namespace ExpertGroup

theorem new_ok {rank worldSize numExperts : Nat} {group : ExpertGroup}
    (h : new rank worldSize numExperts = .ok group) : group.rank = rank ∧
      group.worldSize = worldSize ∧ group.numExperts = numExperts ∧
      numExperts % worldSize = 0 ∧ group.expertsPerRank = numExperts / worldSize := by
  unfold new at h
  split at h
  · cases h
  · split at h
    · cases h
    · split at h
      · cases h
      · split at h
        · cases h
        · rename_i hdiv
          cases h
          exact ⟨rfl, rfl, rfl, not_not.mp hdiv, rfl⟩

variable (self : ExpertGroup)

theorem expertsPerRank_pos : 0 < self.expertsPerRank := by
  refine Nat.pos_of_ne_zero fun hzero => ?_
  have := self.numExperts_eq
  rw [hzero, Nat.zero_mul] at this
  exact absurd self.numExperts_pos (by omega)

theorem rankForExpert_eq (expertIdx : Nat) : self.rankForExpert expertIdx =
    if expertIdx < self.numExperts then some (expertIdx / self.expertsPerRank) else none := by
  rw [rankForExpert, self.expertToRank_eq, List.getElem?_map]
  split
  · rename_i hlt
    rw [List.getElem?_range hlt]
    rfl
  · rename_i hge
    rw [List.getElem?_eq_none (by rw [List.length_range]; omega)]
    rfl

theorem ownsExpert_iff {expertIdx : Nat} : self.ownsExpert expertIdx = true ↔
    expertIdx < self.numExperts ∧ expertIdx / self.expertsPerRank = self.rank := by
  rw [ownsExpert, decide_eq_true_eq, rankForExpert_eq]
  split
  · rename_i hlt
    simp [hlt]
  · rename_i hge
    simp [hge]

end ExpertGroup

/-! ## Compaction -/

/-- A set of natural numbers that contains all numbers below its own is an initial segment. -/
theorem eq_range_of_downward {S : Finset Nat} (h : ∀ a ∈ S, ∀ b < a, b ∈ S) :
    S = Finset.range S.card := by
  refine Finset.eq_of_subset_of_card_le (fun a ha => ?_) (by rw [Finset.card_range])
  have hsub : Finset.range (a + 1) ⊆ S := by
    intro b hb
    rcases Nat.lt_or_eq_of_le (Nat.le_of_lt_succ (Finset.mem_range.mp hb)) with hlt | rfl
    · exact h a ha b hlt
    · exact ha
  have := Finset.card_le_card hsub
  rw [Finset.card_range] at this
  exact Finset.mem_range.mpr this

/-- The experts of a TP rank are the blocks `tpRank`, `tpRank + numTpRanks`, ... of `perGpu`
experts each. -/
def Owned (numExperts perGpu tpRank numTpRanks expertIdx : Nat) : Prop :=
  expertIdx < numExperts ∧ expertIdx / perGpu % numTpRanks = tpRank

instance (numExperts perGpu tpRank numTpRanks : Nat) :
    DecidablePred (Owned numExperts perGpu tpRank numTpRanks) := fun _ => by
  unfold Owned
  infer_instance

/-- The local id of an expert: the blocks of its rank before it, and its place in its block. -/
def localId (perGpu numTpRanks expertIdx : Nat) : Nat :=
  expertIdx / perGpu / numTpRanks * perGpu + expertIdx % perGpu

section Formula

variable {numExperts perGpu tpRank numTpRanks expertIdx : Nat}

/-- An expert in terms of its block and its place there. -/
theorem expert_eq (perGpu numTpRanks expertIdx : Nat) :
    expertIdx = expertIdx / perGpu / numTpRanks * (numTpRanks * perGpu) +
      expertIdx / perGpu % numTpRanks * perGpu + expertIdx % perGpu := by
  have hblock := Nat.div_add_mod (expertIdx / perGpu) numTpRanks
  have hplace := Nat.div_add_mod expertIdx perGpu
  calc expertIdx = perGpu * (expertIdx / perGpu) + expertIdx % perGpu := hplace.symm
    _ = perGpu * (numTpRanks * (expertIdx / perGpu / numTpRanks) +
          expertIdx / perGpu % numTpRanks) + expertIdx % perGpu := by rw [hblock]
    _ = _ := by ring

/-- The formula gives the local id; the saturating subtraction does not saturate. -/
theorem formula_eq (hgpu : 0 < perGpu) (htp : 0 < numTpRanks)
    (h : expertIdx / perGpu % numTpRanks = tpRank) :
    expertIdx - tpRank * perGpu - (expertIdx - tpRank * perGpu) / (numTpRanks * perGpu) *
      (numTpRanks * perGpu - perGpu) = localId perGpu numTpRanks expertIdx := by
  have hexpert := expert_eq perGpu numTpRanks expertIdx
  rw [h] at hexpert
  have hplace := Nat.mod_lt expertIdx hgpu
  unfold localId
  generalize expertIdx / perGpu / numTpRanks = q at *
  generalize expertIdx % perGpu = r at *
  have hvalue : expertIdx - tpRank * perGpu = numTpRanks * perGpu * q + r := by
    have := Nat.mul_comm q (numTpRanks * perGpu)
    omega
  have hle : perGpu ≤ numTpRanks * perGpu := Nat.le_mul_of_pos_left _ htp
  have hquot : (numTpRanks * perGpu * q + r) / (numTpRanks * perGpu) = q := by
    rw [Nat.mul_add_div (Nat.mul_pos htp hgpu), Nat.div_eq_of_lt (Nat.lt_of_lt_of_le hplace hle),
      Nat.add_zero]
  rw [hvalue, hquot, Nat.mul_sub, Nat.mul_comm q (numTpRanks * perGpu)]
  have := Nat.mul_le_mul_left q hle
  rw [Nat.mul_comm q (numTpRanks * perGpu)] at this
  omega

theorem localId_strictMonoOn (hgpu : 0 < perGpu) :
    StrictMonoOn (localId perGpu numTpRanks)
      {expertIdx | expertIdx / perGpu % numTpRanks = tpRank} := by
  intro e he e' he' hlt
  have heq := expert_eq perGpu numTpRanks e
  have heq' := expert_eq perGpu numTpRanks e'
  rw [show e / perGpu % numTpRanks = tpRank from he] at heq
  rw [show e' / perGpu % numTpRanks = tpRank from he'] at heq'
  have hle : e / perGpu / numTpRanks ≤ e' / perGpu / numTpRanks :=
    Nat.div_le_div_right (Nat.div_le_div_right (Nat.le_of_lt hlt))
  have hplace := Nat.mod_lt e hgpu
  unfold localId
  rcases Nat.lt_or_eq_of_le hle with hblock | hblock
  · -- a later block of the rank
    have := Nat.mul_le_mul_right perGpu (Nat.succ_le_of_lt hblock)
    rw [Nat.succ_mul] at this
    omega
  · rw [hblock] at heq ⊢
    omega

/-- Every number below a local id is the local id of an earlier expert of the same rank. -/
theorem localId_downward (hgpu : 0 < perGpu) (htp : tpRank < numTpRanks)
    (h : expertIdx / perGpu % numTpRanks = tpRank) {idx : Nat}
    (hlt : idx < localId perGpu numTpRanks expertIdx) : ∃ earlier < expertIdx,
      earlier / perGpu % numTpRanks = tpRank ∧ localId perGpu numTpRanks earlier = idx := by
  let block := idx / perGpu * numTpRanks + tpRank
  have hpos : 0 < numTpRanks := Nat.zero_lt_of_lt htp
  have hdiv : (block * perGpu + idx % perGpu) / perGpu = block := by
    rw [Nat.mul_comm, Nat.mul_add_div hgpu, Nat.div_eq_of_lt (Nat.mod_lt _ hgpu), Nat.add_zero]
  have hmod : (block * perGpu + idx % perGpu) % perGpu = idx % perGpu := by
    rw [Nat.mul_add_mod_self_right, Nat.mod_mod]
  have hrank : block % numTpRanks = tpRank := by
    rw [Nat.mul_add_mod_self_right, Nat.mod_eq_of_lt htp]
  have hgroup : block / numTpRanks = idx / perGpu := by
    show (idx / perGpu * numTpRanks + tpRank) / numTpRanks = idx / perGpu
    rw [Nat.mul_comm, Nat.mul_add_div hpos, Nat.div_eq_of_lt htp, Nat.add_zero]
  have hlocal : localId perGpu numTpRanks (block * perGpu + idx % perGpu) = idx := by
    rw [localId, hdiv, hmod, hgroup, Nat.mul_comm, Nat.div_add_mod]
  refine ⟨block * perGpu + idx % perGpu, ?_, by rw [hdiv, hrank], hlocal⟩
  refine Nat.lt_of_not_le fun hle => ?_
  rcases Nat.lt_or_eq_of_le hle with hlt' | heq
  · have hmono : StrictMonoOn (localId perGpu numTpRanks)
        {expertIdx | expertIdx / perGpu % numTpRanks = tpRank} := localId_strictMonoOn hgpu
    have := hmono h (show _ % _ = _ by rw [hdiv, hrank]) hlt'
    omega
  · rw [heq, hlocal] at hlt
    exact Nat.lt_irrefl _ hlt

/-- The local ids of a rank are the numbers below the number of its experts. -/
theorem localId_bijOn (hgpu : 0 < perGpu) (htp : tpRank < numTpRanks) :
    Set.BijOn (localId perGpu numTpRanks)
      {expertIdx | Owned numExperts perGpu tpRank numTpRanks expertIdx}
      (Set.Iio ((Finset.range numExperts).filter
        (Owned numExperts perGpu tpRank numTpRanks)).card) := by
  let owned := (Finset.range numExperts).filter (Owned numExperts perGpu tpRank numTpRanks)
  have hmem : ∀ e, e ∈ owned ↔ Owned numExperts perGpu tpRank numTpRanks e := by
    intro e
    rw [Finset.mem_filter, Finset.mem_range]
    exact ⟨And.right, fun h => ⟨h.1, h⟩⟩
  have hmono : StrictMonoOn (localId perGpu numTpRanks)
      {expertIdx | expertIdx / perGpu % numTpRanks = tpRank} := localId_strictMonoOn hgpu
  have hinj : Set.InjOn (localId perGpu numTpRanks)
      {e | Owned numExperts perGpu tpRank numTpRanks e} :=
    fun e he e' he' heq => hmono.injOn he.2 he'.2 heq
  have himage : owned.image (localId perGpu numTpRanks) = Finset.range owned.card := by
    have hcard : (owned.image (localId perGpu numTpRanks)).card = owned.card :=
      Finset.card_image_of_injOn fun e he e' he' heq =>
        hinj ((hmem e).mp he) ((hmem e').mp he') heq
    rw [← hcard]
    refine eq_range_of_downward fun a ha b hb => ?_
    obtain ⟨e, he, rfl⟩ := Finset.mem_image.mp ha
    obtain ⟨hlt, hrank⟩ := (hmem e).mp he
    obtain ⟨earlier, hearlier, hrank', rfl⟩ := localId_downward hgpu htp hrank hb
    exact Finset.mem_image_of_mem _ ((hmem earlier).mpr ⟨Nat.lt_trans hearlier hlt, hrank'⟩)
  refine ⟨fun e he => ?_, hinj, fun idx hidx => ?_⟩
  · have := Finset.mem_image_of_mem (localId perGpu numTpRanks) ((hmem e).mpr he)
    rw [himage] at this
    exact Finset.mem_range.mp this
  · have : idx ∈ owned.image (localId perGpu numTpRanks) := by
      rw [himage]
      exact Finset.mem_range.mpr hidx
    obtain ⟨e, he, rfl⟩ := Finset.mem_image.mp this
    exact ⟨e, (hmem e).mp he, rfl⟩

end Formula

/-! ## The two maskings -/

/-- Calls none of which panics. -/
theorem run_mapM_some (f : Int → Except String Int) (indices : List Int) :
    (indices.mapM fun i => (ExceptT.mk (some (f i)) : ExceptT String Option Int)).run =
      some (indices.mapM f) := by
  induction indices with
  | nil => rfl
  | cons i indices ih =>
    rw [List.mapM_cons, List.mapM_cons]
    cases hi : f i with
    | error e => rfl
    | ok idx =>
      have hrest : (indices.mapM fun i => (ExceptT.mk (some (f i)) : ExceptT String Option Int)) =
          ExceptT.mk (some (indices.mapM f)) := ih
      rw [hrest]
      cases indices.mapM f with
      | error e => rfl
      | ok rest => rfl

/-- The local id of an expert that the rank owns; the other experts are masked. -/
def maskUnowned (numExperts perGpu tpRank numTpRanks : Nat) (i : Int) : Except String Int :=
  if i < 0 then
    .ok (-1)
  else if i.toNat ≥ numExperts then
    .error s!"expert index {i.toNat} out of range for num_experts {numExperts}"
  else
    .ok (if Owned numExperts perGpu tpRank numTpRanks i.toNat then
      (localId perGpu numTpRanks i.toNat : Int) else -1)

section Masking

variable {numExperts numEpRanks tpRank numTpRanks : Nat}

theorem perGpu_pos (hdiv : numExperts % numEpRanks = 0) (hpos : 0 < numExperts) :
    0 < numExperts / numEpRanks := by
  have := Nat.div_mul_cancel (Nat.dvd_of_mod_eq_zero hdiv)
  refine Nat.pos_of_ne_zero fun hzero => ?_
  rw [hzero, Nat.zero_mul] at this
  omega

/-- The masking of one index, where the experts of a group of TP ranks fit a word. -/
theorem tilekernelsMaskIndex_eq {perGpu : Nat} (hexperts : numExperts < 2 ^ 64)
    (hword : numTpRanks * perGpu < 2 ^ 64) (hgpu : 0 < perGpu) (htp : 0 < numTpRanks) (i : Int) :
    tilekernelsMaskIndex numExperts perGpu tpRank numTpRanks i =
      some (maskUnowned numExperts perGpu tpRank numTpRanks i) := by
  unfold tilekernelsMaskIndex maskUnowned
  dsimp only
  rw [Word.wrappingMul_of_lt hword]
  by_cases hneg : i < 0
  · rw [if_pos hneg, if_pos hneg]
  rw [if_neg hneg, if_neg hneg]
  by_cases hge : i.toNat ≥ numExperts
  · rw [if_pos hge, if_pos hge]
  rw [if_neg hge, if_neg hge]
  by_cases howned : i.toNat / perGpu % numTpRanks = tpRank
  · have hdp : 0 < numTpRanks * perGpu := Nat.mul_pos htp hgpu
    have hle : perGpu ≤ numTpRanks * perGpu := Nat.le_mul_of_pos_left _ htp
    have hgaps : (i.toNat - tpRank * perGpu) / (numTpRanks * perGpu) *
        (numTpRanks * perGpu - perGpu) ≤ i.toNat - tpRank * perGpu :=
      Nat.le_trans (Nat.mul_le_mul_left _ (Nat.sub_le _ _)) (Nat.div_mul_le_self _ _)
    rw [if_neg (not_not.mpr howned), if_neg (by omega), Word.wrappingSub_of_le hle hword,
      Word.wrappingMul_of_lt (by omega), formula_eq hgpu htp howned,
      if_pos ⟨Nat.lt_of_not_le hge, howned⟩]
  · rw [if_pos howned, if_neg fun h => howned h.2]

/-- The masking of a list, in the same case. -/
theorem tilekernels_eq (hexperts : numExperts < 2 ^ 64)
    (hword : numTpRanks * (numExperts / numEpRanks) < 2 ^ 64) (hdiv : numExperts % numEpRanks = 0)
    (hpos : 0 < numExperts) (htp : tpRank < numTpRanks) (indices : List Int) :
    tilekernelsMaskIndicesByTpLayout indices numExperts numEpRanks tpRank numTpRanks =
      some (indices.mapM
        (maskUnowned numExperts (numExperts / numEpRanks) tpRank numTpRanks)) := by
  have hep : numEpRanks ≠ 0 := by
    rintro rfl
    rw [Nat.mod_zero] at hdiv
    omega
  rw [tilekernelsMaskIndicesByTpLayout, if_neg (by omega), if_neg hep, if_neg (by omega),
    if_neg (by omega), if_neg (not_not.mpr hdiv)]
  dsimp only
  simp only [tilekernelsMaskIndex_eq hexperts hword (perGpu_pos hdiv hpos)
    (Nat.zero_lt_of_lt htp)]
  exact run_mapM_some _ indices

theorem maskUnowned_of_lt {perGpu : Nat} {i : Int} (hi : i < numExperts) :
    maskUnowned numExperts perGpu tpRank numTpRanks i =
      .ok (if 0 ≤ i ∧ Owned numExperts perGpu tpRank numTpRanks i.toNat then
        (localId perGpu numTpRanks i.toNat : Int) else -1) := by
  unfold maskUnowned
  by_cases hneg : i < 0
  · rw [if_pos hneg, if_neg fun h => absurd h.1 (by omega)]
  · rw [if_neg hneg, if_neg (by omega)]
    by_cases howned : Owned numExperts perGpu tpRank numTpRanks i.toNat
    · rw [if_pos howned, if_pos ⟨by omega, howned⟩]
    · rw [if_neg howned, if_neg fun h => howned h.2]

/-- The expert is not masked for the rank. -/
def Unmasked (numExperts numEpRanks tpRank numTpRanks expertIdx : Nat) : Prop :=
  ∃ idx : Nat, tilekernelsMaskIndicesByTpLayout [(expertIdx : Int)] numExperts numEpRanks tpRank
    numTpRanks = some (.ok [(idx : Int)])

theorem unmasked_iff (hexperts : numExperts < 2 ^ 64)
    (hword : numTpRanks * (numExperts / numEpRanks) < 2 ^ 64) (hdiv : numExperts % numEpRanks = 0)
    (htp : tpRank < numTpRanks) {expertIdx : Nat} (hlt : expertIdx < numExperts) :
    Unmasked numExperts numEpRanks tpRank numTpRanks expertIdx ↔
      Owned numExperts (numExperts / numEpRanks) tpRank numTpRanks expertIdx := by
  have hread : maskUnowned numExperts (numExperts / numEpRanks) tpRank numTpRanks
      (expertIdx : Int) = _ := maskUnowned_of_lt (by exact_mod_cast hlt)
  unfold Unmasked
  rw [tilekernels_eq hexperts hword hdiv (Nat.zero_lt_of_lt hlt) htp,
    Dot.mapM_ok (g := fun _ => _) fun i hi => by
      rw [List.mem_singleton.mp hi]
      exact hread]
  rw [Int.toNat_natCast]
  constructor
  · rintro ⟨idx, hidx⟩
    by_contra howned
    rw [if_neg fun h => howned h.2] at hidx
    have hmasked : (-1 : Int) = (idx : Int) :=
      (List.cons.inj (Except.ok.inj (Option.some.inj hidx))).1
    omega
  · intro howned
    rw [if_pos ⟨by omega, howned⟩]
    exact ⟨_, rfl⟩

/-- With as many TP ranks as EP ranks the formula masks an index as the group of the rank does. -/
theorem maskUnowned_group (group : ExpertGroup) (i : Int) :
    maskUnowned group.numExperts group.expertsPerRank group.rank group.worldSize i =
      group.maskIndexToLocal i := by
  unfold ExpertGroup.maskIndexToLocal
  by_cases hneg : i < 0
  · rw [maskUnowned, if_pos hneg, if_pos hneg]
  · rw [if_neg hneg]
    by_cases hge : i.toNat ≥ group.numExperts
    · rw [maskUnowned, if_neg hneg, if_pos hge, if_pos hge]
    · rw [if_neg hge]
      have hlt := Nat.lt_of_not_le hge
      have hgpu := group.expertsPerRank_pos
      rw [maskUnowned_of_lt (by omega)]
      -- no block number reaches the world size, so the rank owns one block
      have hblock : i.toNat / group.expertsPerRank < group.worldSize := by
        rw [Nat.div_lt_iff_lt_mul hgpu, Nat.mul_comm, group.numExperts_eq]
        exact hlt
      by_cases howned : i.toNat / group.expertsPerRank = group.rank
      · have hown : group.ownsExpert i.toNat = true := group.ownsExpert_iff.mpr ⟨hlt, howned⟩
        rw [if_pos ⟨by omega, hlt, by rw [Nat.mod_eq_of_lt hblock, howned]⟩,
          ExpertGroup.localExpertIdx, hown, localId, Nat.div_eq_of_lt hblock, Nat.zero_mul,
          Nat.zero_add, ExpertGroup.localExpertStart, ← howned]
        have := Nat.div_add_mod i.toNat group.expertsPerRank
        rw [Nat.mul_comm] at this
        refine congrArg Except.ok ?_
        show ((i.toNat % group.expertsPerRank : Nat) : Int) = ((i.toNat -
          i.toNat / group.expertsPerRank * group.expertsPerRank : Nat) : Int)
        omega
      · have hown : group.ownsExpert i.toNat = false :=
          Bool.eq_false_iff.mpr fun h => howned (group.ownsExpert_iff.mp h).2
        rw [if_neg fun h => howned (by rw [← Nat.mod_eq_of_lt hblock, h.2.2]),
          ExpertGroup.localExpertIdx, hown]
        rfl

end Masking

/-- The compaction is a bijection: every expert is unmasked for one TP rank, the local ids of a
rank are the numbers below the number of its experts in their order, and with as many TP ranks as
EP ranks the result is that of the group of the rank. -/
structure Compacts (numExperts numEpRanks numTpRanks : Nat) : Prop where
  once : ∀ expertIdx < numExperts, ∃! tpRank, tpRank < numTpRanks ∧
    Unmasked numExperts numEpRanks tpRank numTpRanks expertIdx
  onto : ∀ tpRank < numTpRanks, ∃ toLocal : Nat → Nat,
    (0 < numExperts → ∀ indices : List Int, (∀ i ∈ indices, i < numExperts) → ∃ masked,
      tilekernelsMaskIndicesByTpLayout indices numExperts numEpRanks tpRank numTpRanks =
        some (.ok masked) ∧
      List.Forall₂ (fun i idx =>
        (0 ≤ i ∧ Unmasked numExperts numEpRanks tpRank numTpRanks i.toNat ∧
          idx = (toLocal i.toNat : Int)) ∨
        (¬ (0 ≤ i ∧ Unmasked numExperts numEpRanks tpRank numTpRanks i.toNat) ∧ idx = -1))
        indices masked) ∧
    StrictMonoOn toLocal {expertIdx | expertIdx < numExperts ∧
      Unmasked numExperts numEpRanks tpRank numTpRanks expertIdx} ∧
    Set.BijOn toLocal {expertIdx | expertIdx < numExperts ∧
        Unmasked numExperts numEpRanks tpRank numTpRanks expertIdx}
      (Set.Iio {expertIdx | expertIdx < numExperts ∧
        Unmasked numExperts numEpRanks tpRank numTpRanks expertIdx}.ncard)
  group : numTpRanks = numEpRanks → ∀ rank (indices : List Int),
    (∀ group, ExpertGroup.new rank numEpRanks numExperts = .ok group →
      tilekernelsMaskIndicesByTpLayout indices numExperts numEpRanks rank numTpRanks =
        some (group.maskIndicesToLocal indices)) ∧
    (∀ err, ExpertGroup.new rank numEpRanks numExperts = .error err → ∃ err',
      tilekernelsMaskIndicesByTpLayout indices numExperts numEpRanks rank numTpRanks =
        some (.error err'))

/-- The compaction is a bijection where the experts of a group of TP ranks fit a word. -/
theorem compaction_bijective {numExperts numEpRanks numTpRanks : Nat}
    (hexperts : numExperts < 2 ^ 64) (hdiv : numExperts % numEpRanks = 0) (htp : 0 < numTpRanks)
    (hword : numTpRanks * (numExperts / numEpRanks) < 2 ^ 64) :
    Compacts numExperts numEpRanks numTpRanks := by
  have hset : ∀ tpRank < numTpRanks, {expertIdx | expertIdx < numExperts ∧
      Unmasked numExperts numEpRanks tpRank numTpRanks expertIdx} =
      {expertIdx | Owned numExperts (numExperts / numEpRanks) tpRank numTpRanks expertIdx} := by
    intro tpRank hlt
    ext expertIdx
    constructor
    · rintro ⟨he, hunmasked⟩
      exact (unmasked_iff hexperts hword hdiv hlt he).mp hunmasked
    · intro howned
      exact ⟨howned.1, (unmasked_iff hexperts hword hdiv hlt howned.1).mpr howned⟩
  constructor
  case once =>
    intro expertIdx he
    have hmod := Nat.mod_lt (expertIdx / (numExperts / numEpRanks)) htp
    refine ⟨_, ⟨hmod, (unmasked_iff hexperts hword hdiv hmod he).mpr ⟨he, rfl⟩⟩, ?_⟩
    rintro tpRank ⟨hlt, hunmasked⟩
    exact ((unmasked_iff hexperts hword hdiv hlt he).mp hunmasked).2.symm
  case onto =>
    intro tpRank hlt
    refine ⟨localId (numExperts / numEpRanks) numTpRanks, fun hpos indices hindices => ?_, ?_, ?_⟩
    · rw [tilekernels_eq hexperts hword hdiv hpos hlt,
        Dot.mapM_ok fun i hi => maskUnowned_of_lt (hindices i hi)]
      refine ⟨_, rfl, ?_⟩
      rw [List.forall₂_map_right_iff, List.forall₂_same]
      intro i hi
      have hin := hindices i hi
      by_cases howned : 0 ≤ i ∧
          Owned numExperts (numExperts / numEpRanks) tpRank numTpRanks i.toNat
      · rw [if_pos howned]
        exact .inl ⟨howned.1, (unmasked_iff hexperts hword hdiv hlt howned.2.1).mpr howned.2, rfl⟩
      · rw [if_neg howned]
        refine .inr ⟨fun h => howned ⟨h.1, ?_⟩, rfl⟩
        exact (unmasked_iff hexperts hword hdiv hlt (by omega)).mp h.2
    · rw [hset tpRank hlt]
      rcases Nat.eq_zero_or_pos numExperts with rfl | hpos
      · exact fun e he => absurd he.1 (Nat.not_lt_zero e)
      · exact (localId_strictMonoOn (perGpu_pos hdiv hpos)).mono fun e he => he.2
    · rw [hset tpRank hlt]
      rcases Nat.eq_zero_or_pos numExperts with rfl | hpos
      · have hempty : {e | Owned 0 (0 / numEpRanks) tpRank numTpRanks e} = ∅ :=
          Set.eq_empty_of_forall_notMem fun e he => Nat.not_lt_zero e he.1
        rw [hempty, Set.ncard_empty]
        simp
      · have hcoe : ((Finset.range numExperts).filter
            (Owned numExperts (numExperts / numEpRanks) tpRank numTpRanks) : Set Nat) =
            {e | Owned numExperts (numExperts / numEpRanks) tpRank numTpRanks e} := by
          ext e
          rw [Finset.mem_coe, Finset.mem_filter, Finset.mem_range]
          exact ⟨And.right, fun h => ⟨h.1, h⟩⟩
        rw [← hcoe, Set.ncard_coe_finset, hcoe]
        exact localId_bijOn (perGpu_pos hdiv hpos) hlt
  case group =>
    rintro rfl rank indices
    refine ⟨fun group hgroup => ?_, fun err herr => ?_⟩
    · obtain ⟨hrank, hworld, hnum, -, hper⟩ := ExpertGroup.new_ok hgroup
      have hlt : rank < numTpRanks := hrank ▸ hworld ▸ group.rank_lt
      rw [tilekernels_eq hexperts hword hdiv (hnum ▸ group.numExperts_pos) hlt,
        ExpertGroup.maskIndicesToLocal, ← hper, ← hrank, ← hworld, ← hnum]
      exact congrArg (fun mask => some (List.mapM mask indices)) (funext (maskUnowned_group group))
    · unfold ExpertGroup.new at herr
      unfold tilekernelsMaskIndicesByTpLayout
      split at herr
      · omega
      · split at herr
        · rename_i hrank
          by_cases hzero : numExperts = 0
          · exact ⟨_, by rw [if_pos hzero]⟩
          · exact ⟨_, by rw [if_neg hzero, if_neg (by omega), if_neg (by omega), if_pos hrank]⟩
        · split at herr
          · rename_i hzero
            exact ⟨_, by rw [if_pos hzero]⟩
          · split at herr
            · rename_i hnot
              exact absurd hdiv hnot
            · cases herr

/-- Three TP ranks over four EP ranks: the first one has two blocks, the others one each. -/
theorem compaction_bijective_four :
    tilekernelsMaskIndicesByTpLayout [0, 1, 2, 3, 4, 5, 6, 7, -1] 8 4 0 3 =
      some (.ok [0, 1, -1, -1, -1, -1, 2, 3, -1]) ∧ Compacts 8 4 3 :=
  ⟨rfl, compaction_bijective (by decide) (by decide) (by decide) (by decide)⟩

/-- `2 ^ 64 / 3`, rounded up: three experts for each of so many TP ranks wrap to two. -/
def wrappingRanks : Nat := 6148914691236517206

/-- The first rank owns all three experts, and the product that has wrapped gives the last one the
local id of the first. -/
theorem compaction_wraps : tilekernelsMaskIndicesByTpLayout [0, 1, 2] 3 1 0 wrappingRanks =
      some (.ok [0, 1, 0]) ∧ ¬ Compacts 3 1 wrappingRanks := by
  have hread : tilekernelsMaskIndicesByTpLayout [0, 1, 2] 3 1 0 wrappingRanks =
      some (.ok [0, 1, 0]) := by decide +kernel
  refine ⟨hread, fun hcompacts => ?_⟩
  obtain ⟨toLocal, hmask, hmono, -⟩ := hcompacts.onto 0 (by decide)
  obtain ⟨masked, hmasked, hids⟩ := hmask (by decide) [0, 1, 2] (by decide)
  rw [hread] at hmasked
  obtain rfl := Except.ok.inj (Option.some.inj hmasked)
  rw [List.forall₂_cons, List.forall₂_cons, List.forall₂_cons] at hids
  obtain ⟨⟨-, hfirst, hzero⟩ | ⟨-, habs⟩, -, ⟨-, hlast, htwo⟩ | ⟨-, habs⟩, -⟩ := hids
  · have hlt := hmono (show (0 : Nat) < 3 ∧ _ from ⟨by decide, hfirst⟩)
      (show (2 : Nat) < 3 ∧ _ from ⟨by decide, hlast⟩) (by decide)
    have h0 : (0 : Int) = (toLocal 0 : Int) := hzero
    have h2 : (0 : Int) = (toLocal 2 : Int) := htwo
    omega
  · exact absurd habs (by decide)
  · exact absurd habs (by decide)
  · exact absurd habs (by decide)

end Arle.Distributed
