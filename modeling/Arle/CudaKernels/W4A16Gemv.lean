import Arle.CudaKernels.QuantizedGemv
import Arle.Lib.Outcome
import Arle.WeightLoader.GptqW4

/-!
# The W4A16 kernel on GPTQModel weights

`w4a16_gemv_kernel` of `csrc/gemm/quantized_gemv.cu`, as the list of the products that its threads
add up; the reductions are left out and offsets are `int`, as in `Arle.CudaKernels.QuantizedGemv`.
A thread takes eight inputs at a time and reads one scale for them, that of the first. So the
kernel uses the weights of the checkpoint just when no offset overflows and each input that has a
weight other than zero has the scale of the first input of its eight.
-/

namespace Arle.CudaKernels

open Arle.Gguf Arle.WeightLoader Scatter

/-! ## The kernel -/

/-- `GEMV_ROWS`. -/
def gemvRows : Nat := 4

/-- `GEMV_THREADS`. -/
def gemvThreads : Nat := 256

/-- `*reinterpret_cast<const uint32_t*>(p)`, on a little-endian machine. -/
def loadU32 (p : Ptr) : Nat := p 0 + 256 * p 1 + 65536 * p 2 + 16777216 * p 3

/-- What a thread adds up in one round: the inputs, with their weights. -/
def w4a16Lane (packed : Nat) (scale : ℚ) (k : Nat) : List (Nat × ℚ) :=
  let lo4 := packed &&& 0x0F0F0F0F
  let hi4 := (packed >>> 4) &&& 0x0F0F0F0F
  let lo0 : Int := ((lo4 &&& 0xFF : Nat) : Int) - 8
  let hi0 : Int := ((hi4 &&& 0xFF : Nat) : Int) - 8
  let lo1 : Int := (((lo4 >>> 8) &&& 0xFF : Nat) : Int) - 8
  let hi1 : Int := (((hi4 >>> 8) &&& 0xFF : Nat) : Int) - 8
  let lo2 : Int := (((lo4 >>> 16) &&& 0xFF : Nat) : Int) - 8
  let hi2 : Int := (((hi4 >>> 16) &&& 0xFF : Nat) : Int) - 8
  let lo3 : Int := (((lo4 >>> 24) &&& 0xFF : Nat) : Int) - 8
  let hi3 : Int := (((hi4 >>> 24) &&& 0xFF : Nat) : Int) - 8
  [(k, lo0 * scale), (k + 1, hi0 * scale), (k + 2, lo1 * scale), (k + 3, hi1 * scale),
    (k + 4, lo2 * scale), (k + 5, hi2 * scale), (k + 6, lo3 * scale), (k + 7, hi3 * scale)]

/-- The values of `for (int k = start; k < K; k += step)`. -/
def strided (start step K : Nat) : List Nat :=
  (List.range ((K - start + step - 1) / step)).map fun i => start + i * step

def w4a16GemvThread (weight : Ptr) (scales : Nat → ℚ) (N K groupSize blockIdx tid : Nat) :
    Option (List Product) :=
  let row := blockIdx * gemvRows + tid / (gemvThreads / gemvRows)
  let tidInRow := tid % (gemvThreads / gemvRows)
  let threadsPerRow := gemvThreads / gemvRows
  if row ≥ N then
    some []
  else do
    let numGroups := K / groupSize
    let bytesPerRow := K / 2
    let products ← (strided (tidInRow * 8) (threadsPerRow * 8) K).mapM fun k => do
      let scaleRow ← Word.signed 32 (row * numGroups)
      let scaleOffset ← Word.signed 32 (scaleRow + k / groupSize)
      let scale := scales scaleOffset
      let weightRow ← Word.signed 32 (row * bytesPerRow)
      let weightOffset ← Word.signed 32 (weightRow + k / 2)
      let packed := loadU32 (weight.add weightOffset)
      -- the step to the next `k`
      let _ ← Word.signed 32 (k + threadsPerRow * 8)
      return (w4a16Lane packed scale k).map fun t => (⟨row, t.1, t.2⟩ : Product)
    return products.flatten

/-- `w4a16_gemv_cuda`. -/
def w4a16GemvLaunch (weight : Ptr) (scales : Nat → ℚ) (N K groupSize : Nat) :
    Option (List Product) := do
  let N ← Word.signed 32 N
  let K ← Word.signed 32 K
  let groupSize ← Word.signed 32 groupSize
  let rows ← Word.signed 32 (N + gemvRows)
  let products ← (List.range ((rows - 1) / gemvRows)).mapM fun blockIdx => do
    let block ← (List.range gemvThreads).mapM
      (w4a16GemvThread weight scales N K groupSize blockIdx)
    return block.flatten
  return products.flatten

/-! ## Eight nibbles -/

/-- A byte of the masked word is a nibble of the word. -/
theorem masked_byte (x : Nat) : ∀ i < 4,
    ((x &&& 0x0F0F0F0F) >>> (8 * i)) &&& 0xFF = x / 16 ^ (2 * i) % 16 := by
  have hmask : ∀ i < 4, (0x0F0F0F0F >>> (8 * i)) &&& 0xFF = 15 := by decide
  intro i hi
  have hpow : 2 ^ (8 * i) = 16 ^ (2 * i) := by
    rw [show 8 * i = 4 * (2 * i) by omega, Nat.pow_mul]
  rw [Nat.shiftRight_and_distrib, Nat.and_assoc, hmask i hi, and_15, Nat.shiftRight_eq_div_pow,
    hpow]

theorem masked_byte_high (x : Nat) : ∀ i < 4,
    (((x >>> 4) &&& 0x0F0F0F0F) >>> (8 * i)) &&& 0xFF = x / 16 ^ (2 * i + 1) % 16 := by
  intro i hi
  have hpow : 2 ^ 4 * 16 ^ (2 * i) = 16 ^ (2 * i + 1) := Nat.pow_succ'.symm
  rw [masked_byte _ i hi, Nat.shiftRight_eq_div_pow, Nat.div_div_eq_div_mul, hpow]

theorem w4a16Lane_eq (packed : Nat) (scale : ℚ) (k : Nat) :
    w4a16Lane packed scale k = (List.range 8).map fun j =>
      (k + j, (((packed / 16 ^ j % 16 : Nat) : Int) - 8 : Int) * scale) := by
  have hlow := masked_byte packed
  have hhigh := masked_byte_high packed
  have h0 := hlow 0 (by decide)
  have h1 := hhigh 0 (by decide)
  rw [Nat.mul_zero, Nat.shiftRight_zero] at h0 h1
  unfold w4a16Lane
  dsimp only
  rw [h0, h1, hlow 1 (by decide), hhigh 1 (by decide), hlow 2 (by decide), hhigh 2 (by decide),
    hlow 3 (by decide), hhigh 3 (by decide)]
  rfl

theorem loadU32_nibble (bytes : List UInt8) (off : Nat) : ∀ j < 8,
    loadU32 ((bytesOf bytes).add off) / 16 ^ j % 16 = nibbleAt bytes (2 * off + j) := by
  intro j hj
  have hbyte : ∀ i, (bytes.getD i 0).toNat < 256 := fun i => (bytes.getD i 0).toNat_lt
  have hdiv : (2 * off + j) / 2 = off + j / 2 := by omega
  have hmod : (2 * off + j) % 2 = j % 2 := by omega
  unfold nibbleAt loadU32 Ptr.add bytesOf
  rw [hdiv, hmod]
  have hb0 := hbyte (off + 0)
  have hb1 := hbyte (off + 1)
  have hb2 := hbyte (off + 2)
  have hb3 := hbyte (off + 3)
  interval_cases j <;> norm_num only at * <;> omega

/-! ## The launch -/

section Launch

variable {bytes : List UInt8} {scales : Nat → ℚ} {N K groupSize : Nat}

/-- The weight that the kernel multiplies with an input. -/
def kernelWeight (bytes : List UInt8) (scales : Nat → ℚ) (K groupSize row k : Nat) : ℚ :=
  (((nibbleAt bytes (row * K + k) : Nat) : Int) - 8 : Int) *
    scales (row * (K / groupSize) + k / 8 * 8 / groupSize)

/-- A round takes the eight inputs from `8 * c` on. -/
theorem round_eq (hK : 8 ∣ K) (row c : Nat) :
    ((w4a16Lane (loadU32 ((bytesOf bytes).add (row * (K / 2) + 8 * c / 2)))
        (scales (row * (K / groupSize) + 8 * c / groupSize)) (8 * c)).map fun t =>
          (⟨row, t.1, t.2⟩ : Product)) =
      (List.range 8).map fun j =>
        ⟨row, 8 * c + j, kernelWeight bytes scales K groupSize row (8 * c + j)⟩ := by
  rw [w4a16Lane_eq, List.map_map]
  refine List.map_congr_left fun j hj => ?_
  have hj := List.mem_range.mp hj
  have hplace : 2 * (row * (K / 2) + 8 * c / 2) + j = row * K + (8 * c + j) := by
    have hhalf : 2 * (row * (K / 2)) = row * K := by
      rw [Nat.mul_left_comm, Nat.mul_div_cancel' (Nat.dvd_trans (by decide) hK)]
    omega
  have hfirst : (8 * c + j) / 8 * 8 = 8 * c := by omega
  rw [Function.comp_apply, loadU32_nibble bytes _ j hj, hplace, kernelWeight, hfirst]

/-- What a thread adds up where no offset overflows. -/
def w4a16ThreadProducts (bytes : List UInt8) (scales : Nat → ℚ) (N K groupSize blockIdx tid : Nat) :
    List Product :=
  if blockIdx * 4 + tid / 64 ≥ N then []
  else (List.range ((K - tid % 64 * 8 + 512 - 1) / 512)).flatMap fun i =>
    (List.range 8).map fun j => ⟨blockIdx * 4 + tid / 64, 8 * (tid % 64 + i * 64) + j,
      kernelWeight bytes scales K groupSize (blockIdx * 4 + tid / 64)
        (8 * (tid % 64 + i * 64) + j)⟩

/-- What a launch adds up where no offset overflows. -/
def w4a16LaunchProducts (bytes : List UInt8) (scales : Nat → ℚ) (N K groupSize : Nat) :
    List Product :=
  (List.range ((N + gemvRows - 1) / gemvRows)).flatMap fun blockIdx =>
    (List.range gemvThreads).flatMap (w4a16ThreadProducts bytes scales N K groupSize blockIdx)

/-- No offset of the launch overflows: in each round of a row, those of the scale and of the weight,
and the step to the next round. -/
structure W4A16Fits (N K groupSize : Nat) : Prop where
  rows_lt : N + gemvRows < 2 ^ 31
  cols_lt : K < 2 ^ 31
  group_lt : groupSize < 2 ^ 31
  scale_lt : ∀ row < N, ∀ c, 8 * c < K → row * (K / groupSize) + 8 * c / groupSize < 2 ^ 31
  weight_lt : ∀ row < N, ∀ c, 8 * c < K → row * (K / 2) + 8 * c / 2 < 2 ^ 31
  step_lt : ∀ row < N, ∀ c, 8 * c < K → 8 * c + 512 < 2 ^ 31

/-- The rounds of a thread. -/
theorem strided_eq (tid K : Nat) : strided (tid % 64 * 8) (64 * 8) K =
    (List.range ((K - tid % 64 * 8 + 512 - 1) / 512)).map fun i => 8 * (tid % 64 + i * 64) := by
  unfold strided
  exact List.map_congr_left fun i _ => by omega

theorem w4a16GemvThread_eq (h : W4A16Fits N K groupSize) (hK : 8 ∣ K) (blockIdx tid : Nat) :
    w4a16GemvThread (bytesOf bytes) scales N K groupSize blockIdx tid =
      some (w4a16ThreadProducts bytes scales N K groupSize blockIdx tid) := by
  have hquarter : gemvThreads / gemvRows = 64 := rfl
  unfold w4a16GemvThread w4a16ThreadProducts
  dsimp only
  rw [hquarter, show gemvRows = 4 from rfl]
  by_cases hge : blockIdx * 4 + tid / 64 ≥ N
  · rw [if_pos hge, if_pos hge]
  have hrow := Nat.lt_of_not_le hge
  have hround : ∀ i ∈ List.range ((K - tid % 64 * 8 + 512 - 1) / 512),
      8 * (tid % 64 + i * 64) < K := by
    intro i hi
    have hlt := List.mem_range.mp hi
    omega
  rw [if_neg hge, if_neg hge, strided_eq, List.mapM_map]
  rw [Outcome.mapM_some fun i hi => by
    have hscale := h.scale_lt _ hrow _ (hround i hi)
    have hweight := h.weight_lt _ hrow _ (hround i hi)
    rw [Function.comp_apply, Word.signed_bind (Nat.lt_of_le_of_lt (Nat.le_add_right _ _) hscale),
      Word.signed_bind hscale, Word.signed_bind (Nat.lt_of_le_of_lt (Nat.le_add_right _ _) hweight),
      Word.signed_bind hweight, Word.signed_bind (h.step_lt _ hrow _ (hround i hi)), round_eq hK]
    rfl]
  rfl

theorem w4a16GemvLaunch_eq (h : W4A16Fits N K groupSize) (hK : 8 ∣ K) :
    w4a16GemvLaunch (bytesOf bytes) scales N K groupSize =
      some (w4a16LaunchProducts bytes scales N K groupSize) := by
  have hrows := h.rows_lt
  unfold w4a16GemvLaunch w4a16LaunchProducts
  rw [Word.signed_bind (show N < 2 ^ 31 by omega), Word.signed_bind h.cols_lt,
    Word.signed_bind h.group_lt, Word.signed_bind hrows,
    Outcome.mapM_some fun blockIdx _ => by
      rw [Outcome.mapM_some fun tid _ => w4a16GemvThread_eq h hK blockIdx tid]
      rfl]
  rfl

/-- A launch that returns has met no offset that overflows. -/
theorem w4a16Fits_of_launch {weight : Ptr} {products : List Product}
    (h : w4a16GemvLaunch weight scales N K groupSize = some products) :
    W4A16Fits N K groupSize := by
  unfold w4a16GemvLaunch at h
  simp only [Option.bind_eq_bind, Option.bind_eq_some_iff, Word.signed_eq_some] at h
  obtain ⟨_, ⟨-, rfl⟩, _, ⟨hcols, rfl⟩, _, ⟨hgroup, rfl⟩, _, ⟨hrows, rfl⟩, _, hblocks, -⟩ := h
  have hround : ∀ row < N, ∀ c, 8 * c < K → row * (K / groupSize) + 8 * c / groupSize < 2 ^ 31 ∧
      row * (K / 2) + 8 * c / 2 < 2 ^ 31 ∧ 8 * c + 512 < 2 ^ 31 := by
    intro row hrow c hc
    -- the thread of the row that comes by `8 * c`
    obtain ⟨_, hblock⟩ := Outcome.returns_of_mapM hblocks (row / 4) (List.mem_range.mpr (by
      unfold gemvRows
      omega))
    obtain ⟨_, hthreads, -⟩ := Option.bind_eq_some_iff.mp hblock
    obtain ⟨_, hthread⟩ := Outcome.returns_of_mapM hthreads (row % 4 * 64 + c % 64)
      (List.mem_range.mpr (by unfold gemvThreads; omega))
    have hwarp : row / 4 * 4 + (row % 4 * 64 + c % 64) / 64 = row := by omega
    have htid : (row % 4 * 64 + c % 64) % 64 = c % 64 := by omega
    have hmem : 8 * c ∈ strided (c % 64 * 8) (64 * 8) K := by
      have hstrided := strided_eq (c % 64) K
      rw [Nat.mod_mod] at hstrided
      rw [hstrided]
      exact List.mem_map.mpr ⟨c / 64, List.mem_range.mpr (by omega), by omega⟩
    unfold w4a16GemvThread at hthread
    dsimp only at hthread
    rw [show gemvThreads / gemvRows = 64 from rfl, show gemvRows = 4 from rfl, hwarp, htid,
      if_neg (Nat.not_le.mpr hrow)] at hthread
    obtain ⟨_, hrounds, -⟩ := Option.bind_eq_some_iff.mp hthread
    obtain ⟨_, hat⟩ := Outcome.returns_of_mapM hrounds (8 * c) hmem
    simp only [Option.bind_eq_bind, Option.bind_eq_some_iff, Word.signed_eq_some] at hat
    obtain ⟨_, ⟨-, rfl⟩, _, ⟨hscale, -⟩, _, ⟨-, rfl⟩, _, ⟨hweight, -⟩, _, ⟨hstep, -⟩, -⟩ := hat
    exact ⟨hscale, hweight, hstep⟩
  exact ⟨hrows, hcols, hgroup, fun row hrow c hc => (hround row hrow c hc).1,
    fun row hrow c hc => (hround row hrow c hc).2.1,
    fun row hrow c hc => (hround row hrow c hc).2.2⟩

/-- What a thread adds up is of its row and of its places in the strides. -/
theorem mem_w4a16ThreadProducts {blockIdx tid : Nat} {p : Product}
    (h : p ∈ w4a16ThreadProducts bytes scales N K groupSize blockIdx tid) :
    p.row = blockIdx * 4 + tid / 64 ∧ p.k / 8 % 64 = tid % 64 := by
  unfold w4a16ThreadProducts at h
  split at h
  · cases h
  · obtain ⟨i, -, hp⟩ := List.mem_flatMap.mp h
    obtain ⟨j, hj, rfl⟩ := List.mem_map.mp hp
    have hj := List.mem_range.mp hj
    refine ⟨rfl, ?_⟩
    dsimp only
    omega

/-- The thread of an input and a row adds it up once. -/
theorem itemsAt_w4a16ThreadProducts (hK : 8 ∣ K) {row k : Nat} (hrow : row < N) (hk : k < K) :
    itemsAt (fun p => (p.row, p.k)) (row, k)
        (w4a16ThreadProducts bytes scales N K groupSize (row / 4)
          (row % 4 * 64 + k / 8 % 64)) =
      [⟨row, k, kernelWeight bytes scales K groupSize row k⟩] := by
  have hrowEq : row / 4 * 4 + (row % 4 * 64 + k / 8 % 64) / 64 = row := by omega
  have htid : (row % 4 * 64 + k / 8 % 64) % 64 = k / 8 % 64 := by omega
  have hround : k / 512 < (K - k / 8 % 64 * 8 + 512 - 1) / 512 := by omega
  have hplace : 8 * (k / 8 % 64 + k / 512 * 64) + k % 8 = k := by omega
  unfold w4a16ThreadProducts
  rw [hrowEq, if_neg (Nat.not_le.mpr hrow), htid,
    itemsAt_flatMap_range hround, itemsAt_map_range (Nat.mod_lt k (by decide)), hplace]
  · rw [hplace]
  · intro j hj heq
    have hkey := (Prod.mk.inj heq).2
    dsimp only at hkey
    omega
  · intro i _ hne
    refine itemsAt_eq_nil fun p hp heq => ?_
    obtain ⟨j, hj, rfl⟩ := List.mem_map.mp hp
    have hj := List.mem_range.mp hj
    have hkey := (Prod.mk.inj heq).2
    dsimp only at hkey
    omega

/-- Over a whole launch, each input of a row is added up once. -/
theorem itemsAt_w4a16LaunchProducts (hK : 8 ∣ K) {row k : Nat} (hrow : row < N) (hk : k < K) :
    itemsAt (fun p => (p.row, p.k)) (row, k)
        (w4a16LaunchProducts bytes scales N K groupSize) =
      [⟨row, k, kernelWeight bytes scales K groupSize row k⟩] := by
  have hblock : row / 4 < (N + gemvRows - 1) / gemvRows := by
    unfold gemvRows
    omega
  have htid : row % 4 * 64 + k / 8 % 64 < gemvThreads := by
    unfold gemvThreads
    omega
  unfold w4a16LaunchProducts
  rw [itemsAt_flatMap_range hblock, itemsAt_flatMap_range htid]
  · exact itemsAt_w4a16ThreadProducts hK hrow hk
  · intro tid _ hne
    refine itemsAt_eq_nil fun p hp heq => ?_
    obtain ⟨hprow, hpk⟩ := mem_w4a16ThreadProducts hp
    obtain ⟨h1, h2⟩ := Prod.mk.inj heq
    omega
  · intro blockIdx _ hne
    refine itemsAt_eq_nil fun p hp heq => ?_
    obtain ⟨tid, htid256, hp⟩ := List.mem_flatMap.mp hp
    obtain ⟨hprow, -⟩ := mem_w4a16ThreadProducts hp
    have hlt : tid < 256 := List.mem_range.mp htid256
    have h1 := (Prod.mk.inj heq).1
    omega

end Launch

/-! ## The weights of the checkpoint -/

section Checkpoint

variable (toBf16 : Dtype → List UInt8 → ℚ)

/-- The kernel multiplies each input of a row with the weight of the checkpoint, on the buffers of
a layout. -/
def UsesWeights (layout : GptqModelW4Layout) (qweightData scalesData : List UInt8)
    (scalesDtype : Dtype) : Prop :=
  ∃ products, w4a16GemvLaunch (bytesOf layout.packed) (fun i => layout.scales.getD i 0) layout.rows
      layout.cols layout.groupSize = some products ∧
    ∀ row < layout.rows, ∀ k < layout.cols, itemsAt (fun p => (p.row, p.k)) (row, k) products =
      [⟨row, k, ((codeAt qweightData layout.rows k row : ℚ) - 8) *
        scaleAt toBf16 scalesData scalesDtype layout.rows (k / layout.groupSize) row⟩]

variable {toBf16} {env : Option String} {name : String} {qweightData scalesData : List UInt8}
  {qweightDtype scalesDtype : Dtype} {qweightShape scalesShape : List Nat}
  {qzeros : Option TensorView} {config : QuantLoadConfig} {layout : GptqModelW4Layout}

theorem kernelWeight_eq {groupSize : Option Nat}
    (h : layout.Holds toBf16 qweightData scalesData scalesDtype qweightShape groupSize)
    {row k : Nat} (hrow : row < layout.rows) (hk : k < layout.cols) :
    kernelWeight layout.packed (fun i => layout.scales.getD i 0) layout.cols layout.groupSize row k =
      ((codeAt qweightData layout.rows k row : ℚ) - 8) *
        scaleAt toBf16 scalesData scalesDtype layout.rows (k / 8 * 8 / layout.groupSize) row := by
  have hgroup : k / 8 * 8 / layout.groupSize < layout.cols / layout.groupSize := by
    refine Nat.div_lt_div_of_lt_of_dvd h.groups (Nat.lt_of_le_of_lt ?_ hk)
    omega
  unfold kernelWeight
  rw [h.codes row hrow k hk]
  dsimp only
  rw [h.scales row hrow _ hgroup]
  push_cast
  rfl

/-- For every weight that is converted, the kernel uses the weights of the checkpoint just when no
offset overflows and each input whose weight is not zero has the scale of the first input of its
eight. -/
theorem gptq_repack_iff (h : maybeConvertGptqmodelW4Layout toBf16 env name qweightData qweightDtype
      qweightShape scalesData scalesDtype scalesShape qzeros config = .ok (some layout)) :
    qweightShape = [layout.cols / 8, layout.rows] ∧ config.groupSize = some layout.groupSize ∧
      (UsesWeights toBf16 layout qweightData scalesData scalesDtype ↔
        W4A16Fits layout.rows layout.cols layout.groupSize ∧
        ∀ row < layout.rows, ∀ k < layout.cols, codeAt qweightData layout.rows k row = 8 ∨
          scaleAt toBf16 scalesData scalesDtype layout.rows (k / 8 * 8 / layout.groupSize) row =
            scaleAt toBf16 scalesData scalesDtype layout.rows (k / layout.groupSize) row) := by
  have hholds := maybeConvert_holds toBf16 h
  refine ⟨hholds.shape, hholds.configured, ?_⟩
  have hplace : ∀ row < layout.rows, ∀ k < layout.cols,
      (itemsAt (fun p => (p.row, p.k)) (row, k)
          (w4a16LaunchProducts layout.packed (fun i => layout.scales.getD i 0) layout.rows
            layout.cols layout.groupSize) =
        [⟨row, k, ((codeAt qweightData layout.rows k row : ℚ) - 8) *
          scaleAt toBf16 scalesData scalesDtype layout.rows (k / layout.groupSize) row⟩]) ↔
      codeAt qweightData layout.rows k row = 8 ∨
        scaleAt toBf16 scalesData scalesDtype layout.rows (k / 8 * 8 / layout.groupSize) row =
          scaleAt toBf16 scalesData scalesDtype layout.rows (k / layout.groupSize) row := by
    intro row hrow k hk
    rw [itemsAt_w4a16LaunchProducts hholds.aligned hrow hk, kernelWeight_eq hholds hrow hk,
      List.cons.injEq, Product.mk.injEq, and_iff_left rfl, and_iff_right rfl, and_iff_right rfl,
      mul_eq_mul_left_iff, sub_eq_zero, or_comm]
    exact or_congr_left (by norm_cast)
  constructor
  · rintro ⟨products, hlaunch, huses⟩
    have hfits := w4a16Fits_of_launch hlaunch
    rw [w4a16GemvLaunch_eq hfits hholds.aligned] at hlaunch
    obtain rfl := Option.some.inj hlaunch
    exact ⟨hfits, fun row hrow k hk => (hplace row hrow k hk).mp (huses row hrow k hk)⟩
  · rintro ⟨hfits, hscales⟩
    exact ⟨_, w4a16GemvLaunch_eq hfits hholds.aligned,
      fun row hrow k hk => (hplace row hrow k hk).mpr (hscales row hrow k hk)⟩

/-! A row with the codes nine, in two groups of four with the scales one and two. -/

def nines : List UInt8 := [0x99, 0x99, 0x99, 0x99]

def oneAndTwo : List UInt8 := [0x80, 0x3F, 0x00, 0x40]

/-- `bf16::from_le_bytes` on the bytes of one and two. -/
def smallScale (_ : Dtype) (bytes : List UInt8) : ℚ := if bytes = [0x80, 0x3F] then 1 else 2

def nineLayout (groupSize : Nat) (scales : List ℚ) : GptqModelW4Layout :=
  ⟨nines, scales, 1, 8, groupSize⟩

theorem nines_converted : maybeConvertGptqmodelW4Layout smallScale (some "1") "layer.weight" nines
    .i32 [1, 1] oneAndTwo .bf16 [2, 1] none ⟨some 4, some 4⟩ =
      .ok (some (nineLayout 4 [1, 2])) := by
  rfl

theorem gptq_repack_small_groups : ∃ layout,
    maybeConvertGptqmodelW4Layout smallScale (some "1") "layer.weight" nines .i32 [1, 1] oneAndTwo
        .bf16 [2, 1] none ⟨some 4, some 4⟩ = .ok (some layout) ∧
      ¬ UsesWeights smallScale layout nines oneAndTwo .bf16 := by
  refine ⟨nineLayout 4 [1, 2], nines_converted, ?_⟩
  rintro ⟨products, hlaunch, huses⟩
  have hK : 8 ∣ (nineLayout 4 [1, 2]).cols := ⟨1, rfl⟩
  have hrow : 0 < (nineLayout 4 [1, 2]).rows := by decide
  have h := huses 0 hrow 4 (by decide)
  rw [show (nineLayout 4 [1, 2]).packed = nines from rfl,
    w4a16GemvLaunch_eq (w4a16Fits_of_launch hlaunch) hK] at hlaunch
  obtain rfl := Option.some.inj hlaunch
  rw [itemsAt_w4a16LaunchProducts hK hrow (by decide)] at h
  have hweight := congrArg (fun l : List Product => l.map Product.w) h
  revert hweight
  decide +kernel

theorem gptq_repack_iff_nines :
    (([1, 1] : List Nat) = [8 / 8, 1] ∧ (some 8 : Option Nat) = some 8 ∧
      (UsesWeights smallScale (nineLayout 8 [1]) nines (oneAndTwo.take 2) .bf16 ↔
        W4A16Fits 1 8 8 ∧ ∀ row < 1, ∀ k < 8, codeAt nines 1 k row = 8 ∨
          scaleAt smallScale (oneAndTwo.take 2) .bf16 1 (k / 8 * 8 / 8) row =
            scaleAt smallScale (oneAndTwo.take 2) .bf16 1 (k / 8) row)) := by
  have hconverted : maybeConvertGptqmodelW4Layout smallScale (some "1") "layer.weight" nines .i32
      [1, 1] (oneAndTwo.take 2) .bf16 [1, 1] none ⟨some 8, some 4⟩ =
        .ok (some (nineLayout 8 [1])) := rfl
  exact gptq_repack_iff hconverted

end Checkpoint

end Arle.CudaKernels
