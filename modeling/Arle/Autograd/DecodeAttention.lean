import Mathlib
import Arle.Lib.FillLoop
import Arle.Autograd.CachedAttention
import Arle.Autograd.RowWiseAdjoint

/-!
# Attention over a cache

`cpu_kv_cache_write_axis2` and `cpu_causal_sdpa_decode_gqa_cache` of
`crates/autograd/src/backend.rs`. A cache has more rows than are in use: rows are written at an
offset, and a single query for each head attends to the rows in front. Several query heads share a
head of the cache.
-/

namespace Arle.Autograd

open Dot RowMajor

/-! ## Hidden keys -/

section Hidden

theorem foldl_max_bot {F : Type} [LinearOrder F] (row : List (WithBot F)) (n : Nat) :
    (row ++ List.replicate n ⊥).foldl max ⊥ = row.foldl max ⊥ := by
  rw [List.foldl_append]
  induction n with
  | zero => rfl
  | succ n ih => rw [List.replicate_succ, List.foldl_cons, max_bot_right, ih]

variable {F : Type} [Field F] {headDim kvLen offset i j : Nat} {scale : F}
  {q k v : Nat → Nat → Nat → F}

theorem maskedRow_of_hidden {n : Nat} (h : offset + j + 1 + n = kvLen) :
    maskedRow scale headDim kvLen offset q k i j =
      maskedRow scale headDim (offset + j + 1) offset q k i j ++ List.replicate n ⊥ := by
  subst h
  unfold maskedRow
  rw [List.range_add, List.map_append, List.map_map]
  refine congrArg _ (List.eq_replicate_iff.mpr ⟨?_, fun score hscore => ?_⟩)
  · rw [List.length_map, List.length_range]
  · obtain ⟨l, -, rfl⟩ := List.mem_map.mp hscore
    rw [Function.comp_apply, maskEntry, if_pos (by omega), WithBot.add_bot]

variable [LinearOrder F] (exp : F → F)

/-- Minus infinity has no weight, and takes none from the others. -/
theorem softmaxRow_append_bot (row : List (WithBot F)) (n : Nat) :
    softmaxRow exp (row ++ List.replicate n ⊥) = softmaxRow exp row ++ List.replicate n 0 := by
  have hbot : ∀ maxValue : WithBot F, expDiff exp ⊥ maxValue = 0 := fun _ => rfl
  unfold softmaxRow
  dsimp only
  rw [foldl_max_bot, List.map_append, List.map_append, List.map_replicate, List.map_replicate,
    hbot, List.sum_append, List.sum_replicate, smul_zero, add_zero, zero_div]

/-- The keys behind the last visible one do not count. -/
theorem attention_of_hidden (h : offset + j < kvLen) (d : Nat) :
    attention exp scale headDim kvLen offset q k v i j d =
      attention exp scale headDim (offset + j + 1) offset q k v i j d := by
  obtain ⟨n, hn⟩ := Nat.exists_eq_add_of_le (Nat.succ_le_of_lt h)
  have hlen : (softmaxRow exp (maskedRow scale headDim (offset + j + 1) offset q k i j)).length =
      offset + j + 1 := by
    rw [length_softmaxRow, maskedRow, List.length_map, List.length_range]
  have hrow : softmaxRow exp (maskedRow scale headDim kvLen offset q k i j) =
      softmaxRow exp (maskedRow scale headDim (offset + j + 1) offset q k i j) ++
        List.replicate n 0 := by
    rw [maskedRow_of_hidden hn.symm, softmaxRow_append_bot]
  unfold attention
  rw [hrow, hn, Finset.sum_range_add]
  have hfront : ∀ l ∈ Finset.range (offset + j + 1), (softmaxRow exp
      (maskedRow scale headDim (offset + j + 1) offset q k i j) ++ List.replicate n 0).getD l 0 *
        v i l d = (softmaxRow exp
          (maskedRow scale headDim (offset + j + 1) offset q k i j)).getD l 0 * v i l d := by
    intro l hl
    rw [List.getD_append _ _ _ _ (hlen.symm ▸ Finset.mem_range.mp hl)]
  have hrest : ∀ l ∈ Finset.range n, (softmaxRow exp
      (maskedRow scale headDim (offset + j + 1) offset q k i j) ++ List.replicate n 0).getD
        (offset + j + 1 + l) 0 * v i (offset + j + 1 + l) d = 0 := by
    intro l hl
    rw [List.getD_append_right _ _ _ _ (hlen.symm ▸ Nat.le_add_right _ _), hlen,
      Nat.add_sub_cancel_left, List.getD_replicate _ (Finset.mem_range.mp hl), zero_mul]
  rw [Finset.sum_congr rfl hfront, Finset.sum_eq_zero hrest, add_zero]

/-- Only the last visible key tells where a row stands. -/
theorem attention_congr_row {offset' j' : Nat} {q' k' v' : Nat → Nat → Nat → F}
    (hrow : offset + j = offset' + j') (hq : ∀ c < headDim, q i j c = q' i j' c)
    (hk : ∀ l < kvLen, ∀ c < headDim, k i l c = k' i l c) {d : Nat}
    (hv : ∀ l < kvLen, v i l d = v' i l d) :
    attention exp scale headDim kvLen offset q k v i j d =
      attention exp scale headDim kvLen offset' q' k' v' i j' d := by
  have hmasked : maskedRow scale headDim kvLen offset q k i j =
      maskedRow scale headDim kvLen offset' q' k' i j' := by
    refine List.map_congr_left fun l hl => ?_
    have hscore : ∑ c ∈ Finset.range headDim, q i j c * k i l c =
        ∑ c ∈ Finset.range headDim, q' i j' c * k' i l c := by
      refine Finset.sum_congr rfl fun c hc => ?_
      have hc := Finset.mem_range.mp hc
      rw [hq c hc, hk l (List.mem_range.mp hl) c hc]
    rw [hscore, maskEntry, maskEntry, hrow]
  unfold attention
  rw [hmasked]
  exact Finset.sum_congr rfl fun l hl => by rw [hv l (Finset.mem_range.mp hl)]

end Hidden

/-! ## What a cache is relied on for -/

section Relied

variable {F : Type} [Field F] [LinearOrder F]

/-- `kv_cache_write_axis2` writes the given rows at the given offset. -/
def WritesRows (write : HostTensor F → HostTensor F → Nat → Result (HostTensor F)) : Prop :=
  ∀ batch heads maxSeq seq dim offset dst src f g, dst.shape = [batch, heads, maxSeq, dim] →
    src.shape = [batch, heads, seq, dim] → offset + seq ≤ maxSeq →
    Fills (batch * heads) maxSeq dim dst.data f → Fills (batch * heads) seq dim src.data g →
    ∃ out, write dst src offset = .ok out ∧ out.shape = [batch, heads, maxSeq, dim] ∧
      Fills (batch * heads) maxSeq dim out.data fun i j l =>
        if offset ≤ j ∧ j < offset + seq then g i (j - offset) l else f i j l

/-- The row of the key head that a query head attends to. -/
def kvRow (queryHeads kvHeads i : Nat) : Nat :=
  i / queryHeads * kvHeads + i % queryHeads / (queryHeads / kvHeads)

/-- `causal_sdpa_decode_gqa_cache` is attention of query head `h` over the first `kvLen` rows of
the key head `h / (queryHeads / kvHeads)`. -/
def AttendsHeads (exp sqrt : F → F)
    (decode : HostTensor F → HostTensor F → HostTensor F → Nat → Nat → Result (HostTensor F)) :
    Prop :=
  ∀ batch queryHeads kvHeads maxSeq dim kvLen qStart q k v fq fk fv,
    q.shape = [batch, queryHeads, 1, dim] → k.shape = [batch, kvHeads, maxSeq, dim] →
    v.shape = [batch, kvHeads, maxSeq, dim] → queryHeads ≠ 0 → kvHeads ≠ 0 →
    queryHeads % kvHeads = 0 → kvLen ≤ maxSeq → qStart + 1 = kvLen →
    Fills (batch * queryHeads) 1 dim q.data fq → Fills (batch * kvHeads) maxSeq dim k.data fk →
    Fills (batch * kvHeads) maxSeq dim v.data fv →
    ∃ out, decode q k v kvLen qStart = .ok out ∧ out.shape = [batch, queryHeads, 1, dim] ∧
      Fills (batch * queryHeads) 1 dim out.data (attention exp (1 / sqrt (dim : F)) dim kvLen qStart
        fq (fun i => fk (kvRow queryHeads kvHeads i)) fun i => fv (kvRow queryHeads kvHeads i))

end Relied

/-! ## Writing rows into a cache -/

section Write

variable {α : Type}

/-- `cpu_kv_cache_write_axis2`. -/
def cpuKvCacheWriteAxis2 (dst : List α) (dstShape : List Nat) (src : List α)
    (srcShape : List Nat) (seqOffset : Nat) : Result (List α) :=
  match dstShape, srcShape with
  | [batch, heads, maxSeq, dim], [srcBatch, srcHeads, srcSeq, srcDim] =>
    if batch ≠ srcBatch ∨ heads ≠ srcHeads ∨ dim ≠ srcDim then
      .error (.shapeMismatch [batch, heads, dim] [srcBatch, srcHeads, srcDim])
    else if seqOffset + srcSeq > maxSeq then
      .error (.shapeMismatch [maxSeq] [seqOffset + srcSeq])
    else if dst.length ≠ shapeSize dstShape then
      .error (.dataLengthMismatch dst.length dstShape (shapeSize dstShape))
    else if src.length ≠ shapeSize srcShape then
      .error (.dataLengthMismatch src.length srcShape (shapeSize srcShape))
    else
      (List.range batch).foldlM (fun dst batchIdx =>
        (List.range heads).foldlM (fun dst headIdx =>
          (List.range srcSeq).foldlM (fun dst seqIdx => do
            let srcBase := ((batchIdx * heads + headIdx) * srcSeq + seqIdx) * dim
            let dstBase := ((batchIdx * heads + headIdx) * maxSeq + seqOffset + seqIdx) * dim
            let row ← sliceAt src srcBase dim
            RowWise.copyFromSlice dst dstBase (dstBase + dim) row) dst) dst) dst
  | [_, _, _, _], shape => .error (.invalidRank shape.length)
  | shape, _ => .error (.invalidRank shape.length)

/-- The default `kv_cache_write_axis2` of a backend. -/
def kvCacheWriteAxis2 (dst src : HostTensor α) (seqOffset : Nat) : Result (HostTensor α) := do
  let data ← cpuKvCacheWriteAxis2 dst.data dst.shape src.data src.shape seqOffset
  HostTensor.new data dst.shape

variable {batch heads maxSeq seq dim offset : Nat} {dst src : List α} {f g : Nat → Nat → Nat → α}

/-- A row of the source is copied. -/
theorem puts_copyRow (hsrc : Fills (batch * heads) seq dim src g) (hroom : offset + seq ≤ maxSeq)
    {i j : Nat} (hi : i < batch * heads) (hj : j < seq) :
    FillLoop.Puts (batch * heads * (maxSeq * dim))
      (fun o => g (o / dim / maxSeq) (o / dim % maxSeq - offset) (o % dim))
      (fun o => (i * maxSeq + offset + j) * dim ≤ o ∧ o < (i * maxSeq + offset + j) * dim + dim)
      (fun dst => do
        let row ← sliceAt src ((i * seq + j) * dim) dim
        RowWise.copyFromSlice dst ((i * maxSeq + offset + j) * dim)
          ((i * maxSeq + offset + j) * dim + dim) row) := by
  have hsrcrow : (i * seq + j) * dim + dim ≤ src.length := by
    rw [hsrc.length, ← Nat.mul_assoc, ← Nat.succ_mul]
    exact Nat.mul_le_mul_right dim (matrix_place_lt hi hj)
  have hdstrow : (i * maxSeq + offset + j) * dim + dim ≤ batch * heads * (maxSeq * dim) := by
    rw [← Nat.mul_assoc, ← Nat.succ_mul, Nat.add_assoc]
    exact Nat.mul_le_mul_right dim (matrix_place_lt hi (by omega))
  have hlen : ((src.drop ((i * seq + j) * dim)).take dim).length = dim := by
    rw [List.length_take, List.length_drop]
    omega
  refine FillLoop.Puts.splice ((src.drop ((i * seq + j) * dim)).take dim) (by rw [hlen]) hdstrow
    (fun o hle hlt => ?_) fun out hout => ?_
  · obtain ⟨l, rfl⟩ := Nat.exists_eq_add_of_le hle
    have hl : l < dim := by omega
    have hplace : (i * maxSeq + offset + j) * dim + l = (i * maxSeq + (offset + j)) * dim + l := by
      rw [Nat.add_assoc]
    have hdiv : ((i * maxSeq + offset + j) * dim + l) / dim = i * maxSeq + (offset + j) := by
      rw [hplace, FillLoop.rowPlace_div hl]
    have hmax : offset + j < maxSeq := by omega
    rw [Nat.add_sub_cancel_left, List.getElem?_take_of_lt hl, List.getElem?_drop,
      hsrc.entry i hi j hj l hl, hdiv, FillLoop.rowPlace_div hmax, FillLoop.rowPlace_mod hmax,
      FillLoop.rowPlace_mod hl, Nat.add_sub_cancel_left]
  · rw [sliceAt_eq hsrcrow, result_ok_bind, RowWise.copyFromSlice,
      if_pos ⟨Nat.le_add_right _ _, hout.symm ▸ hdstrow, by rw [hlen, Nat.add_sub_cancel_left]⟩]

theorem cpuKvCacheWriteAxis2_eq (hroom : offset + seq ≤ maxSeq)
    (hdst : Fills (batch * heads) maxSeq dim dst f)
    (hsrc : Fills (batch * heads) seq dim src g) : ∃ out,
    cpuKvCacheWriteAxis2 dst [batch, heads, maxSeq, dim] src [batch, heads, seq, dim] offset =
        .ok out ∧
      Fills (batch * heads) maxSeq dim out fun i j l =>
        if offset ≤ j ∧ j < offset + seq then g i (j - offset) l else f i j l := by
  have hputs := FillLoop.Puts.foldlM (l := List.range batch) fun batchIdx hbatch =>
    FillLoop.Puts.foldlM (l := List.range heads) fun headIdx hhead =>
      FillLoop.Puts.foldlM (l := List.range seq) fun seqIdx hseq =>
        puts_copyRow hsrc hroom
          (matrix_place_lt (List.mem_range.mp hbatch) (List.mem_range.mp hhead))
          (List.mem_range.mp hseq)
  obtain ⟨out, hout, hlen, hentry⟩ := hputs dst hdst.length
  refine ⟨out, ?_, hlen, fun i hi j hj l hl => ?_⟩
  · unfold cpuKvCacheWriteAxis2
    dsimp only
    rw [if_neg (by simp), if_neg (Nat.not_lt_of_le hroom),
      if_neg (not_not_intro (by rw [hdst.length, shapeSize_four])),
      if_neg (not_not_intro (by rw [hsrc.length, shapeSize_four]))]
    exact hout
  · have hdiv : ((i * maxSeq + j) * dim + l) / dim = i * maxSeq + j := FillLoop.rowPlace_div hl
    obtain ⟨hput, hkeep⟩ := hentry _ (place_lt hi hj hl)
    split
    · rename_i hnew
      obtain ⟨j', rfl⟩ := Nat.exists_eq_add_of_le hnew.1
      have hheads : 0 < heads := Nat.pos_of_mul_pos_left (Nat.zero_lt_of_lt hi)
      have hwhere : i / heads * heads + i % heads = i := Nat.div_add_mod' i heads
      rw [hput ⟨i / heads, List.mem_range.mpr (Nat.div_lt_of_lt_mul (by rwa [Nat.mul_comm])),
        i % heads, List.mem_range.mpr (Nat.mod_lt _ hheads), j', List.mem_range.mpr (by omega), by
          rw [hwhere, Nat.add_assoc]
          omega⟩]
      dsimp only
      rw [hdiv, FillLoop.rowPlace_div hj, FillLoop.rowPlace_mod hj, FillLoop.rowPlace_mod hl]
    · rename_i hold
      rw [hkeep ?_, hdst.entry i hi j hj l hl]
      rintro ⟨batchIdx, -, headIdx, -, j', hj', hle, hlt⟩
      have hj' := List.mem_range.mp hj'
      have hrow : i * maxSeq + j = (batchIdx * heads + headIdx) * maxSeq + (offset + j') := by
        rw [← hdiv, ← Nat.add_assoc]
        exact Nat.div_eq_of_lt_le hle (by rwa [Nat.succ_mul])
      have hsame := (matrix_place_inj hj (by omega) hrow).2
      omega

/-- The default function of a backend writes the given rows, and keeps the others. -/
theorem kvCacheWriteAxis2_writes {F : Type} [Field F] :
    WritesRows (kvCacheWriteAxis2 : HostTensor F → HostTensor F → Nat → Result (HostTensor F)) := by
  intro batch heads maxSeq seq dim offset dst src f g hdst hsrc hroom hf hg
  obtain ⟨out, hout, hfills⟩ := cpuKvCacheWriteAxis2_eq hroom hf hg
  have hsize : out.length = shapeSize dst.shape := by
    rw [hfills.length, hdst, shapeSize_four]
  refine ⟨⟨out, dst.shape, hsize⟩, ?_, hdst, hfills⟩
  rw [← hdst, ← hsrc] at hout
  unfold kvCacheWriteAxis2
  rw [hout, result_ok_bind]
  exact HostTensor.new_eq hsize

end Write

/-! ## Attention of one row -/

section Decode

def validateDecodeGqaCacheShapes (qShape kShape vShape : List Nat) (kvLen qStart : Nat) :
    Result Unit :=
  match qShape, kShape, vShape with
  | [batch, queryHeads, qSeq, dim], [kBatch, kvHeads, maxSeq, kDim],
      [vBatch, vHeads, vSeq, vDim] =>
    if batch ≠ kBatch ∨ batch ≠ vBatch then .error (.shapeMismatch qShape kShape)
    else if qSeq ≠ 1 then .error (.shapeMismatch [1] [qSeq])
    else if dim ≠ kDim ∨ dim ≠ vDim then .error (.shapeMismatch qShape kShape)
    else if kvHeads ≠ vHeads ∨ maxSeq ≠ vSeq then .error (.shapeMismatch kShape vShape)
    else if maxSeq = 0 ∨ kvLen = 0 ∨ kvLen > maxSeq then .error (.invalidRank kvLen)
    else if queryHeads = 0 ∨ kvHeads = 0 ∨ queryHeads % kvHeads ≠ 0 then
      .error (.shapeMismatch [queryHeads] [kvHeads])
    else if qStart ≥ kvLen then .error (.shapeMismatch [qStart + 1] [kvLen])
    else .ok ()
  | [_, _, _, _], [_, _, _, _], shape => .error (.invalidRank shape.length)
  | [_, _, _, _], shape, _ => .error (.invalidRank shape.length)
  | shape, _, _ => .error (.invalidRank shape.length)

def checkLength {α : Type} (data : List α) (shape : List Nat) : Result Unit :=
  if data.length ≠ shapeSize shape then
    .error (.dataLengthMismatch data.length shape (shapeSize shape))
  else .ok ()

variable {F : Type} [Field F]

/-- The scores of the visible rows; `row` is that of the query, `kvRow` the head of the cache. -/
def decodeScores (q k : List F) (maxSeq headDim visible : Nat) (scale : F) (row kvRow : Nat) :
    Result (List F) :=
  (List.range visible).mapM fun pos => do
    let dot ← (List.range headDim).foldlM (fun dot dim => do
      let x ← index q (row * headDim + dim)
      let y ← index k ((kvRow * maxSeq + pos) * headDim + dim)
      return dot + x * y) 0
    return dot * scale

variable [LinearOrder F] (exp sqrt : F → F)

/-- What the loop over the heads does for one of them. -/
def decodeHead (q k v : List F) (maxSeq headDim visible : Nat) (scale : F) (out : List F)
    (row kvRow : Nat) : Result (List F) := do
  let scores ← decodeScores q k maxSeq headDim visible scale row kvRow
  let maxScore := (scores.map WithBot.some).foldl max ⊥
  let weights := scores.map fun score => expDiff exp (WithBot.some score) maxScore
  let denom := weights.sum
  if denom = 0 then .ok out
  else (List.range headDim).foldlM (fun out dim => do
    let acc ← weights.zipIdx.foldlM (fun acc (weight, pos) => do
      let value ← index v ((kvRow * maxSeq + pos) * headDim + dim)
      return acc + weight / denom * value) 0
    setAt out (row * headDim + dim) acc) out

/-- `cpu_causal_sdpa_decode_gqa_cache`. -/
def cpuCausalSdpaDecodeGqaCache (q : List F) (qShape : List Nat) (k : List F)
    (kShape : List Nat) (v : List F) (vShape : List Nat) (kvLen qStart : Nat) :
    Result (List F × List Nat) := do
  validateDecodeGqaCacheShapes qShape kShape vShape kvLen qStart
  checkLength q qShape
  checkLength k kShape
  checkLength v vShape
  match qShape, kShape with
  | [batch, queryHeads, _, headDim], [_, kvHeads, maxSeq, _] =>
    let kvRepeat := queryHeads / kvHeads
    let visible := min (qStart + 1) kvLen
    let scale := 1 / sqrt (headDim : F)
    let outShape := [batch, queryHeads, 1, headDim]
    let out ← (List.range batch).foldlM (fun out batchIdx =>
      (List.range queryHeads).foldlM (fun out queryHead =>
        decodeHead exp q k v maxSeq headDim visible scale out (batchIdx * queryHeads + queryHead)
          (batchIdx * kvHeads + queryHead / kvRepeat)) out)
      (List.replicate (shapeSize outShape) 0)
    return (out, outShape)
  | _, _ => .error .panicked

/-- The default `causal_sdpa_decode_gqa_cache` of a backend. -/
def causalSdpaDecodeGqaCache (q k v : HostTensor F) (kvLen qStart : Nat) :
    Result (HostTensor F) := do
  let (data, shape) ← cpuCausalSdpaDecodeGqaCache exp sqrt q.data q.shape k.data k.shape v.data
    v.shape kvLen qStart
  HostTensor.new data shape

end Decode

section DecodeSpec

variable {F : Type} [Field F] {rows kvRows maxSeq dim visible offset : Nat} {scale : F}
  {q k v : List F}
  {fq fk fv : Nat → Nat → Nat → F}

theorem maskedRow_visible {q k : Nat → Nat → Nat → F} (h : offset + 1 = visible) (i : Nat) :
    maskedRow scale dim visible offset q k i 0 = ((List.range visible).map fun l =>
      (∑ c ∈ Finset.range dim, q i 0 c * k i l c) * scale).map WithBot.some := by
  rw [List.map_map]
  refine List.map_congr_left fun l hl => ?_
  have hl := List.mem_range.mp hl
  rw [maskEntry, if_neg (by omega), add_zero]
  rfl

theorem decodeScores_eq (hq : Fills rows 1 dim q fq) (hk : Fills kvRows maxSeq dim k fk)
    (hvisible : visible ≤ maxSeq) {i r : Nat} (hi : i < rows) (hr : r < kvRows) :
    decodeScores q k maxSeq dim visible scale i r = .ok ((List.range visible).map fun l =>
      (∑ c ∈ Finset.range dim, fq i 0 c * fk r l c) * scale) := by
  refine mapM_range_ok fun pos hpos => ?_
  have hterm : ∀ c ∈ List.range dim, ∀ sum : F, (do
      let x ← index q (i * dim + c)
      let y ← index k ((r * maxSeq + pos) * dim + c)
      return sum + x * y : Result F) = .ok (sum + fq i 0 c * fk r pos c) := by
    intro c hc sum
    have hc := List.mem_range.mp hc
    have hx := hq.entry i hi 0 Nat.zero_lt_one c hc
    rw [Nat.mul_one, Nat.add_zero] at hx
    rw [index_eq_ok hx, result_ok_bind, index_eq_ok (hk.entry r hr pos (by omega) c hc)]
    rfl
  rw [foldlM_add hterm, zero_add, RowWise.sum_map_range]
  rfl

/-- What the loop over the dimensions adds up for a row of the output. -/
theorem decodeRow_eq (hv : Fills kvRows maxSeq dim v fv) (hvisible : visible ≤ maxSeq)
    {r d : Nat} (hr : r < kvRows) (hd : d < dim) {weights : List F}
    (hweights : weights.length = visible) (denom : F) :
    weights.zipIdx.foldlM (fun acc (weight, pos) => do
      let value ← index v ((r * maxSeq + pos) * dim + d)
      return acc + weight / denom * value) 0 =
      (.ok (∑ l ∈ Finset.range visible,
        (weights.map (· / denom)).getD l 0 * fv r l d) : Result F) := by
  have hterm : ∀ p ∈ weights.zipIdx, ∀ sum : F, (do
      let value ← index v ((r * maxSeq + p.2) * dim + d)
      return sum + p.1 / denom * value : Result F) =
        .ok (sum + p.1 / denom * fv r p.2 d) := by
    intro p hp sum
    have hlt := List.snd_lt_of_mem_zipIdx hp
    rw [index_eq_ok (hv.entry r hr p.2 (by omega) d hd)]
    rfl
  have hsum : (weights.zipIdx.map fun p => p.1 / denom * fv r p.2 d) =
      (List.range visible).map fun l => (weights.map (· / denom)).getD l 0 * fv r l d := by
    refine List.ext_getElem (by simp [hweights]) fun l hl hl' => ?_
    rw [List.length_map, List.length_zipIdx] at hl
    rw [List.getElem_map, List.getElem_map, List.getElem_zipIdx, List.getElem_range,
      List.getD_eq_getElem _ _ (by rwa [List.length_map]), List.getElem_map, Nat.zero_add]
  rw [foldlM_add hterm, zero_add, hsum, RowWise.sum_map_range]

variable [LinearOrder F] (exp sqrt : F → F)

def softmaxDenom (row : List (WithBot F)) : F :=
  (row.map fun value => expDiff exp value (row.foldl max ⊥)).sum

theorem softmaxRow_eq (row : List (WithBot F)) : softmaxRow exp row =
    row.map fun value => expDiff exp value (row.foldl max ⊥) / softmaxDenom exp row := rfl

/-- Without any weight, nothing is added up. -/
theorem attention_eq_zero {q k v : Nat → Nat → Nat → F} {i j : Nat}
    (h : softmaxDenom exp (maskedRow scale dim visible offset q k i j) = 0) (d : Nat) :
    attention exp scale dim visible offset q k v i j d = 0 := by
  refine Finset.sum_eq_zero fun l hl => ?_
  have hlen : l < (maskedRow scale dim visible offset q k i j).length := by
    rw [maskedRow, List.length_map, List.length_range]
    exact Finset.mem_range.mp hl
  have hzero : (softmaxRow exp (maskedRow scale dim visible offset q k i j)).getD l 0 = 0 := by
    rw [List.getD_eq_getElem _ _ (by rwa [length_softmaxRow])]
    simp only [softmaxRow_eq, List.getElem_map, h, div_zero]
  rw [hzero, zero_mul]

/-- A head writes its row of the output, unless it is to stay zero. -/
theorem decodeHead_puts {K : Nat → Nat} (hq : Fills rows 1 dim q fq)
    (hk : Fills kvRows maxSeq dim k fk) (hv : Fills kvRows maxSeq dim v fv)
    (hvisible : visible ≤ maxSeq) (hlast : offset + 1 = visible) {i : Nat} (hi : i < rows)
    (hr : K i < kvRows) :
    FillLoop.Puts (rows * dim)
      (fun o => attention exp scale dim visible offset fq (fun i => fk (K i)) (fun i => fv (K i))
        (o / dim) 0 (o % dim))
      (fun o => softmaxDenom exp
          (maskedRow scale dim visible offset fq (fun i => fk (K i)) i 0) ≠ 0 ∧
        i * dim ≤ o ∧ o < i * dim + dim)
      fun out => decodeHead exp q k v maxSeq dim visible scale out i (K i) := by
  have hrow : maskedRow scale dim visible offset fq (fun i => fk (K i)) i 0 =
      ((List.range visible).map fun l =>
        (∑ c ∈ Finset.range dim, fq i 0 c * fk (K i) l c) * scale).map WithBot.some :=
    maskedRow_visible hlast i
  generalize hscores : ((List.range visible).map fun l =>
    (∑ c ∈ Finset.range dim, fq i 0 c * fk (K i) l c) * scale) = scores at hrow
  have hlen : scores.length = visible := by
    rw [← hscores, List.length_map, List.length_range]
  generalize hweights : (scores.map fun score =>
    expDiff exp (WithBot.some score) ((scores.map WithBot.some).foldl max ⊥)) = weights
  have hweightslen : weights.length = visible := by
    rw [← hweights, List.length_map, hlen]
  have hdenom : softmaxDenom exp
      (maskedRow scale dim visible offset fq (fun i => fk (K i)) i 0) = weights.sum := by
    rw [hrow, softmaxDenom, List.map_map, ← hweights]
    rfl
  have hsoftmax : softmaxRow exp
      (maskedRow scale dim visible offset fq (fun i => fk (K i)) i 0) =
        weights.map (· / weights.sum) := by
    rw [softmaxRow_eq, hdenom, hrow, List.map_map, ← hweights, List.map_map]
    rfl
  have hhead : ∀ out, decodeHead exp q k v maxSeq dim visible scale out i (K i) =
      if weights.sum = 0 then .ok out
      else (List.range dim).foldlM (fun out d => do
        let acc ← weights.zipIdx.foldlM (fun acc (weight, pos) => do
          let value ← index v ((K i * maxSeq + pos) * dim + d)
          return acc + weight / weights.sum * value) 0
        setAt out (i * dim + d) acc) out := by
    intro out
    unfold decodeHead
    rw [decodeScores_eq hq hk hvisible hi hr, hscores, result_ok_bind]
    dsimp only
    rw [hweights]
  rw [hdenom]
  by_cases hzero : weights.sum = 0
  · intro out hout
    refine ⟨out, ?_, hout, fun o _ => ⟨fun h => absurd hzero h.1, fun _ => rfl⟩⟩
    dsimp only
    rw [hhead, if_pos hzero]
  · have hstep : ∀ d < dim, ∀ out : List F, out.length = rows * dim → (do
          let acc ← weights.zipIdx.foldlM (fun acc (weight, pos) => do
            let value ← index v ((K i * maxSeq + pos) * dim + d)
            return acc + weight / weights.sum * value) 0
          setAt out (i * dim + d) acc) = .ok (out.set (i * dim + d)
            (attention exp scale dim visible offset fq (fun i => fk (K i)) (fun i => fv (K i))
              i 0 d)) := by
      intro d hd out hout
      rw [decodeRow_eq hv hvisible hr hd hweightslen, result_ok_bind,
        RowWise.setAt_eq (hout.symm ▸ FillLoop.rowPlace_lt hi hd), attention, hsoftmax]
    have hputs := FillLoop.puts_row (W := fun i d => attention exp scale dim visible offset fq
      (fun i => fk (K i)) (fun i => fv (K i)) i 0 d) hi hstep
    refine (hputs.of_eq fun out _ => ?_).congr fun o _ => ⟨fun h => ⟨hzero, h⟩, fun h => h.2⟩
    dsimp only
    rw [hhead, if_neg hzero]

variable {batch queryHeads kvHeads kvLen qStart : Nat}

theorem kvRow_lt (hmod : queryHeads % kvHeads = 0) {i : Nat}
    (hi : i < batch * queryHeads) : kvRow queryHeads kvHeads i < batch * kvHeads := by
  have hquery : 0 < queryHeads := Nat.pos_of_mul_pos_left (Nat.zero_lt_of_lt hi)
  refine matrix_place_lt (Nat.div_lt_of_lt_mul (by rwa [Nat.mul_comm])) ?_
  have hrepeat : kvHeads * (queryHeads / kvHeads) = queryHeads :=
    Nat.mul_div_cancel' (Nat.dvd_of_mod_eq_zero hmod)
  refine Nat.div_lt_of_lt_mul ?_
  rw [Nat.mul_comm, hrepeat]
  exact Nat.mod_lt _ hquery

/-- The reference function attends, for any query in front of the end of the keys. -/
theorem causalSdpaDecodeGqaCache_eq {q k v : HostTensor F}
    (hqshape : q.shape = [batch, queryHeads, 1, dim])
    (hkshape : k.shape = [batch, kvHeads, maxSeq, dim])
    (hvshape : v.shape = [batch, kvHeads, maxSeq, dim]) (hquery : queryHeads ≠ 0)
    (hkv : kvHeads ≠ 0) (hmod : queryHeads % kvHeads = 0) (hroom : kvLen ≤ maxSeq)
    (hstart : qStart < kvLen) (hq : Fills (batch * queryHeads) 1 dim q.data fq)
    (hk : Fills (batch * kvHeads) maxSeq dim k.data fk)
    (hv : Fills (batch * kvHeads) maxSeq dim v.data fv) : ∃ out,
    causalSdpaDecodeGqaCache exp sqrt q k v kvLen qStart = .ok out ∧
      out.shape = [batch, queryHeads, 1, dim] ∧ Fills (batch * queryHeads) 1 dim out.data
        (attention exp (1 / sqrt (dim : F)) dim kvLen qStart fq
          (fun i => fk (kvRow queryHeads kvHeads i)) fun i => fv (kvRow queryHeads kvHeads i)) := by
  have hvalid : validateDecodeGqaCacheShapes q.shape k.shape v.shape kvLen qStart = .ok () := by
    rw [hqshape, hkshape, hvshape, validateDecodeGqaCacheShapes, if_neg (by simp),
      if_neg (by simp), if_neg (by simp), if_neg (by simp), if_neg (by omega), if_neg (by omega),
      if_neg (by omega)]
  have hlength : ∀ x : HostTensor F, checkLength x.data x.shape = .ok () := fun x =>
    if_neg (not_not_intro x.length_data)
  have hvisible : min (qStart + 1) kvLen = qStart + 1 := Nat.min_eq_left hstart
  have hsize : shapeSize [batch, queryHeads, 1, dim] = batch * queryHeads * dim := by
    rw [shapeSize_four, Nat.one_mul]
  have hhead : ∀ b < batch, ∀ h < queryHeads, FillLoop.Puts (batch * queryHeads * dim)
      (fun o => attention exp (1 / sqrt (dim : F)) dim (qStart + 1) qStart fq
        (fun i => fk (kvRow queryHeads kvHeads i)) (fun i => fv (kvRow queryHeads kvHeads i))
        (o / dim) 0 (o % dim))
      (fun o => softmaxDenom exp (maskedRow (1 / sqrt (dim : F)) dim (qStart + 1) qStart fq
          (fun i => fk (kvRow queryHeads kvHeads i)) (b * queryHeads + h) 0) ≠ 0 ∧
        (b * queryHeads + h) * dim ≤ o ∧ o < (b * queryHeads + h) * dim + dim)
      fun out => decodeHead exp q.data k.data v.data maxSeq dim (qStart + 1)
        (1 / sqrt (dim : F)) out (b * queryHeads + h)
        (b * kvHeads + h / (queryHeads / kvHeads)) := by
    intro b hb h hh
    have hi := matrix_place_lt hb hh
    have hwhere : b * kvHeads + h / (queryHeads / kvHeads) =
        kvRow queryHeads kvHeads (b * queryHeads + h) := by
      rw [kvRow, FillLoop.rowPlace_div hh, FillLoop.rowPlace_mod hh]
    rw [hwhere]
    exact decodeHead_puts exp hq hk hv (Nat.le_trans hstart hroom) rfl hi (kvRow_lt hmod hi)
  have hputs := FillLoop.Puts.foldlM (l := List.range batch) fun b hb =>
    FillLoop.Puts.foldlM (l := List.range queryHeads) fun h hh =>
      hhead b (List.mem_range.mp hb) h (List.mem_range.mp hh)
  obtain ⟨out, hout, hlen, hentry⟩ := hputs (List.replicate (batch * queryHeads * dim) 0)
    List.length_replicate
  have houtsize : out.length = shapeSize [batch, queryHeads, 1, dim] := hlen.trans hsize.symm
  refine ⟨⟨out, [batch, queryHeads, 1, dim], houtsize⟩, ?_, rfl, ?_, fun i hi j hj d hd => ?_⟩
  · unfold causalSdpaDecodeGqaCache cpuCausalSdpaDecodeGqaCache
    rw [hvalid, result_ok_bind, hlength, result_ok_bind, hlength, result_ok_bind, hlength,
      result_ok_bind, hqshape, hkshape]
    dsimp only
    rw [hvisible, hsize]
    dsimp only at hout
    rw [hout]
    exact HostTensor.new_eq houtsize
  · rw [hlen, Nat.one_mul]
  · obtain rfl : j = 0 := by omega
    rw [Nat.mul_one, Nat.add_zero, attention_of_hidden exp hstart]
    obtain ⟨hput, hkeep⟩ := hentry _ (FillLoop.rowPlace_lt hi hd)
    have hheads : 0 < queryHeads := Nat.pos_of_mul_pos_left (Nat.zero_lt_of_lt hi)
    have hwhere : i / queryHeads * queryHeads + i % queryHeads = i := Nat.div_add_mod' i queryHeads
    by_cases hzero : softmaxDenom exp (maskedRow (1 / sqrt (dim : F)) dim (qStart + 1) qStart fq
        (fun i => fk (kvRow queryHeads kvHeads i)) i 0) = 0
    · rw [attention_eq_zero exp hzero, hkeep ?_, List.getElem?_replicate,
        if_pos (FillLoop.rowPlace_lt hi hd)]
      rintro ⟨b, -, h, -, hne, hle, hlt⟩
      have hrow : i = b * queryHeads + h := by
        have hdiv := Nat.div_eq_of_lt_le hle (by rwa [Nat.succ_mul])
        rwa [FillLoop.rowPlace_div hd] at hdiv
      rw [← hrow] at hne
      exact hne hzero
    · rw [hput ⟨i / queryHeads, List.mem_range.mpr (Nat.div_lt_of_lt_mul (by rwa [Nat.mul_comm])),
        i % queryHeads, List.mem_range.mpr (Nat.mod_lt _ hheads), ?_⟩]
      · dsimp only
        rw [FillLoop.rowPlace_div hd, FillLoop.rowPlace_mod hd]
      · rw [hwhere]
        exact ⟨hzero, by omega⟩

/-- The default function of a backend attends to the rows in front. -/
theorem causalSdpaDecodeGqaCache_attends :
    AttendsHeads exp sqrt (causalSdpaDecodeGqaCache exp sqrt) := by
  intro batch queryHeads kvHeads maxSeq dim kvLen qStart q k v fq fk fv hqshape hkshape hvshape
    hquery hkv hmod hroom hstart hq hk hv
  exact causalSdpaDecodeGqaCache_eq exp sqrt hqshape hkshape hvshape hquery hkv hmod hroom
    (by omega) hq hk hv

end DecodeSpec

end Arle.Autograd
