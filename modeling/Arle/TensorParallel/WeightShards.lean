import Mathlib
import Arle.Lib.Fallible
import Arle.Lib.Slices

/-!
# Shards of weight matrices

Every rank of a tensor-parallel group cuts its part out of the bytes of a matrix: rows, columns, or
the rows of each segment of a fused matrix. The copies to a device are taken to succeed.
-/

namespace Arle.TensorParallel

open Fallible

/-- The bits of a number in the format `bf16`. -/
abbrev Bf16 := UInt16

section Model

structure TpConfig where
  worldSize : Nat
  rank : Nat
deriving DecidableEq

def TpConfig.new (worldSize rank : Nat) : Fallible TpConfig := do
  ensure (worldSize ≠ 0) "world_size must be ≥ 1"
  ensure (rank < worldSize) s!"rank ({rank}) must be < world_size ({worldSize})"
  return { worldSize, rank }

structure ShardingSpec where
  offset : Nat
  size : Nat
  total : Nat
deriving DecidableEq

/-- The exclusive end of a shard. -/
def ShardingSpec.stop (self : ShardingSpec) : Nat := self.offset + self.size

/-- The last rank takes the remainder. -/
def columnShard (total : Nat) (tp : TpConfig) : Fallible ShardingSpec := do
  assert (tp.worldSize ≤ total)
  let base := total / tp.worldSize
  let remainder := total % tp.worldSize
  return {
    offset := tp.rank * base
    size := if tp.rank = tp.worldSize - 1 then base + remainder else base
    total }

def rowShard (total : Nat) (tp : TpConfig) : Fallible ShardingSpec := columnShard total tp

inductive TpShardAxis
  | row
  | column
deriving DecidableEq

structure TpLoadContext where
  rank : Nat
  worldSize : Nat
  sharding : ShardingSpec
  axis : TpShardAxis
deriving DecidableEq

namespace TpLoadContext

def column (rank worldSize totalOutFeatures : Nat) : Fallible TpLoadContext := do
  let tp ← TpConfig.new worldSize rank
  let sharding ← columnShard totalOutFeatures tp
  return { rank, worldSize, sharding, axis := .column }

def row (rank worldSize totalInFeatures : Nat) : Fallible TpLoadContext := do
  let tp ← TpConfig.new worldSize rank
  let sharding ← rowShard totalInFeatures tp
  return { rank, worldSize, sharding, axis := .row }

end TpLoadContext

def bf16FromLeBytes (b0 b1 : UInt8) : Bf16 := b0.toUInt16 ||| b1.toUInt16 <<< 8

/-- The numbers of the chunks of two bytes. -/
def bf16Chunks : List UInt8 → List Bf16
  | b0 :: b1 :: bytes => bf16FromLeBytes b0 b1 :: bf16Chunks bytes
  | _ => []

/-- A slice out of bounds panics. -/
def pushBf16Range (data : List UInt8) (elemStart elemEnd : Nat) (out : List Bf16) :
    Fallible (List Bf16) := do
  let byteStart := elemStart * 2
  let byteEnd := elemEnd * 2
  assert (byteStart ≤ byteEnd ∧ byteEnd ≤ data.length)
  return out ++ bf16Chunks (slice data byteStart byteEnd)

/-- A row-major matrix on the host or on a device. -/
structure DeviceMatrix where
  data : List Bf16
  rows : Nat
  cols : Nat
deriving DecidableEq

def shardBf16MatrixHost (data : List UInt8) (rows cols : Nat) (tp : TpLoadContext) :
    Fallible DeviceMatrix := do
  ensure (data.length = rows * cols * 2)
    s!"bf16 matrix byte length mismatch: expected {rows * cols * 2}, got {data.length}"
  match tp.axis with
  | .row =>
    ensure (tp.sharding.total = cols)
      s!"row shard total {tp.sharding.total} does not match tensor cols {cols}"
    let out ← (List.range rows).foldlM (fun out row =>
      let elemStart := row * cols + tp.sharding.offset
      let elemEnd := elemStart + tp.sharding.size
      pushBf16Range data elemStart elemEnd out) []
    return { data := out, rows, cols := tp.sharding.size }
  | .column =>
    ensure (tp.sharding.total = rows)
      s!"column shard total {tp.sharding.total} does not match tensor rows {rows}"
    let elemStart := tp.sharding.offset * cols
    let elemEnd := tp.sharding.stop * cols
    let out ← pushBf16Range data elemStart elemEnd []
    return { data := out, rows := tp.sharding.size, cols }

structure TensorView where
  shape : List Nat
  data : List UInt8

/-- The files of a checkpoint, by what they return for a name, and the file that a name is in. -/
structure Checkpoint where
  shards : List (String → Except String TensorView)
  weightMap : String → Option Nat

def findTensor (checkpoint : Checkpoint) (name : String) : Fallible TensorView :=
  match checkpoint.weightMap name with
  | some idx =>
    match checkpoint.shards[idx]? with
    | none => panics
    | some shard =>
      match shard name with
      | .ok tensor => pure tensor
      | .error e => throw s!"Failed to load tensor '{name}': {e}"
  | none =>
    match checkpoint.shards.findSome? fun shard => (shard name).toOption with
    | some tensor => pure tensor
    | none => throw s!"Tensor '{name}' not found in any shard"

namespace DeviceMatrix

def fromHost (data : List Bf16) (rows cols : Nat) : Fallible DeviceMatrix := do
  assert (data.length = rows * cols)
  return { data, rows, cols }

def fromSafetensors (data : List UInt8) (rows cols : Nat) : Fallible DeviceMatrix := do
  ensure (data.length = rows * cols * 2)
    s!"Data length mismatch: expected {rows * cols * 2} bytes, got {data.length} bytes"
  return { data := bf16Chunks data, rows, cols }

end DeviceMatrix

def loadTensor2d (checkpoint : Checkpoint) (name : String) : Fallible DeviceMatrix := do
  let tensor ← findTensor checkpoint name
  let rows ← ofOption tensor.shape[0]?
  let cols ← ofOption tensor.shape[1]?
  DeviceMatrix.fromSafetensors tensor.data rows cols

/-- The rows of a rank from one segment are pushed behind those from the segments before. -/
def pushSegment (data : List UInt8) (cols rank worldSize : Nat) (state : List Bf16 × Nat)
    (segmentLen : Nat) : Fallible (List Bf16 × Nat) := do
  let (out, segmentBase) := state
  let tp ← TpLoadContext.column rank worldSize segmentLen
  let elemStart := (segmentBase + tp.sharding.offset) * cols
  let elemEnd := (segmentBase + tp.sharding.stop) * cols
  let out ← pushBf16Range data elemStart elemEnd out
  return (out, segmentBase + segmentLen)

/-- A division by zero panics. -/
def loadTensor2dFusedColumnSegmentsSharded (checkpoint : Checkpoint) (name : String)
    (segmentRows : List Nat) (rank worldSize : Nat) : Fallible DeviceMatrix :=
  if worldSize = 1 then
    loadTensor2d checkpoint name
  else do
    let tensor ← findTensor checkpoint name
    ensure (tensor.shape.length = 2)
      s!"{name}: expected 2D fused segmented tensor for TP load, got shape {tensor.shape}"
    let rows ← ofOption tensor.shape[0]?
    let cols ← ofOption tensor.shape[1]?
    ensure (segmentRows.sum = rows)
      s!"{name}: fused segment rows {segmentRows} do not sum to tensor rows {rows}"
    ensure (tensor.data.length = rows * cols * 2)
      (s!"{name}: bf16 matrix byte length mismatch: expected {rows * cols * 2}, " ++
        s!"got {tensor.data.length}")
    let (out, _) ← segmentRows.foldlM (pushSegment tensor.data cols rank worldSize) ([], 0)
    assert (cols ≠ 0)
    DeviceMatrix.fromHost out (out.length / cols) cols

end Model

/-! ## The pieces of a rank -/

section Pieces

variable {data : List UInt8}

/-- What a rank gets of a dimension. -/
def shardOf (total worldSize rank : Nat) : ShardingSpec where
  offset := rank * (total / worldSize)
  size := if rank = worldSize - 1 then total / worldSize + total % worldSize else total / worldSize
  total := total

/-- Where the shard of a rank begins; behind the last rank the end of the dimension. -/
def cut (total worldSize rank : Nat) : Nat :=
  if rank < worldSize then rank * (total / worldSize) else total

theorem cut_zero {worldSize : Nat} (hpos : 0 < worldSize) (total : Nat) :
    cut total worldSize 0 = 0 := by
  rw [cut, if_pos hpos, Nat.zero_mul]

theorem cut_worldSize (total worldSize : Nat) : cut total worldSize worldSize = total :=
  if_neg (Nat.lt_irrefl _)

theorem cut_le (total worldSize rank : Nat) : cut total worldSize rank ≤ total := by
  unfold cut
  split
  · next hrank =>
    exact (Nat.mul_le_mul_right _ hrank.le).trans (Nat.mul_div_le total worldSize)
  · exact Nat.le_refl _

theorem monotone_cut (total worldSize : Nat) : Monotone (cut total worldSize) := by
  intro r r' hle
  by_cases hr' : r' < worldSize
  · rw [cut, cut, if_pos hr', if_pos (by omega)]
    exact Nat.mul_le_mul_right _ hle
  · have hend : cut total worldSize r' = total := if_neg hr'
    rw [hend]
    exact cut_le total worldSize r

theorem cut_le_succ (total worldSize rank : Nat) :
    cut total worldSize rank ≤ cut total worldSize (rank + 1) :=
  monotone_cut total worldSize (Nat.le_add_right rank 1)

theorem offset_eq {worldSize rank : Nat} (hrank : rank < worldSize) (total : Nat) :
    (shardOf total worldSize rank).offset = cut total worldSize rank := (if_pos hrank).symm

/-- A shard ends where the next one begins. -/
theorem stop_eq {worldSize rank : Nat} (hrank : rank < worldSize) (total : Nat) :
    (shardOf total worldSize rank).stop = cut total worldSize (rank + 1) := by
  unfold ShardingSpec.stop shardOf cut
  dsimp only
  by_cases hlast : rank = worldSize - 1
  · rw [if_pos hlast, if_neg (by omega)]
    have hsize : worldSize = rank + 1 := by omega
    have := Nat.div_add_mod total worldSize
    rw [← Nat.add_assoc, ← Nat.succ_mul, Nat.succ_eq_add_one, ← hsize]
    exact this
  · rw [if_neg hlast, if_pos (by omega), Nat.succ_mul]

theorem new_eq {worldSize rank : Nat} (hrank : rank < worldSize) :
    TpConfig.new worldSize rank = pure { worldSize, rank } := by
  unfold TpConfig.new
  rw [ensure_of (by omega), ensure_of hrank, pure_bind, pure_bind]

theorem columnShard_eq {total worldSize : Nat} (h : worldSize ≤ total) (rank : Nat) :
    columnShard total { worldSize, rank } = pure (shardOf total worldSize rank) := by
  unfold columnShard
  rw [assert_of h, pure_bind]
  rfl

theorem column_eq {total worldSize rank : Nat} (hrank : rank < worldSize)
    (h : worldSize ≤ total) : TpLoadContext.column rank worldSize total =
      pure { rank, worldSize, sharding := shardOf total worldSize rank, axis := .column } := by
  unfold TpLoadContext.column
  rw [new_eq hrank, pure_bind, columnShard_eq h, pure_bind]

theorem row_eq {total worldSize rank : Nat} (hrank : rank < worldSize)
    (h : worldSize ≤ total) : TpLoadContext.row rank worldSize total =
      pure { rank, worldSize, sharding := shardOf total worldSize rank, axis := .row } := by
  unfold TpLoadContext.row rowShard
  rw [new_eq hrank, pure_bind, columnShard_eq h, pure_bind]

theorem length_bf16Chunks {n : Nat} (h : data.length = n * 2) : (bf16Chunks data).length = n := by
  induction n generalizing data with
  | zero => rw [List.length_eq_zero_iff.mp (h.trans (Nat.zero_mul 2))]; rfl
  | succ n ih =>
    rcases data with _ | ⟨b0, _ | ⟨b1, data⟩⟩
    · simp at h
    · simp only [List.length_singleton] at h
      omega
    · rw [List.length_cons, List.length_cons] at h
      rw [bf16Chunks, List.length_cons, ih (by omega)]

theorem bf16Chunks_drop (data : List UInt8) (a : Nat) :
    bf16Chunks (data.drop (a * 2)) = (bf16Chunks data).drop a := by
  induction a generalizing data with
  | zero => rw [Nat.zero_mul, List.drop_zero, List.drop_zero]
  | succ a ih =>
    rcases data with _ | ⟨b0, _ | ⟨b1, data⟩⟩
    · rw [List.drop_nil]
      exact List.drop_nil.symm
    · rw [List.drop_eq_nil_of_le (by rw [List.length_singleton]; omega)]
      rfl
    · rw [Nat.succ_mul]
      exact ih data

theorem bf16Chunks_take (data : List UInt8) (b : Nat) :
    bf16Chunks (data.take (b * 2)) = (bf16Chunks data).take b := by
  induction b generalizing data with
  | zero => rw [Nat.zero_mul, List.take_zero, List.take_zero]; rfl
  | succ b ih =>
    rcases data with _ | ⟨b0, _ | ⟨b1, data⟩⟩
    · rw [List.take_nil]
      exact List.take_nil.symm
    · rw [List.take_of_length_le (by rw [List.length_singleton]; omega)]
      rfl
    · rw [Nat.succ_mul]
      exact congrArg (bf16FromLeBytes b0 b1 :: ·) (ih data)

theorem pushBf16Range_eq {elemStart elemEnd : Nat} (h : elemStart ≤ elemEnd)
    (hend : elemEnd * 2 ≤ data.length) (out : List Bf16) :
    pushBf16Range data elemStart elemEnd out =
      pure (out ++ slice (bf16Chunks data) elemStart elemEnd) := by
  unfold pushBf16Range
  dsimp only
  rw [assert_of ⟨Nat.mul_le_mul_right 2 h, hend⟩, pure_bind, slice, bf16Chunks_drop,
    bf16Chunks_take]
  rfl

theorem foldlM_pushBf16Range {ι : Type} {items : List ι} {start stop : ι → Nat}
    (h : ∀ i ∈ items, start i ≤ stop i ∧ stop i * 2 ≤ data.length) (out : List Bf16) :
    items.foldlM (fun out i => pushBf16Range data (start i) (stop i) out) out =
      pure (out ++ items.flatMap fun i => slice (bf16Chunks data) (start i) (stop i)) := by
  induction items generalizing out with
  | nil => rw [List.flatMap_nil, List.append_nil]; rfl
  | cons i items ih =>
    obtain ⟨hle, hend⟩ := h i List.mem_cons_self
    rw [List.foldlM_cons, pushBf16Range_eq hle hend, pure_bind,
      ih fun j hj => h j (List.mem_cons_of_mem i hj), List.flatMap_cons, List.append_assoc]

end Pieces

/-! ## Both axes of a matrix -/

section Axes

variable {data : List UInt8} {rows cols worldSize rank : Nat}

/-- The entries of a row. -/
def DeviceMatrix.row (self : DeviceMatrix) (i : Nat) : List Bf16 :=
  slice self.data (i * self.cols) ((i + 1) * self.cols)

/-- The parts of the ranks one above the other. -/
def vconcat (part : Nat → DeviceMatrix) (worldSize cols : Nat) : DeviceMatrix where
  data := (List.range worldSize).flatMap fun rank => (part rank).data
  rows := ((List.range worldSize).map fun rank => (part rank).rows).sum
  cols := cols

/-- The parts of the ranks side by side. -/
def hconcat (part : Nat → DeviceMatrix) (worldSize rows : Nat) : DeviceMatrix where
  data := (List.range rows).flatMap fun i =>
    (List.range worldSize).flatMap fun rank => (part rank).row i
  rows := rows
  cols := ((List.range worldSize).map fun rank => (part rank).cols).sum

theorem size_eq (hrank : rank < worldSize) (total : Nat) :
    cut total worldSize rank + (shardOf total worldSize rank).size =
      cut total worldSize (rank + 1) := by
  rw [← stop_eq hrank, ← offset_eq hrank]
  rfl

/-- The shards of a dimension have its size together. -/
theorem sum_sizes (hpos : 0 < worldSize) (total : Nat) :
    ((List.range worldSize).map fun rank => (shardOf total worldSize rank).size).sum = total := by
  have hsum : ∀ n ≤ worldSize, ((List.range n).map fun rank =>
      (shardOf total worldSize rank).size).sum = cut total worldSize n := by
    intro n hn
    induction n with
    | zero => exact (cut_zero hpos total).symm
    | succ n ih =>
      rw [List.range_succ, List.map_append, List.sum_append, ih (by omega), List.map_singleton,
        List.sum_singleton]
      exact size_eq hn total
  rw [hsum worldSize (Nat.le_refl _), cut_worldSize]

/-- The rows of a rank. -/
def columnPart (data : List UInt8) (rows cols worldSize rank : Nat) : DeviceMatrix where
  data := slice (bf16Chunks data) (cut rows worldSize rank * cols)
    (cut rows worldSize (rank + 1) * cols)
  rows := (shardOf rows worldSize rank).size
  cols := cols

/-- The columns of a rank. -/
def rowPart (data : List UInt8) (rows cols worldSize rank : Nat) : DeviceMatrix where
  data := (List.range rows).flatMap fun i => slice (bf16Chunks data)
    (i * cols + cut cols worldSize rank) (i * cols + cut cols worldSize (rank + 1))
  rows := rows
  cols := (shardOf cols worldSize rank).size

theorem row_end_le {i c : Nat} (hi : i < rows) (hc : c ≤ cols) : i * cols + c ≤ rows * cols := by
  have hnext : i * cols + cols ≤ rows * cols := by
    rw [← Nat.succ_mul]
    exact Nat.mul_le_mul_right cols hi
  omega

theorem shard_column (hlen : data.length = rows * cols * 2) (hrank : rank < worldSize) :
    shardBf16MatrixHost data rows cols
      { rank, worldSize, sharding := shardOf rows worldSize rank, axis := .column } =
        pure (columnPart data rows cols worldSize rank) := by
  have htotal : (shardOf rows worldSize rank).total = rows := rfl
  have hle := Nat.mul_le_mul_right cols (cut_le_succ rows worldSize rank)
  have hend := Nat.mul_le_mul_right cols (cut_le rows worldSize (rank + 1))
  unfold shardBf16MatrixHost
  rw [ensure_of hlen, pure_bind]
  dsimp only
  rw [ensure_of htotal, pure_bind, offset_eq hrank, stop_eq hrank, pushBf16Range_eq hle (by omega),
    pure_bind]
  rfl

theorem shard_row (hlen : data.length = rows * cols * 2) (hrank : rank < worldSize) :
    shardBf16MatrixHost data rows cols
      { rank, worldSize, sharding := shardOf cols worldSize rank, axis := .row } =
        pure (rowPart data rows cols worldSize rank) := by
  have htotal : (shardOf cols worldSize rank).total = cols := rfl
  have hstop (i : Nat) : i * cols + cut cols worldSize rank +
      (shardOf cols worldSize rank).size = i * cols + cut cols worldSize (rank + 1) := by
    rw [Nat.add_assoc, size_eq hrank]
  unfold shardBf16MatrixHost
  rw [ensure_of hlen, pure_bind]
  dsimp only
  rw [ensure_of htotal, pure_bind, offset_eq hrank]
  simp only [hstop]
  rw [foldlM_pushBf16Range, pure_bind]
  · rfl
  · intro i hi
    have hle := cut_le_succ cols worldSize rank
    have hend := row_end_le (List.mem_range.mp hi) (cut_le cols worldSize (rank + 1))
    exact ⟨Nat.add_le_add_left hle _, by omega⟩

theorem vconcat_columnPart (hlen : data.length = rows * cols * 2) (hpos : 0 < worldSize) :
    vconcat (columnPart data rows cols worldSize) worldSize cols =
      { data := bf16Chunks data, rows, cols } := by
  have hmono : Monotone fun r => cut rows worldSize r * cols :=
    fun r r' hle => Nat.mul_le_mul_right cols (monotone_cut rows worldSize hle)
  have hdata := flatMap_slice hmono (bf16Chunks data) worldSize
  rw [cut_zero hpos, Nat.zero_mul, cut_worldSize, ← length_bf16Chunks hlen, slice_length] at hdata
  unfold vconcat columnPart
  dsimp only
  rw [hdata, sum_sizes hpos]

/-- A row of the part of a rank are the columns of the rank in that row. -/
theorem row_rowPart (hlen : data.length = rows * cols * 2) (hrank : rank < worldSize) {i : Nat}
    (hi : i < rows) : (rowPart data rows cols worldSize rank).row i = slice (bf16Chunks data)
      (i * cols + cut cols worldSize rank) (i * cols + cut cols worldSize (rank + 1)) := by
  refine slice_flatMap_range (fun j hj => ?_) hi
  have hend := row_end_le hj (cut_le cols worldSize (rank + 1))
  rw [← length_bf16Chunks hlen] at hend
  rw [length_slice hend, ← size_eq hrank]
  show _ = (shardOf cols worldSize rank).size
  omega

theorem hconcat_rowPart (hlen : data.length = rows * cols * 2) (hpos : 0 < worldSize) :
    hconcat (rowPart data rows cols worldSize) worldSize rows =
      { data := bf16Chunks data, rows, cols } := by
  have hrow : ∀ i ∈ List.range rows, ((List.range worldSize).flatMap fun rank =>
      (rowPart data rows cols worldSize rank).row i) =
        slice (bf16Chunks data) (i * cols) ((i + 1) * cols) := by
    intro i hi
    have hmono : Monotone fun r => i * cols + cut cols worldSize r :=
      fun r r' hle => Nat.add_le_add_left (monotone_cut cols worldSize hle) _
    have hcuts := flatMap_slice hmono (bf16Chunks data) worldSize
    rw [cut_zero hpos, Nat.add_zero, cut_worldSize, ← Nat.succ_mul] at hcuts
    rw [← hcuts]
    exact List.flatMap_congr fun rank hrank =>
      row_rowPart hlen (List.mem_range.mp hrank) (List.mem_range.mp hi)
  have hmono : Monotone fun i => i * cols := fun i j hle => Nat.mul_le_mul_right cols hle
  have hdata := flatMap_slice hmono (bf16Chunks data) rows
  rw [Nat.zero_mul, ← length_bf16Chunks hlen, slice_length] at hdata
  unfold hconcat
  rw [List.flatMap_congr hrow, hdata]
  show DeviceMatrix.mk _ _ ((List.range worldSize).map fun rank =>
    (shardOf cols worldSize rank).size).sum = _
  rw [sum_sizes hpos]

end Axes

/-! ## Fused matrices -/

section Fused

variable {data : List UInt8} {rows cols worldSize rank : Nat}

/-- The rows of a segment, by the numbers of rows of all segments. -/
def DeviceMatrix.segment (self : DeviceMatrix) (segmentRows : List Nat) (i : Nat) : List Bf16 :=
  slice self.data ((segmentRows.take i).sum * self.cols)
    ((segmentRows.take (i + 1)).sum * self.cols)

/-- The numbers of rows that a rank has of the segments. -/
def rankRows (segmentRows : List Nat) (worldSize rank : Nat) : List Nat :=
  segmentRows.map fun len => (shardOf len worldSize rank).size

/-- The rows of a rank from segments that begin at a row. -/
def rankPieces (elems : List Bf16) (cols worldSize rank : Nat) : Nat → List Nat → List (List Bf16)
  | _, [] => []
  | base, len :: lens =>
    slice elems ((base + cut len worldSize rank) * cols)
      ((base + cut len worldSize (rank + 1)) * cols) ::
        rankPieces elems cols worldSize rank (base + len) lens

theorem foldlM_pushSegment (hrank : rank < worldSize) (segmentRows : List Nat)
    (hsegments : ∀ len ∈ segmentRows, worldSize ≤ len) {base : Nat}
    (hend : (base + segmentRows.sum) * cols * 2 ≤ data.length) (out : List Bf16) :
    segmentRows.foldlM (pushSegment data cols rank worldSize) (out, base) =
      pure (out ++ (rankPieces (bf16Chunks data) cols worldSize rank base segmentRows).flatten,
        base + segmentRows.sum) := by
  induction segmentRows generalizing base out with
  | nil => rw [rankPieces, List.flatten_nil, List.append_nil]; rfl
  | cons len lens ih =>
    rw [List.sum_cons, ← Nat.add_assoc] at hend
    have hcut := cut_le_succ len worldSize rank
    have hstop : (base + cut len worldSize (rank + 1)) * cols ≤ (base + len + lens.sum) * cols :=
      Nat.mul_le_mul_right cols (by have := cut_le len worldSize (rank + 1); omega)
    have hpush : pushSegment data cols rank worldSize (out, base) len =
        pure (out ++ slice (bf16Chunks data) ((base + cut len worldSize rank) * cols)
          ((base + cut len worldSize (rank + 1)) * cols), base + len) := by
      unfold pushSegment
      dsimp only
      rw [column_eq hrank (hsegments len List.mem_cons_self), pure_bind]
      dsimp only
      rw [offset_eq hrank, stop_eq hrank,
        pushBf16Range_eq (Nat.mul_le_mul_right cols (Nat.add_le_add_left hcut base)) (by omega),
        pure_bind]
    rw [List.foldlM_cons, hpush, pure_bind,
      ih (fun len' hlen' => hsegments len' (List.mem_cons_of_mem _ hlen')) hend, rankPieces,
      List.flatten_cons, List.append_assoc, List.sum_cons, Nat.add_assoc]

theorem length_rankPieces (elems : List Bf16) (base : Nat) (segmentRows : List Nat) :
    (rankPieces elems cols worldSize rank base segmentRows).length = segmentRows.length := by
  induction segmentRows generalizing base with
  | nil => rfl
  | cons len lens ih => rw [rankPieces, List.length_cons, ih, List.length_cons]

/-- The numbers of entries of the pieces. -/
theorem map_length_rankPieces {elems : List Bf16} (hrank : rank < worldSize)
    (segmentRows : List Nat) {base : Nat} (hend : (base + segmentRows.sum) * cols ≤ elems.length) :
    (rankPieces elems cols worldSize rank base segmentRows).map List.length =
      (rankRows segmentRows worldSize rank).map (· * cols) := by
  induction segmentRows generalizing base with
  | nil => rfl
  | cons len lens ih =>
    rw [List.sum_cons, ← Nat.add_assoc] at hend
    have hstop : (base + cut len worldSize (rank + 1)) * cols ≤ (base + len + lens.sum) * cols :=
      Nat.mul_le_mul_right cols (by have := cut_le len worldSize (rank + 1); omega)
    have hsize := size_eq hrank len
    rw [rankPieces, List.map_cons, ih hend, length_slice (hstop.trans hend), ← Nat.sub_mul, ← hsize]
    have hrows : base + (cut len worldSize rank + (shardOf len worldSize rank).size) -
        (base + cut len worldSize rank) = (shardOf len worldSize rank).size := by omega
    rw [hrows]
    rfl

theorem getElem_rankPieces (elems : List Bf16) (base : Nat) (segmentRows : List Nat) {i : Nat}
    (hi : i < segmentRows.length)
    (hpiece : i < (rankPieces elems cols worldSize rank base segmentRows).length) :
    (rankPieces elems cols worldSize rank base segmentRows)[i] =
      slice elems ((base + (segmentRows.take i).sum + cut segmentRows[i] worldSize rank) * cols)
        ((base + (segmentRows.take i).sum + cut segmentRows[i] worldSize (rank + 1)) * cols) := by
  induction segmentRows generalizing base i with
  | nil => exact absurd hi (Nat.not_lt_zero i)
  | cons len lens ih =>
    cases i with
    | zero => rfl
    | succ i =>
      simp only [rankPieces, List.getElem_cons_succ, List.take_succ_cons, List.sum_cons]
      rw [ih _ (Nat.lt_of_succ_lt_succ hi), Nat.add_assoc base len]

/-- A segment of what a rank loads is the rank's part of the segment. -/
theorem segment_rankPieces (hlen : data.length = rows * cols * 2) (hrank : rank < worldSize)
    {segmentRows : List Nat} (hsum : segmentRows.sum = rows) {i : Nat}
    (hi : i < segmentRows.length) (outRows : Nat) :
    (DeviceMatrix.mk (rankPieces (bf16Chunks data) cols worldSize rank 0 segmentRows).flatten
      outRows cols).segment (rankRows segmentRows worldSize rank) i =
      slice (bf16Chunks data)
        (((segmentRows.take i).sum + cut segmentRows[i] worldSize rank) * cols)
        (((segmentRows.take i).sum + cut segmentRows[i] worldSize (rank + 1)) * cols) := by
  have hend : (0 + segmentRows.sum) * cols ≤ (bf16Chunks data).length := by
    rw [Nat.zero_add, hsum, length_bf16Chunks hlen]
  have hlens := map_length_rankPieces hrank segmentRows hend
  have hpiece := slice_flatten (rankPieces (bf16Chunks data) cols worldSize rank 0 segmentRows)
    (i := i) (by rwa [length_rankPieces])
  have hscaled (n : Nat) : (((rankRows segmentRows worldSize rank).map (· * cols)).take n).sum =
      ((rankRows segmentRows worldSize rank).take n).sum * cols := by
    rw [← List.map_take, List.sum_map_mul_right, List.map_id']
  rw [hlens, hscaled, hscaled, getElem_rankPieces _ 0 _ hi, Nat.zero_add] at hpiece
  exact hpiece

/-- The segments of the ranks make up the segment of the matrix. -/
theorem flatMap_segment {elems : List Bf16} (hpos : 0 < worldSize) {segmentRows : List Nat}
    {i : Nat} (hi : i < segmentRows.length) :
    ((List.range worldSize).flatMap fun rank => slice elems
      (((segmentRows.take i).sum + cut segmentRows[i] worldSize rank) * cols)
      (((segmentRows.take i).sum + cut segmentRows[i] worldSize (rank + 1)) * cols)) =
      (DeviceMatrix.mk elems rows cols).segment segmentRows i := by
  have hmono : Monotone fun r =>
      ((segmentRows.take i).sum + cut segmentRows[i] worldSize r) * cols := fun r r' hle =>
    Nat.mul_le_mul_right cols (Nat.add_le_add_left (monotone_cut _ worldSize hle) _)
  have hcuts := flatMap_slice hmono elems worldSize
  rw [cut_zero hpos, cut_worldSize, Nat.add_zero] at hcuts
  rw [hcuts, DeviceMatrix.segment, List.take_add_one, List.getElem?_eq_getElem hi, List.sum_append]
  simp only [Option.toList_some, List.sum_singleton]

variable {checkpoint : Checkpoint} {name : String}

theorem load_single (hlen : data.length = rows * cols * 2)
    (hfind : findTensor checkpoint name = pure { shape := [rows, cols], data })
    (segmentRows : List Nat) (rank : Nat) :
    loadTensor2dFusedColumnSegmentsSharded checkpoint name segmentRows rank 1 =
      pure { data := bf16Chunks data, rows, cols } := by
  unfold loadTensor2dFusedColumnSegmentsSharded loadTensor2d
  rw [if_pos rfl, hfind, pure_bind]
  show DeviceMatrix.fromSafetensors data rows cols = _
  rw [DeviceMatrix.fromSafetensors, ensure_of hlen, pure_bind]

/-- A rank of several: a matrix without columns is not loaded. -/
theorem load_sharded (hlen : data.length = rows * cols * 2)
    (hfind : findTensor checkpoint name = pure { shape := [rows, cols], data })
    {segmentRows : List Nat} (hsum : segmentRows.sum = rows)
    (hsegments : ∀ len ∈ segmentRows, worldSize ≤ len) (hworld : worldSize ≠ 1)
    (hrank : rank < worldSize) : ∃ outRows,
      loadTensor2dFusedColumnSegmentsSharded checkpoint name segmentRows rank worldSize =
        if cols = 0 then panics else pure { data :=
          (rankPieces (bf16Chunks data) cols worldSize rank 0 segmentRows).flatten
                                            rows := outRows, cols } := by
  have hbytes : (0 + segmentRows.sum) * cols * 2 ≤ data.length := by
    rw [Nat.zero_add, hsum, hlen]
  have hpush := foldlM_pushSegment hrank segmentRows hsegments hbytes []
  have hend : (0 + segmentRows.sum) * cols ≤ (bf16Chunks data).length := by
    rw [Nat.zero_add, hsum, length_bf16Chunks hlen]
  have hlens := map_length_rankPieces hrank segmentRows hend
  generalize hout : (rankPieces (bf16Chunks data) cols worldSize rank 0 segmentRows).flatten = out
    at hpush
  refine ⟨out.length / cols, ?_⟩
  unfold loadTensor2dFusedColumnSegmentsSharded
  rw [if_neg hworld, hfind, pure_bind]
  show (do
    ensure (segmentRows.sum = rows) _
    ensure (data.length = rows * cols * 2) _
    let (out, _) ← segmentRows.foldlM (pushSegment data cols rank worldSize) ([], 0)
    assert (cols ≠ 0)
    DeviceMatrix.fromHost out (out.length / cols) cols) = _
  rw [ensure_of hsum, pure_bind, ensure_of hlen, pure_bind, hpush, pure_bind]
  dsimp only
  rw [List.nil_append]
  by_cases hcols : cols = 0
  · rw [if_pos hcols]
    exact congrArg (· >>= _) (if_neg (not_not.mpr hcols))
  · have hwhole : out.length = out.length / cols * cols := by
      refine (Nat.div_mul_cancel ?_).symm
      rw [← hout, List.length_flatten, hlens, List.sum_map_mul_right]
      exact Nat.dvd_mul_left _ _
    rw [if_neg hcols, assert_of hcols, pure_bind, DeviceMatrix.fromHost, assert_of hwhole,
      pure_bind]

end Fused

/-- The shards of a matrix put together along the sharded axis are the matrix. The segments that
the ranks load of a fused matrix are those of the matrix, if and only if there is one rank or the
matrix has columns. -/
theorem weight_shards_exact {data : List UInt8} {rows cols worldSize : Nat}
    (hlen : data.length = rows * cols * 2) (hpos : 0 < worldSize) :
    (worldSize ≤ cols → ∃ part : Nat → DeviceMatrix,
      (∀ rank < worldSize, (TpLoadContext.row rank worldSize cols >>=
        shardBf16MatrixHost data rows cols) = pure (part rank)) ∧
      hconcat part worldSize rows = { data := bf16Chunks data, rows, cols }) ∧
    (worldSize ≤ rows → ∃ part : Nat → DeviceMatrix,
      (∀ rank < worldSize, (TpLoadContext.column rank worldSize rows >>=
        shardBf16MatrixHost data rows cols) = pure (part rank)) ∧
      vconcat part worldSize cols = { data := bf16Chunks data, rows, cols }) ∧
    ∀ (checkpoint : Checkpoint) (name : String) (segmentRows : List Nat),
      findTensor checkpoint name = pure { shape := [rows, cols], data } →
      segmentRows.sum = rows → (∀ len ∈ segmentRows, worldSize ≤ len) →
      ((∃ part : Nat → DeviceMatrix,
        (∀ rank < worldSize, loadTensor2dFusedColumnSegmentsSharded checkpoint name segmentRows
          rank worldSize = pure (part rank)) ∧
        ∀ i < segmentRows.length, ((List.range worldSize).flatMap fun rank =>
          (part rank).segment (rankRows segmentRows worldSize rank) i) =
            (DeviceMatrix.mk (bf16Chunks data) rows cols).segment segmentRows i) ↔
        worldSize = 1 ∨ cols ≠ 0) := by
  refine ⟨fun hcols => ⟨rowPart data rows cols worldSize, fun rank hrank => ?_,
    hconcat_rowPart hlen hpos⟩, fun hrows => ⟨columnPart data rows cols worldSize,
      fun rank hrank => ?_, vconcat_columnPart hlen hpos⟩, ?_⟩
  · rw [row_eq hrank hcols, pure_bind, shard_row hlen hrank]
  · rw [column_eq hrank hrows, pure_bind, shard_column hlen hrank]
  intro checkpoint name segmentRows hfind hsum hsegments
  constructor
  · rintro ⟨part, hload, -⟩
    by_contra! hnot
    obtain ⟨hworld, hcols⟩ := hnot
    obtain ⟨outRows, hrank⟩ := load_sharded hlen hfind hsum hsegments hworld hpos
    rw [hload 0 hpos, if_pos hcols] at hrank
    cases hrank
  · intro hcond
    by_cases hworld : worldSize = 1
    · subst hworld
      refine ⟨fun _ => { data := bf16Chunks data, rows, cols }, fun rank _ =>
        load_single hlen hfind segmentRows rank, fun i _ => ?_⟩
      have hall : rankRows segmentRows 1 0 = segmentRows := by
        have hsize (len : Nat) : (shardOf len 1 0).size = len := by
          rw [shardOf]
          simp [Nat.mod_one]
        simp only [rankRows, hsize, List.map_id']
      rw [List.range_one, List.flatMap_singleton, hall]
    · have hcols := hcond.resolve_left hworld
      choose! outRows hload using fun rank (hrank : rank < worldSize) =>
        load_sharded hlen hfind hsum hsegments hworld hrank
      refine ⟨fun rank => { data :=
        (rankPieces (bf16Chunks data) cols worldSize rank 0 segmentRows).flatten
                            rows := outRows rank, cols }, fun rank hrank => ?_, fun i hi => ?_⟩
      · rw [hload rank hrank, if_neg hcols]
      · rw [← flatMap_segment hpos hi]
        exact List.flatMap_congr fun rank hrank =>
          segment_rankPieces hlen (List.mem_range.mp hrank) hsum hi (outRows rank)

/-- Two ranks, three rows of two columns. -/
theorem weight_shards_exact_uneven : ∃ part : Nat → DeviceMatrix,
    (∀ rank < 2, loadTensor2dFusedColumnSegmentsSharded
      ⟨[fun _ => .ok ⟨[3, 2], List.range 12 |>.map UInt8.ofNat⟩], fun _ => none⟩ "in_proj_qkv"
        [3] rank 2 = pure (part rank)) ∧
    ∀ i < 1, ((List.range 2).flatMap fun rank => (part rank).segment (rankRows [3] 2 rank) i) =
      (DeviceMatrix.mk (bf16Chunks (List.range 12 |>.map UInt8.ofNat)) 3 2).segment [3] i := by
  have hlen : (List.range 12 |>.map UInt8.ofNat).length = 3 * 2 * 2 := rfl
  exact ((weight_shards_exact hlen Nat.two_pos).2.2 _ "in_proj_qkv" [3] rfl rfl
    (by decide)).mpr (Or.inr (by decide))

/-- Two ranks, and a matrix without columns: its shards load, its segments do not. -/
theorem fused_without_columns_fails :
    findTensor ⟨[fun _ => .ok ⟨[2, 0], []⟩], fun _ => none⟩ "in_proj_qkv" = pure ⟨[2, 0], []⟩ ∧
    (TpLoadContext.column 0 2 2 >>= shardBf16MatrixHost [] 2 0) = pure ⟨[], 1, 0⟩ ∧
    loadTensor2dFusedColumnSegmentsSharded ⟨[fun _ => .ok ⟨[2, 0], []⟩], fun _ => none⟩
      "in_proj_qkv" [2] 0 2 = panics :=
  ⟨rfl, rfl, rfl⟩

end Arle.TensorParallel
