import Mathlib
import Arle.Lib.Fallible
import Arle.Lib.Gather
import Arle.Lib.Slices

/-!
# The order of the value heads

A file stores the value heads tiled: one head of every key head, then the next one of every key
head. The loaders put the heads of a key head next to each other, in vectors, in the rows and in
the columns of a matrix. An index out of bounds panics (`none`).
-/

namespace Arle.Gguf

open Fallible Gather

section Model

variable {α : Type}

/-- The assignments of `reverse_v_reorder`. -/
def vectorMoves (numKHeads numVPerK headDim : Nat) : List (Nat × Nat) :=
  (List.range numKHeads).flatMap fun k =>
    (List.range numVPerK).flatMap fun v =>
      (List.range headDim).map fun d =>
        let ggufIdx := (v * numKHeads + k) * headDim + d
        let hfIdx := (k * numVPerK + v) * headDim + d
        (hfIdx, ggufIdx)

/-- `reverse_v_reorder`, and `reverse_v_reorder_f32` with the same body. -/
def reverseVReorder (data : List α) (numKHeads numVPerK headDim : Nat) : Option (List α) :=
  if numVPerK ≤ 1 then some data
  else moveAll data (vectorMoves numKHeads numVPerK headDim) data

/-- `copy_from_slice` out of a snapshot. -/
def copyFromSlice (src data : List α) (dstStart srcStart size : Nat) : Option (List α) :=
  if dstStart + size ≤ data.length ∧ srcStart + size ≤ src.length then
    some (data.take dstStart ++ slice src srcStart (srcStart + size) ++
      data.drop (dstStart + size))
  else none

/-- `reverse_v_reorder_rows`; the number of rows is not used. -/
def reverseVReorderRows (data : List α) (_rows cols numKHeads numVPerK headDim : Nat) :
    Option (List α) :=
  if numVPerK ≤ 1 then some data
  else
    (List.range numKHeads).foldlM (fun out k =>
      (List.range numVPerK).foldlM (fun out v =>
        let ggufHead := v * numKHeads + k
        let hfHead := k * numVPerK + v
        let srcStart := ggufHead * headDim * cols
        let dstStart := hfHead * headDim * cols
        let size := headDim * cols
        copyFromSlice data out dstStart srcStart size) out) data

/-- The assignments of `reverse_v_reorder_cols`. -/
def colMoves (rows cols numKHeads numVPerK headDim : Nat) : List (Nat × Nat) :=
  (List.range rows).flatMap fun r =>
    (List.range numKHeads).flatMap fun k =>
      (List.range numVPerK).flatMap fun v =>
        let ggufHead := v * numKHeads + k
        let hfHead := k * numVPerK + v
        (List.range headDim).map fun d =>
          (r * cols + hfHead * headDim + d, r * cols + ggufHead * headDim + d)

def reverseVReorderCols (data : List α) (rows cols numKHeads numVPerK headDim : Nat) :
    Option (List α) :=
  if numVPerK ≤ 1 then some data
  else moveAll data (colMoves rows cols numKHeads numVPerK headDim) data

structure HostTensor (α : Type) where
  data : List α
  shape : List Nat

/-- What the loaders ask of a file. -/
structure GgufTensors (α : Type) where
  findTensorName : String → Except String String
  readTensorBf16 : String → Except String (List α)
  ggufMatrixDims : String → Except String (Nat × Nat)

def loadMatrixBf16Host (gguf : GgufTensors α) (hfName : String) : Fallible (HostTensor α) := do
  let ggufName ← ofExcept (gguf.findTensorName hfName)
  let data ← ofExcept (gguf.readTensorBf16 ggufName)
  let (rows, cols) ← ofExcept (gguf.ggufMatrixDims hfName)
  ensure (data.length = rows * cols)
    (s!"unexpected element count for '{hfName}': got {data.length}, " ++
      s!"expected {rows * cols}")
  return { data, shape := [rows, cols] }

/-- A call on a slice of a list that is changed in place. -/
def onSlice (data : List α) (start stop : Nat) (f : List α → Option (List α)) :
    Option (List α) :=
  if start ≤ stop ∧ stop ≤ data.length then
    (f (slice data start stop)).map fun part => data.take start ++ part ++ data.drop stop
  else none

def loadQwen35QkvMatrixBf16Host (gguf : GgufTensors α) (hfName : String)
    (numKHeads numVPerK keyHeadDim valueHeadDim : Nat) : Fallible (HostTensor α) := do
  let tensor ← loadMatrixBf16Host gguf hfName
  let cols ← ofOption tensor.shape[1]?
  let qRows := numKHeads * keyHeadDim
  let kRows := numKHeads * keyHeadDim
  let vRows := numKHeads * numVPerK * valueHeadDim
  let expectedRows := qRows + kRows + vRows
  let rows ← ofOption tensor.shape[0]?
  ensure (rows = expectedRows)
    (s!"unexpected Qwen3.5 QKV rows for '{hfName}': got {rows}, " ++
      s!"expected {expectedRows}")
  let vStart := (qRows + kRows) * cols
  let data ← ofOption (onSlice tensor.data vStart (vStart + vRows * cols) fun part =>
    reverseVReorderRows part vRows cols numKHeads numVPerK valueHeadDim)
  return { tensor with data }

/-- A division by zero panics. -/
def loadQwen35Conv1dBf16Host (gguf : GgufTensors α) (hfName : String)
    (numKeyHeads keyHeadDim numValueHeads valueHeadDim kernelDim : Nat) :
    Fallible (HostTensor α) := do
  let ggufName ← ofExcept (gguf.findTensorName hfName)
  let data ← ofExcept (gguf.readTensorBf16 ggufName)
  let qkChannels := keyHeadDim * numKeyHeads * 2
  let vChannels := numValueHeads * valueHeadDim
  let expected := (qkChannels + vChannels) * kernelDim
  ensure (data.length = expected)
    (s!"unexpected conv1d weight size for '{hfName}': got {data.length}, " ++
      s!"expected {expected}")
  let vStart := qkChannels * kernelDim
  assert (numKeyHeads ≠ 0)
  let data ← ofOption (onSlice data vStart (vStart + vChannels * kernelDim) fun part =>
    reverseVReorderRows part vChannels kernelDim numKeyHeads (numValueHeads / numKeyHeads)
      valueHeadDim)
  return { data, shape := [qkChannels + vChannels, kernelDim, 1] }

end Model

/-! ## Positions -/

section Positions

variable {K V D k v d i : Nat}

/-- Where the entry of a position stands in a file, by the numbers of key heads, of value heads
for each and of entries for each. -/
def source (K V D i : Nat) : Nat :=
  if i < K * V * D then (i / D % V * K + i / D / V) * D + i % D else i

theorem position_lt (hk : k < K) (hv : v < V) (hd : d < D) : (k * V + v) * D + d < K * V * D := by
  have hhead : k * V + v + 1 ≤ K * V := by
    have := Nat.mul_le_mul_right V (Nat.succ_le_of_lt hk)
    rw [Nat.succ_mul] at this
    omega
  have := Nat.mul_le_mul_right D hhead
  rw [Nat.succ_mul] at this
  omega

theorem exists_position (hi : i < K * V * D) :
    ∃ k < K, ∃ v < V, ∃ d < D, i = (k * V + v) * D + d := by
  have hD : 0 < D := Nat.pos_of_ne_zero fun h => by simp [h] at hi
  have hhead : i / D < K * V := (Nat.div_lt_iff_lt_mul hD).mpr hi
  have hV : 0 < V := Nat.pos_of_ne_zero fun h => by simp [h] at hhead
  refine ⟨i / D / V, (Nat.div_lt_iff_lt_mul hV).mpr hhead, i / D % V, Nat.mod_lt _ hV, i % D,
    Nat.mod_lt _ hD, ?_⟩
  rw [Nat.div_add_mod' (i / D) V, Nat.div_add_mod']

theorem source_position (hk : k < K) (hv : v < V) (hd : d < D) :
    source K V D ((k * V + v) * D + d) = (v * K + k) * D + d := by
  have hdivD : ((k * V + v) * D + d) / D = k * V + v := by
    rw [Nat.mul_comm, Nat.mul_add_div (by omega), Nat.div_eq_of_lt hd, Nat.add_zero]
  have hmodD : ((k * V + v) * D + d) % D = d := by
    rw [Nat.mul_comm, Nat.mul_add_mod, Nat.mod_eq_of_lt hd]
  have hdivV : (k * V + v) / V = k := by
    rw [Nat.mul_comm, Nat.mul_add_div (by omega), Nat.div_eq_of_lt hv, Nat.add_zero]
  have hmodV : (k * V + v) % V = v := by
    rw [Nat.mul_comm, Nat.mul_add_mod, Nat.mod_eq_of_lt hv]
  rw [source, if_pos (position_lt hk hv hd), hdivD, hmodD, hdivV, hmodV]

theorem source_of_le (hi : K * V * D ≤ i) : source K V D i = i := if_neg (Nat.not_lt.mpr hi)

theorem tiled_lt (hk : k < K) (hv : v < V) (hd : d < D) : (v * K + k) * D + d < K * V * D := by
  rw [Nat.mul_comm K V]
  exact position_lt hv hk hd

theorem source_lt {n : Nat} (hn : K * V * D ≤ n) (hi : i < n) : source K V D i < n := by
  rcases Nat.lt_or_ge i (K * V * D) with hlt | hge
  · obtain ⟨k, hk, v, hv, d, hd, rfl⟩ := exists_position hlt
    rw [source_position hk hv hd]
    exact (tiled_lt hk hv hd).trans_le hn
  · rwa [source_of_le hge]

/-- The positions with the roles of the two kinds of heads swapped undo each other. -/
theorem source_source (K V D i : Nat) : source V K D (source K V D i) = i := by
  rcases Nat.lt_or_ge i (K * V * D) with hlt | hge
  · obtain ⟨k, hk, v, hv, d, hd, rfl⟩ := exists_position hlt
    rw [source_position hk hv hd, source_position hv hk hd]
  · rw [source_of_le hge, source_of_le (by rwa [Nat.mul_comm V K])]

/-- With one value head for each key head nothing moves. -/
theorem source_of_le_one (hV : V ≤ 1) (K D i : Nat) : source K V D i = i := by
  rcases Nat.lt_or_ge i (K * V * D) with hlt | hge
  · obtain ⟨k, hk, v, hv, d, hd, rfl⟩ := exists_position hlt
    obtain rfl : V = 1 := by omega
    obtain rfl : v = 0 := by omega
    rw [source_position hk hv hd, Nat.zero_mul, Nat.zero_add, Nat.mul_one, Nat.add_zero]
  · exact source_of_le hge

/-- Heads of `D * cols` entries are heads of `D` rows. -/
theorem source_rows (K V D : Nat) {cols r c : Nat} (hc : c < cols) :
    source K V (D * cols) (r * cols + c) = source K V D r * cols + c := by
  rcases Nat.lt_or_ge r (K * V * D) with hlt | hge
  · obtain ⟨k, hk, v, hv, d, hd, rfl⟩ := exists_position hlt
    have hrow (h : Nat) : (h * D + d) * cols + c = h * (D * cols) + (d * cols + c) := by
      rw [Nat.add_mul, Nat.mul_assoc, Nat.add_assoc]
    have hentry : d * cols + c < D * cols := by
      have := Nat.mul_le_mul_right cols (Nat.succ_le_of_lt hd)
      rw [Nat.succ_mul] at this
      omega
    rw [source_position hk hv hd, hrow, hrow, source_position hk hv hentry]
  · have hge' : K * V * (D * cols) ≤ r * cols + c := by
      rw [← Nat.mul_assoc]
      exact (Nat.mul_le_mul_right cols hge).trans (Nat.le_add_right _ _)
    rw [source_of_le hge, source_of_le hge']

end Positions

/-! ## What the loops compute -/

section Loops

variable {α : Type} {data : List α} {K V D rows cols : Nat}

theorem mem_vectorMoves {move : Nat × Nat} : move ∈ vectorMoves K V D ↔
    ∃ k < K, ∃ v < V, ∃ d < D, ((k * V + v) * D + d, (v * K + k) * D + d) = move := by
  simp only [vectorMoves, List.mem_flatMap, List.mem_map, List.mem_range]

/-- The last position of the last head. -/
theorem exists_last (h : 0 < K * V * D) : ∃ k < K, ∃ v < V, ∃ d < D,
    (k * V + v) * D + d = K * V * D - 1 := by
  obtain ⟨k, hk, v, hv, d, hd, heq⟩ := exists_position (Nat.sub_lt h Nat.one_pos)
  exact ⟨k, hk, v, hv, d, hd, heq.symm⟩

theorem reverseVReorder_eq (data : List α) (K V D : Nat) : reverseVReorder data K V D =
    if V ≤ 1 ∨ K * V * D ≤ data.length then some (gather (source K V D) data) else none := by
  unfold reverseVReorder
  by_cases hV : V ≤ 1
  · rw [if_pos hV, if_pos (Or.inl hV), gather_of_fixed fun i _ => source_of_le_one hV K D i]
  rw [if_neg hV]
  by_cases hlen : K * V * D ≤ data.length
  · rw [if_pos (Or.inr hlen)]
    refine moveAll_eq_gather (fun move hmove => ?_) fun i _ hout => source_of_le ?_
    · obtain ⟨k, hk, v, hv, d, hd, rfl⟩ := mem_vectorMoves.mp hmove
      exact ⟨(position_lt hk hv hd).trans_le hlen, (tiled_lt hk hv hd).trans_le hlen,
        (source_position hk hv hd).symm⟩
    · by_contra hlt
      obtain ⟨k, hk, v, hv, d, hd, rfl⟩ := exists_position (Nat.lt_of_not_le hlt)
      exact hout (List.mem_map.mpr ⟨_, mem_vectorMoves.mpr ⟨k, hk, v, hv, d, hd, rfl⟩, rfl⟩)
  · rw [if_neg (not_or.mpr ⟨hV, hlen⟩)]
    obtain ⟨k, hk, v, hv, d, hd, hlast⟩ := exists_last (K := K) (V := V) (D := D) (by omega)
    refine moveAll_panics (mem_vectorMoves.mpr ⟨k, hk, v, hv, d, hd, rfl⟩) (Or.inl ?_)
    omega

/-- A copied slice is as many moves as it has entries. -/
theorem copyFromSlice_eq {src : List α} {dst place size : Nat}
    (h : size = 0 → dst = 0 ∧ place = 0) : copyFromSlice src data dst place size =
      moveAll src ((List.range size).map fun j => (dst + j, place + j)) data := by
  unfold copyFromSlice
  have hmem (i : Nat) : i ∈ ((List.range size).map fun j => (dst + j, place + j)).map Prod.fst ↔
      dst ≤ i ∧ i < dst + size := by
    rw [List.map_map]
    simp only [List.mem_map, List.mem_range, Function.comp_apply]
    constructor
    · rintro ⟨j, hj, rfl⟩
      omega
    · rintro ⟨hle, hlt⟩
      exact ⟨i - dst, by omega, by omega⟩
  by_cases hbounds : dst + size ≤ data.length ∧ place + size ≤ src.length
  · obtain ⟨hdst, hplace⟩ := hbounds
    rw [if_pos ⟨hdst, hplace⟩]
    have hmoves : ∀ move ∈ (List.range size).map fun j => (dst + j, place + j),
        move.1 < data.length ∧ move.2 < src.length ∧ move.2 = place + (move.1 - dst) := by
      intro move hmove
      obtain ⟨j, hj, rfl⟩ := List.mem_map.mp hmove
      have := List.mem_range.mp hj
      dsimp only
      omega
    obtain ⟨out, hout, hlen, hentry⟩ := moveAll_spec (fun i => place + (i - dst)) hmoves
    rw [hout]
    refine congrArg some (List.ext_getElem? fun i => ?_)
    have htake : (data.take dst).length = dst := List.length_take_of_le (by omega)
    have hslice : (slice src place (place + size)).length = size := by
      rw [length_slice hplace, Nat.add_sub_cancel_left]
    rw [hentry, List.append_assoc]
    by_cases hlow : i < dst
    · rw [if_neg fun hin => absurd ((hmem i).mp hin).1 (by omega),
        List.getElem?_append_left (by omega), List.getElem?_take_of_lt hlow]
    · rw [List.getElem?_append_right (by omega), htake]
      by_cases hin : i < dst + size
      · rw [if_pos ((hmem i).mpr ⟨by omega, hin⟩), List.getElem?_append_left (by omega), slice,
          List.getElem?_drop, List.getElem?_take_of_lt (by omega)]
      · rw [if_neg fun h' => absurd ((hmem i).mp h').2 hin,
          List.getElem?_append_right (by omega), hslice, List.getElem?_drop]
        exact congrArg (data[·]?) (by omega)
  · rw [if_neg hbounds]
    have hpos : 0 < size := Nat.pos_of_ne_zero fun hzero => by
      obtain ⟨rfl, rfl⟩ := h hzero
      exact hbounds ⟨by omega, by omega⟩
    refine (moveAll_panics (List.mem_map.mpr ⟨size - 1, List.mem_range.mpr (by omega), rfl⟩)
      ?_).symm
    dsimp only
    omega

/-- Moves that are made round by round. -/
theorem foldlM_moveAll {ι : Type} {src : List α} {f : List α → ι → Option (List α)}
    {moves : ι → List (Nat × Nat)} {items : List ι}
    (h : ∀ i ∈ items, ∀ out, f out i = moveAll src (moves i) out) (out : List α) :
    items.foldlM f out = moveAll src (items.flatMap moves) out := by
  induction items generalizing out with
  | nil => rfl
  | cons i items ih =>
    rw [List.foldlM_cons, List.flatMap_cons, moveAll_append, h i List.mem_cons_self]
    exact bind_congr fun next => ih (fun j hj => h j (List.mem_cons_of_mem i hj)) next

/-- The rows of a matrix are moved as the entries of a vector, with longer heads. -/
theorem reverseVReorderRows_eq (data : List α) (rows cols K V D : Nat) :
    reverseVReorderRows data rows cols K V D = reverseVReorder data K V (D * cols) := by
  unfold reverseVReorderRows reverseVReorder
  split
  · rfl
  refine foldlM_moveAll (fun k _ out => foldlM_moveAll (fun v _ out => ?_) out) data
  dsimp only
  rw [copyFromSlice_eq]
  · rw [Nat.mul_assoc, Nat.mul_assoc]
  · intro hsize
    rw [Nat.mul_assoc, Nat.mul_assoc, hsize]
    exact ⟨rfl, rfl⟩

end Loops

/-! ## Vectors and matrices -/

section Matrices

variable {α : Type} {data : List α} {K V D rows cols : Nat}

/-- The tiling of a file: the entries of the head `v` of the key head `k` come to the place
`v * K + k`. -/
def tile (K V D : Nat) (data : List α) : List α := gather (source V K D) data

/-- A row of a row-major matrix. -/
def row (cols r : Nat) (data : List α) : List α := reads cols (fun c => r * cols + c) data

/-- A column of a row-major matrix. -/
def column (rows cols c : Nat) (data : List α) : List α := reads rows (fun r => r * cols + c) data

/-- The entry `(c, r)` of the transposed matrix is the entry `(r, c)`. -/
def transpose (rows cols : Nat) (data : List α) : List α :=
  reads (cols * rows) (fun i => i % rows * cols + i / rows) data

theorem entry_lt {r c : Nat} (hr : r < rows) (hc : c < cols) : r * cols + c < rows * cols := by
  have := Nat.mul_le_mul_right cols (Nat.succ_le_of_lt hr)
  rw [Nat.succ_mul] at this
  omega

theorem transposed_lt {i : Nat} (hi : i < cols * rows) :
    i % rows * cols + i / rows < rows * cols := by
  have hpos : 0 < rows := Nat.pos_of_ne_zero fun h => by simp [h] at hi
  exact entry_lt (Nat.mod_lt i hpos) ((Nat.div_lt_iff_lt_mul hpos).mpr hi)

theorem entry_div {r c : Nat} (hc : c < cols) : (r * cols + c) / cols = r := by
  rw [Nat.mul_comm, Nat.mul_add_div (by omega), Nat.div_eq_of_lt hc, Nat.add_zero]

theorem entry_mod {r c : Nat} (hc : c < cols) : (r * cols + c) % cols = c := by
  rw [Nat.mul_comm, Nat.mul_add_mod, Nat.mod_eq_of_lt hc]

/-- The places that are read of the rows of a matrix. -/
theorem source_rows_lt (hlen : data.length = rows * cols) (h : K * V * D ≤ rows) :
    ∀ i < data.length, source K V (D * cols) i < data.length := by
  intro i hi
  refine source_lt ?_ hi
  rw [← Nat.mul_assoc, hlen]
  exact Nat.mul_le_mul_right cols h

theorem rows_fit_iff (hlen : data.length = rows * cols) (hcols : 0 < cols) :
    K * V * (D * cols) ≤ data.length ↔ K * V * D ≤ rows := by
  rw [hlen, ← Nat.mul_assoc]
  exact ⟨fun h => Nat.le_of_mul_le_mul_right h hcols, fun h => Nat.mul_le_mul_right cols h⟩

/-- Every column is moved as a vector. -/
theorem reverseVReorderRows_column (hlen : data.length = rows * cols) {c : Nat} (hc : c < cols) :
    (reverseVReorderRows data rows cols K V D).map (column rows cols c) =
      reverseVReorder (column rows cols c data) K V D := by
  have hplace : ∀ r < rows, r * cols + c < data.length := fun r hr => hlen ▸ entry_lt hr hc
  have hfit := rows_fit_iff (K := K) (V := V) (D := D) hlen (by omega)
  rw [reverseVReorderRows_eq, reverseVReorder_eq, reverseVReorder_eq, column, length_reads hplace]
  by_cases hV : V ≤ 1
  · rw [if_pos (Or.inl hV), if_pos (Or.inl hV), gather_of_fixed fun i _ => source_of_le_one hV ..,
      gather_of_fixed fun i _ => source_of_le_one hV ..]
    rfl
  by_cases hle : K * V * D ≤ rows
  · rw [if_pos (Or.inr (hfit.mpr hle)), if_pos (Or.inr hle), Option.map_some, column,
      reads_gather (source_rows_lt hlen hle) hplace,
      gather_reads (fun i hi => source_lt hle hi) hplace]
    refine congrArg some (reads_congr fun r _ => ?_)
    rw [source_rows K V D hc]
  · rw [if_neg (not_or.mpr ⟨hV, fun h => hle (hfit.mp h)⟩), if_neg (not_or.mpr ⟨hV, hle⟩)]
    rfl

/-- Where the entries of a matrix stand whose columns are tiled. -/
def colSource (cols K V D i : Nat) : Nat := i / cols * cols + source K V D (i % cols)

theorem colSource_entry {r c : Nat} (hc : c < cols) :
    colSource cols K V D (r * cols + c) = r * cols + source K V D c := by
  rw [colSource, entry_div hc, entry_mod hc]

theorem exists_entry {i : Nat} (hi : i < rows * cols) :
    ∃ r < rows, ∃ c < cols, i = r * cols + c := by
  have hpos : 0 < cols := Nat.pos_of_ne_zero fun h => by simp [h] at hi
  exact ⟨i / cols, (Nat.div_lt_iff_lt_mul hpos).mpr hi, i % cols, Nat.mod_lt i hpos,
    (Nat.div_add_mod' i cols).symm⟩

theorem colSource_lt (h : K * V * D ≤ cols) {i : Nat} (hi : i < rows * cols) :
    colSource cols K V D i < rows * cols := by
  obtain ⟨r, hr, c, hc, rfl⟩ := exists_entry hi
  rw [colSource_entry hc]
  exact entry_lt hr (source_lt h hc)

theorem mem_colMoves {move : Nat × Nat} : move ∈ colMoves rows cols K V D ↔
    ∃ r < rows, ∃ k < K, ∃ v < V, ∃ d < D, (r * cols + (k * V + v) * D + d,
      r * cols + (v * K + k) * D + d) = move := by
  simp only [colMoves, List.mem_flatMap, List.mem_map, List.mem_range]

theorem reverseVReorderCols_eq (hlen : data.length = rows * cols) :
    reverseVReorderCols data rows cols K V D =
      if V ≤ 1 ∨ rows = 0 ∨ K * V * D ≤ cols then some (gather (colSource cols K V D) data)
      else none := by
  have hfixed (hV : V ≤ 1) : gather (colSource cols K V D) data = data :=
    gather_of_fixed fun i _ => by
      rw [colSource, source_of_le_one hV, Nat.div_add_mod']
  unfold reverseVReorderCols
  by_cases hV : V ≤ 1
  · rw [if_pos hV, if_pos (Or.inl hV), hfixed hV]
  rw [if_neg hV]
  by_cases hfit : rows = 0 ∨ K * V * D ≤ cols
  · rw [if_pos (Or.inr hfit)]
    have hwide (hrows : 0 < rows) : K * V * D ≤ cols := hfit.resolve_left (by omega)
    refine moveAll_eq_gather (fun move hmove => ?_) fun i hi hout => ?_
    · obtain ⟨r, hr, k, hk, v, hv, d, hd, rfl⟩ := mem_colMoves.mp hmove
      have hle := hwide (by omega)
      have hdst := (position_lt hk hv hd).trans_le hle
      have hplace := (tiled_lt hk hv hd).trans_le hle
      dsimp only
      rw [hlen, Nat.add_assoc, Nat.add_assoc, colSource_entry hdst, source_position hk hv hd]
      exact ⟨entry_lt hr hdst, entry_lt hr hplace, rfl⟩
    · rw [hlen] at hi
      obtain ⟨r, hr, c, hc, rfl⟩ := exists_entry hi
      rw [colSource_entry hc, source_of_le]
      by_contra hlt
      obtain ⟨k, hk, v, hv, d, hd, rfl⟩ := exists_position (Nat.lt_of_not_le hlt)
      refine hout (List.mem_map.mpr ⟨_, mem_colMoves.mpr ⟨r, hr, k, hk, v, hv, d, hd, rfl⟩, ?_⟩)
      exact Nat.add_assoc _ _ _
  · obtain ⟨hrows, hwide⟩ := not_or.mp hfit
    rw [if_neg (not_or.mpr ⟨hV, hfit⟩)]
    obtain ⟨k, hk, v, hv, d, hd, hlast⟩ := exists_last (K := K) (V := V) (D := D) (by omega)
    -- in the last row the last head ends behind the matrix
    have hin : (rows - 1) * cols + cols = rows * cols := by
      rw [← Nat.succ_mul, Nat.succ_eq_add_one, Nat.sub_add_cancel (by omega)]
    refine moveAll_panics (mem_colMoves.mpr ⟨rows - 1, by omega, k, hk, v, hv, d, hd, rfl⟩)
      (Or.inl ?_)
    dsimp only
    omega

/-- Every row is moved as a vector. -/
theorem reverseVReorderCols_row (hlen : data.length = rows * cols) {r : Nat} (hr : r < rows) :
    (reverseVReorderCols data rows cols K V D).map (row cols r) =
      reverseVReorder (row cols r data) K V D := by
  have hplace : ∀ c < cols, r * cols + c < data.length := fun c hc => hlen ▸ entry_lt hr hc
  rw [reverseVReorderCols_eq hlen, reverseVReorder_eq, row, length_reads hplace]
  by_cases hV : V ≤ 1
  · have hfixed : gather (colSource cols K V D) data = data := gather_of_fixed fun i _ => by
      rw [colSource, source_of_le_one hV, Nat.div_add_mod']
    rw [if_pos (Or.inl hV), if_pos (Or.inl hV), hfixed,
      gather_of_fixed fun i _ => source_of_le_one hV ..]
    rfl
  by_cases hle : K * V * D ≤ cols
  · rw [if_pos (Or.inr (Or.inr hle)), if_pos (Or.inr hle), Option.map_some, row,
      reads_gather (fun i hi => by rw [hlen] at hi ⊢; exact colSource_lt hle hi) hplace,
      gather_reads (fun i hi => source_lt hle hi) hplace]
    exact congrArg some (reads_congr fun c hc => by rw [colSource_entry hc])
  · rw [if_neg (not_or.mpr ⟨hV, not_or.mpr ⟨by omega, hle⟩⟩), if_neg (not_or.mpr ⟨hV, hle⟩)]
    rfl

/-- The columns of the transposed matrix are moved as the rows of the matrix. -/
theorem reverseVReorderCols_transpose (hlen : data.length = rows * cols) :
    reverseVReorderCols (transpose rows cols data) cols rows K V D =
      (reverseVReorderRows data rows cols K V D).map (transpose rows cols) := by
  have hplace : ∀ i < cols * rows, i % rows * cols + i / rows < data.length :=
    fun i hi => hlen ▸ transposed_lt hi
  have htransposed : (transpose rows cols data).length = cols * rows := length_reads hplace
  rw [reverseVReorderCols_eq htransposed, reverseVReorderRows_eq, reverseVReorder_eq]
  by_cases hV : V ≤ 1
  · have hfixed : gather (colSource rows K V D) (transpose rows cols data) =
        transpose rows cols data := gather_of_fixed fun i _ => by
      rw [colSource, source_of_le_one hV, Nat.div_add_mod']
    rw [if_pos (Or.inl hV), if_pos (Or.inl hV), hfixed,
      gather_of_fixed fun i _ => source_of_le_one hV ..]
    rfl
  rcases Nat.eq_zero_or_pos cols with hzero | hcols
  · subst hzero
    have hnil : data = [] := List.length_eq_zero_iff.mp hlen
    subst hnil
    have hempty : transpose rows 0 ([] : List α) = [] :=
      List.length_eq_zero_iff.mp (htransposed.trans (Nat.zero_mul rows))
    have hnone : K * V * (D * 0) ≤ ([] : List α).length := by
      rw [Nat.mul_zero, Nat.mul_zero]
      exact Nat.zero_le _
    rw [if_pos (Or.inr (Or.inl rfl)), if_pos (Or.inr hnone), hempty]
    exact congrArg some hempty.symm
  have hfit := rows_fit_iff (K := K) (V := V) (D := D) hlen hcols
  by_cases hle : K * V * D ≤ rows
  · rw [if_pos (Or.inr (Or.inr hle)), if_pos (Or.inr (hfit.mpr hle)), Option.map_some, transpose,
      gather_reads (fun i hi => colSource_lt hle hi) hplace, transpose,
      reads_gather (source_rows_lt hlen hle) hplace]
    refine congrArg some (reads_congr fun i hi => ?_)
    obtain ⟨c, hc, r, hr, rfl⟩ := exists_entry hi
    rw [colSource_entry hr, entry_mod (source_lt hle hr), entry_div (source_lt hle hr),
      entry_mod hr, entry_div hr, source_rows K V D hc]
  · rw [if_neg (not_or.mpr ⟨hV, not_or.mpr ⟨by omega, hle⟩⟩),
      if_neg (not_or.mpr ⟨hV, fun h => hle (hfit.mp h)⟩)]
    rfl

/-- The heads come from heads, each from one of its own. -/
theorem bijOn_head (K V : Nat) :
    Set.BijOn (fun h => h % V * K + h / V) (Set.Iio (K * V)) (Set.Iio (K * V)) := by
  have hhead (K V h : Nat) (hh : h ∈ Set.Iio (K * V)) :
      source K V 1 h = h % V * K + h / V := by
    rw [source, if_pos (by rwa [Nat.mul_one]), Nat.div_one, Nat.mod_one, Nat.mul_one,
      Nat.add_zero]
  have hmaps : ∀ h ∈ Set.Iio (K * V), source K V 1 h ∈ Set.Iio (K * V) :=
    fun h hh => source_lt (Nat.mul_one _).le hh
  have hinverse : Set.InvOn (source V K 1) (source K V 1) (Set.Iio (K * V)) (Set.Iio (K * V)) :=
    ⟨fun h _ => source_source K V 1 h, fun h _ => source_source V K 1 h⟩
  have hmaps' : ∀ h ∈ Set.Iio (K * V), source V K 1 h ∈ Set.Iio (K * V) :=
    fun h hh => source_lt (by rw [Nat.mul_one, Nat.mul_comm]) hh
  exact (hinverse.bijOn hmaps hmaps').congr (hhead K V)

theorem tile_entry (hlen : K * V * D ≤ data.length) {k v d : Nat} (hk : k < K) (hv : v < V)
    (hd : d < D) : (tile K V D data)[(v * K + k) * D + d]? = data[(k * V + v) * D + d]? := by
  have hsource := source_position hv hk hd
  have hplace := (position_lt hk hv hd).trans_le hlen
  rw [tile, getElem?_gather ((tiled_lt hk hv hd).trans_le hlen) (by rwa [hsource]), hsource]

theorem reverseVReorder_tile (hlen : K * V * D ≤ data.length) :
    reverseVReorder (tile K V D data) K V D = some data ∧
      (reverseVReorder data K V D).map (tile K V D) = some data := by
  have hlt : ∀ i < data.length, source K V D i < data.length := fun i hi => source_lt hlen hi
  have hlt' : ∀ i < data.length, source V K D i < data.length :=
    fun i hi => source_lt (by rwa [Nat.mul_comm V K]) hi
  have hfits : V ≤ 1 ∨ K * V * D ≤ (tile K V D data).length :=
    Or.inr (by rwa [tile, length_gather])
  rw [reverseVReorder_eq, reverseVReorder_eq, if_pos hfits, if_pos (Or.inr hlen), Option.map_some,
    tile, tile, gather_gather hlt hlt', gather_gather hlt' hlt,
    gather_of_fixed fun i _ => source_source K V D i,
    gather_of_fixed fun i _ => source_source V K D i]
  exact ⟨rfl, rfl⟩

end Matrices

/-! ## The loaders -/

section Loaders

variable {α : Type} {data : List α} {K V D qk vRows cols : Nat}

/-- The last rows of a matrix are reordered and the first `qk` rows stay. -/
theorem onSlice_rows (hlen : data.length = (qk + vRows) * cols) (hfit : K * V * D ≤ vRows) :
    ∃ out, onSlice data (qk * cols) (qk * cols + vRows * cols)
        (fun part => reverseVReorderRows part vRows cols K V D) = some out ∧
      out.length = data.length ∧ (∀ r < qk, row cols r out = row cols r data) ∧
      ∀ r < vRows, row cols (qk + r) out = row cols (qk + source K V D r) data := by
  rw [Nat.add_mul] at hlen
  have hpart : (slice data (qk * cols) (qk * cols + vRows * cols)).length = vRows * cols := by
    rw [length_slice hlen.ge, Nat.add_sub_cancel_left]
  have hread (i : Nat) (hi : i < vRows * cols) :
      (slice data (qk * cols) (qk * cols + vRows * cols))[i]? = data[qk * cols + i]? := by
    rw [slice, List.getElem?_drop, List.getElem?_take_of_lt (Nat.add_lt_add_left hi _)]
  have hfits : V ≤ 1 ∨ K * V * (D * cols) ≤
      (slice data (qk * cols) (qk * cols + vRows * cols)).length := by
    rw [hpart, ← Nat.mul_assoc]
    exact Or.inr (Nat.mul_le_mul_right cols hfit)
  unfold onSlice
  rw [if_pos ⟨Nat.le_add_right _ _, hlen.ge⟩]
  dsimp only
  rw [reverseVReorderRows_eq, reverseVReorder_eq, if_pos hfits, Option.map_some]
  generalize slice data (qk * cols) (qk * cols + vRows * cols) = part at hpart hread
  have htake : (data.take (qk * cols)).length = qk * cols := List.length_take_of_le (by omega)
  have hgather : (gather (source K V (D * cols)) part).length = vRows * cols :=
    (length_gather _ _).trans hpart
  refine ⟨_, rfl, ?_, fun r hr => ?_, fun r hr => ?_⟩
  · rw [List.length_append, List.length_append, htake, hgather, List.length_drop]
    omega
  · refine reads_congr fun c hc => ?_
    have hlt := entry_lt hr hc
    rw [List.append_assoc, List.getElem?_append_left (by omega), List.getElem?_take_of_lt hlt]
  · refine reads_congr fun c hc => ?_
    have hlt := entry_lt hr hc
    have hsource := entry_lt (source_lt (K := K) (V := V) (D := D) hfit hr) hc
    rw [Nat.add_mul, Nat.add_mul, Nat.add_assoc, Nat.add_assoc, List.append_assoc,
      List.getElem?_append_right (by omega), htake, Nat.add_sub_cancel_left,
      List.getElem?_append_left (by omega), ← hread _ hsource, ← source_rows K V D hc]
    refine getElem?_gather (by omega) ?_
    rw [source_rows K V D hc]
    omega

theorem loadMatrixBf16Host_length {gguf : GgufTensors α} {hfName : String} {rows : Nat}
    (hload : loadMatrixBf16Host gguf hfName = pure { data, shape := [rows, cols] }) :
    data.length = rows * cols := by
  unfold loadMatrixBf16Host at hload
  cases hname : gguf.findTensorName hfName with
  | error err =>
    rw [hname] at hload
    cases hload
  | ok ggufName =>
    rw [hname, ofExcept_ok, pure_bind] at hload
    cases hread : gguf.readTensorBf16 ggufName with
    | error err =>
      rw [hread] at hload
      cases hload
    | ok data' =>
      rw [hread, ofExcept_ok, pure_bind] at hload
      cases hdims : gguf.ggufMatrixDims hfName with
      | error err =>
        rw [hdims] at hload
        cases hload
      | ok dims =>
        obtain ⟨rows', cols'⟩ := dims
        rw [hdims, ofExcept_ok, pure_bind] at hload
        dsimp only at hload
        by_cases hlen : data'.length = rows' * cols'
        · rw [ensure_of hlen, pure_bind] at hload
          cases hload
          exact hlen
        · rw [ensure, if_neg hlen] at hload
          cases hload

/-- The rows of the queries and the keys stay, and those of the values are reordered. -/
theorem loadQwen35QkvMatrix_rows {gguf : GgufTensors α} {hfName : String} {rows keyHeadDim : Nat}
    (hload : loadMatrixBf16Host gguf hfName = pure { data, shape := [rows, cols] })
    (hrows : rows = K * keyHeadDim + K * keyHeadDim + K * V * D) :
    ∃ out, loadQwen35QkvMatrixBf16Host gguf hfName K V keyHeadDim D =
        pure { data := out, shape := [rows, cols] } ∧ out.length = data.length ∧
      (∀ r < K * keyHeadDim + K * keyHeadDim, row cols r out = row cols r data) ∧
      ∀ k < K, ∀ v < V, ∀ d < D,
        row cols (K * keyHeadDim + K * keyHeadDim + ((k * V + v) * D + d)) out =
          row cols (K * keyHeadDim + K * keyHeadDim + ((v * K + k) * D + d)) data := by
  have hlen : data.length = (K * keyHeadDim + K * keyHeadDim + K * V * D) * cols :=
    hrows ▸ loadMatrixBf16Host_length hload
  obtain ⟨out, hout, hlen', hqk, hv⟩ := onSlice_rows hlen (Nat.le_refl _)
  refine ⟨out, ?_, hlen', hqk, fun k hk v hv' d hd => ?_⟩
  · unfold loadQwen35QkvMatrixBf16Host
    rw [hload, pure_bind]
    show (do
      ensure (rows = K * keyHeadDim + K * keyHeadDim + K * V * D) _
      let data ← ofOption (onSlice data _ _ _)
      pure ({ data, shape := [rows, cols] } : HostTensor α)) = _
    rw [ensure_of hrows, pure_bind, hout]
    rfl
  · rw [hv _ (position_lt hk hv' hd), source_position hk hv' hd]

/-- The channels of the queries and the keys stay, and those of the values are reordered. -/
theorem loadQwen35Conv1d_rows {gguf : GgufTensors α} {hfName ggufName : String}
    {keyHeadDim numValueHeads : Nat} (hname : gguf.findTensorName hfName = .ok ggufName)
    (hread : gguf.readTensorBf16 ggufName = .ok data) (hK : K ≠ 0)
    (hlen : data.length = (keyHeadDim * K * 2 + numValueHeads * D) * cols) :
    ∃ out, loadQwen35Conv1dBf16Host gguf hfName K keyHeadDim numValueHeads D cols =
        pure { data := out, shape := [keyHeadDim * K * 2 + numValueHeads * D, cols, 1] } ∧
      (∀ r < keyHeadDim * K * 2, row cols r out = row cols r data) ∧
      ∀ r < numValueHeads * D, row cols (keyHeadDim * K * 2 + r) out =
        row cols (keyHeadDim * K * 2 + source K (numValueHeads / K) D r) data := by
  obtain ⟨out, hout, -, hqk, hv⟩ := onSlice_rows (K := K) (V := numValueHeads / K) (D := D)
    hlen (Nat.mul_le_mul_right D (Nat.mul_div_le numValueHeads K))
  refine ⟨out, ?_, hqk, hv⟩
  unfold loadQwen35Conv1dBf16Host
  rw [hname, ofExcept_ok, pure_bind, hread, ofExcept_ok, pure_bind]
  show (do
    ensure (data.length = (keyHeadDim * K * 2 + numValueHeads * D) * cols) _
    assert (K ≠ 0)
    let data ← ofOption (onSlice data _ _ _)
    pure ({ data, shape := _ } : HostTensor α)) = _
  rw [ensure_of hlen, pure_bind, assert_of hK, pure_bind, hout]
  rfl

end Loaders

/-- The reordering of the value heads takes heads to heads and undoes the tiling. It acts on the
columns of a matrix, on its rows, and through the transposed matrix alike, and of a fused matrix
or of the convolution only the rows of the values are moved. -/
theorem reverse_v_reorder_exact {α : Type} (K V D : Nat) :
    Set.BijOn (fun h => h % V * K + h / V) (Set.Iio (K * V)) (Set.Iio (K * V)) ∧
    (∀ data : List α, K * V * D ≤ data.length →
      (∀ k < K, ∀ v < V, ∀ d < D,
        (tile K V D data)[(v * K + k) * D + d]? = data[(k * V + v) * D + d]?) ∧
      reverseVReorder (tile K V D data) K V D = some data ∧
      (reverseVReorder data K V D).map (tile K V D) = some data) ∧
    (∀ (data : List α) (rows cols : Nat), data.length = rows * cols →
      (∀ c < cols, (reverseVReorderRows data rows cols K V D).map (column rows cols c) =
        reverseVReorder (column rows cols c data) K V D) ∧
      (∀ r < rows, (reverseVReorderCols data rows cols K V D).map (row cols r) =
        reverseVReorder (row cols r data) K V D) ∧
      reverseVReorderCols (transpose rows cols data) cols rows K V D =
        (reverseVReorderRows data rows cols K V D).map (transpose rows cols)) ∧
    (∀ (gguf : GgufTensors α) (hfName : String) (data : List α) (rows cols keyHeadDim : Nat),
      loadMatrixBf16Host gguf hfName = pure { data, shape := [rows, cols] } →
      rows = K * keyHeadDim + K * keyHeadDim + K * V * D →
      ∃ out, loadQwen35QkvMatrixBf16Host gguf hfName K V keyHeadDim D =
          pure { data := out, shape := [rows, cols] } ∧ out.length = data.length ∧
        (∀ r < K * keyHeadDim + K * keyHeadDim, row cols r out = row cols r data) ∧
        ∀ k < K, ∀ v < V, ∀ d < D,
          row cols (K * keyHeadDim + K * keyHeadDim + ((k * V + v) * D + d)) out =
            row cols (K * keyHeadDim + K * keyHeadDim + ((v * K + k) * D + d)) data) ∧
    ∀ (gguf : GgufTensors α) (hfName ggufName : String) (data : List α)
      (cols keyHeadDim numValueHeads : Nat), gguf.findTensorName hfName = .ok ggufName →
      gguf.readTensorBf16 ggufName = .ok data → K ≠ 0 →
      data.length = (keyHeadDim * K * 2 + numValueHeads * D) * cols →
      ∃ out, loadQwen35Conv1dBf16Host gguf hfName K keyHeadDim numValueHeads D cols =
          pure { data := out, shape := [keyHeadDim * K * 2 + numValueHeads * D, cols, 1] } ∧
        (∀ r < keyHeadDim * K * 2, row cols r out = row cols r data) ∧
        ∀ r < numValueHeads * D, row cols (keyHeadDim * K * 2 + r) out =
          row cols (keyHeadDim * K * 2 + source K (numValueHeads / K) D r) data :=
  ⟨bijOn_head K V,
    fun _ hlen => ⟨fun _ hk _ hv _ hd => tile_entry hlen hk hv hd, reverseVReorder_tile hlen⟩,
    fun _ _ _ hlen => ⟨fun _ hc => reverseVReorderRows_column hlen hc,
      fun _ hr => reverseVReorderCols_row hlen hr, reverseVReorderCols_transpose hlen⟩,
    fun _ _ _ _ _ _ hload hrows => loadQwen35QkvMatrix_rows hload hrows,
    fun _ _ _ _ _ _ _ hname hread hK hlen => loadQwen35Conv1d_rows hname hread hK hlen⟩

/-- Two key heads with three value heads each, of two entries. -/
theorem reverse_v_reorder_exact_two_three :
    reverseVReorder (tile 2 3 2 (List.range 12)) 2 3 2 = some (List.range 12) :=
  ((reverse_v_reorder_exact 2 3 2).2.1 (List.range 12) (by decide)).2.1

/-- The entries of the tiled vector. -/
example : tile 2 3 2 (List.range 12) = [0, 1, 6, 7, 2, 3, 8, 9, 4, 5, 10, 11] := by decide

end Arle.Gguf
