import Arle.KvTier.Types
import Arle.Lib.Assoc

/-!
# Block accounting of the batch scheduler

`BlockManager` of `infer/src/block_manager.rs`, as far as the batch scheduler uses it. The
queues are lists; a block that is not managed panics (`none`).
-/

namespace Arle.Scheduler

/-- Where a block resides. -/
inductive BlockLocation
  | gpu
  | cpu
deriving DecidableEq, Repr

structure Block where
  location : BlockLocation
  refCount : Nat
deriving DecidableEq, Repr

inductive AllocationError
  | insufficientGpuBlocks (requested available : Nat)
  | insufficientCpuBlocks (requested available : Nat)
deriving DecidableEq, Repr

structure BlockManager where
  blocks : Assoc BlockId Block
  freeGpu : List BlockId
  freeCpu : List BlockId
  blockSize : Nat
  blockSize_pos : 0 < blockSize

namespace BlockManager

/-- The ids that the counter `next_id` takes from `start` on; it is a `u32`. -/
def blockIds (start count : Nat) : List BlockId :=
  (List.range' start count).map fun i => ⟨UInt32.ofNat i⟩

/-- `BlockManager::new`. -/
def new (numGpuBlocks numCpuBlocks blockSize : Nat) (h : 0 < blockSize) : BlockManager where
  blocks :=
    (blockIds numGpuBlocks numCpuBlocks).foldl (fun blocks id => blocks.insert id ⟨.cpu, 0⟩)
      ((blockIds 0 numGpuBlocks).foldl (fun blocks id => blocks.insert id ⟨.gpu, 0⟩) ∅)
  freeGpu := blockIds 0 numGpuBlocks
  freeCpu := blockIds numGpuBlocks numCpuBlocks
  blockSize := blockSize
  blockSize_pos := h

/-- The loop of `allocate_gpu`. -/
def allocateLoop : Nat → BlockManager → List BlockId → Option (List BlockId × BlockManager)
  | 0, m, allocated => some (allocated, m)
  | n + 1, m, allocated =>
    match m.freeGpu with
    | [] => none
    | id :: rest =>
      match m.blocks.lookup id with
      | none => none
      | some block => allocateLoop n
          { m with freeGpu := rest, blocks := m.blocks.insert id { block with refCount := 1 } }
          (allocated ++ [id])

/-- `allocate_gpu`. -/
def allocateGpu (m : BlockManager) (n : Nat) :
    Option (Except AllocationError (List BlockId) × BlockManager) :=
  if m.freeGpu.length < n then some (.error (.insufficientGpuBlocks n m.freeGpu.length), m)
  else (allocateLoop n m []).map fun (allocated, m) => (.ok allocated, m)

/-- `free`. -/
def free : List BlockId → BlockManager → Option BlockManager
  | [], m => some m
  | id :: blocks, m =>
    match m.blocks.lookup id with
    | none => none
    | some block =>
      let refCount := block.refCount - 1
      let m := { m with blocks := m.blocks.insert id { block with refCount := refCount } }
      if refCount = 0 then
        match block.location with
        | .gpu => free blocks { m with freeGpu := m.freeGpu ++ [id] }
        | .cpu => free blocks { m with freeCpu := m.freeCpu ++ [id] }
      else free blocks m

/-- `blocks_for_tokens`. -/
def blocksForTokens (m : BlockManager) (numTokens : Nat) : Nat :=
  (numTokens + m.blockSize - 1) / m.blockSize

/-! ## The ids of a new manager -/

theorem mem_blockIds {start count : Nat} (hcount : start + count ≤ 2 ^ 32) {i : Nat}
    (hi : i < 2 ^ 32) : (⟨UInt32.ofNat i⟩ : BlockId) ∈ blockIds start count ↔
      start ≤ i ∧ i < start + count := by
  rw [blockIds, List.mem_map]
  constructor
  · rintro ⟨j, hj, heq⟩
    rw [List.mem_range'_1] at hj
    have := congrArg UInt32.toNat (BlockId.mk.inj heq)
    rw [UInt32.toNat_ofNat_of_lt' (Nat.lt_of_lt_of_le hj.2 hcount),
      UInt32.toNat_ofNat_of_lt' hi] at this
    exact this ▸ hj
  · exact fun h => ⟨i, List.mem_range'_1.mpr h, rfl⟩

theorem nodup_blockIds {start count : Nat} (hcount : start + count ≤ 2 ^ 32) :
    (blockIds start count).Nodup := by
  refine List.Nodup.map_on (fun i hi j hj heq => ?_) List.nodup_range'
  rw [List.mem_range'_1] at hi hj
  have := congrArg UInt32.toNat (BlockId.mk.inj heq)
  rwa [UInt32.toNat_ofNat_of_lt' (Nat.lt_of_lt_of_le hi.2 hcount),
    UInt32.toNat_ofNat_of_lt' (Nat.lt_of_lt_of_le hj.2 hcount)] at this

/-! ## Held blocks -/

/-- The blocks `held` are allocated on the GPU, each to one holder, and no free block is. -/
structure Holds (m : BlockManager) (held : List BlockId) : Prop where
  nodup : (m.freeGpu ++ held).Nodup
  free : ∀ id ∈ m.freeGpu, ∃ refCount, m.blocks.lookup id = some ⟨.gpu, refCount⟩
  held : ∀ id ∈ held, m.blocks.lookup id = some ⟨.gpu, 1⟩

section Holds

variable {m : BlockManager} {held : List BlockId}

theorem Holds.perm (h : m.Holds held) {held' : List BlockId} (hperm : held.Perm held') :
    m.Holds held' :=
  ⟨(hperm.append_left m.freeGpu).nodup_iff.mp h.nodup, h.free,
    fun id hid => h.held id (hperm.mem_iff.mpr hid)⟩

/-- Allocated blocks move from the free queue to the held ones. -/
theorem allocateLoop_spec {n : Nat} {allocated : List BlockId}
    (h : m.Holds (held ++ allocated)) (hn : n ≤ m.freeGpu.length) : ∃ more m',
    allocateLoop n m allocated = some (allocated ++ more, m') ∧ more.length = n ∧
      m'.Holds (held ++ (allocated ++ more)) ∧ m'.blockSize = m.blockSize ∧
      m.freeGpu = more ++ m'.freeGpu := by
  induction n generalizing m allocated with
  | zero => exact ⟨[], m, by simp [allocateLoop], rfl, by simpa using h, rfl, rfl⟩
  | succ n ih =>
    cases hfree : m.freeGpu with
    | nil =>
      rw [hfree] at hn
      exact absurd hn (Nat.not_succ_le_zero n)
    | cons id rest =>
      obtain ⟨refCount, hblock⟩ := h.free id (by simp [hfree])
      have hnodup := h.nodup
      rw [hfree, List.cons_append, List.nodup_cons] at hnodup
      have hnot : id ∉ rest ∧ id ∉ held ++ allocated := by
        constructor
        · exact fun hin => hnodup.1 (List.mem_append_left _ hin)
        · exact fun hin => hnodup.1 (List.mem_append_right _ hin)
      have hnext : Holds { m with freeGpu := rest, blocks := m.blocks.insert id ⟨.gpu, 1⟩ }
          (held ++ (allocated ++ [id])) := by
        refine ⟨?_, fun x hx => ?_, fun x hx => ?_⟩
        · have hperm : (id :: (rest ++ (held ++ allocated))).Perm
              (rest ++ (held ++ (allocated ++ [id]))) := by
            simpa only [List.append_assoc] using
              (List.perm_append_singleton id (rest ++ (held ++ allocated))).symm
          exact hperm.nodup_iff.mp (List.nodup_cons.mpr hnodup)
        · rw [Assoc.lookup_insert_eq, if_neg fun heq : x = id => hnot.1 (heq ▸ hx)]
          exact h.free x (by simp [hfree, hx])
        · rw [Assoc.lookup_insert_eq]
          split
          · rfl
          · rename_i hne
            refine h.held x ?_
            simp only [List.mem_append, List.mem_singleton] at hx ⊢
            tauto
      obtain ⟨more, m', hloop, hlen, hholds, hsize, hrest⟩ := ih hnext (by
        rw [hfree, List.length_cons] at hn
        exact Nat.le_of_succ_le_succ hn)
      refine ⟨id :: more, m', ?_, by rw [List.length_cons, hlen], ?_, hsize, ?_⟩
      · rw [allocateLoop]
        simp only [hfree, hblock, hloop, List.append_assoc, List.singleton_append]
      · rwa [List.append_assoc, List.singleton_append] at hholds
      · rw [List.cons_append]
        exact congrArg _ hrest

/-- Freed blocks move back to the end of the free queue. -/
theorem free_spec {blocks : List BlockId} (h : m.Holds (blocks ++ held)) : ∃ m',
    BlockManager.free blocks m = some m' ∧ m'.Holds held ∧ m'.blockSize = m.blockSize ∧
      m'.freeGpu = m.freeGpu ++ blocks := by
  induction blocks generalizing m with
  | nil => exact ⟨m, rfl, h, rfl, (List.append_nil _).symm⟩
  | cons id blocks ih =>
    have hblock := h.held id List.mem_cons_self
    have hnodup := h.nodup
    have hnot : id ∉ m.freeGpu ∧ id ∉ blocks ++ held := by
      rw [List.cons_append, List.nodup_middle, List.nodup_cons] at hnodup
      constructor
      · exact fun hin => hnodup.1 (List.mem_append_left _ hin)
      · exact fun hin => hnodup.1 (List.mem_append_right _ hin)
    have hnext : Holds { m with
        blocks := m.blocks.insert id ⟨.gpu, 0⟩
        freeGpu := m.freeGpu ++ [id] } (blocks ++ held) := by
      refine ⟨?_, fun x hx => ?_, fun x hx => ?_⟩
      · rw [List.append_assoc, List.singleton_append]
        exact hnodup
      · rw [Assoc.lookup_insert_eq]
        split
        · exact ⟨0, rfl⟩
        · rename_i hne
          rcases List.mem_append.mp hx with hx | hx
          · exact h.free x hx
          · exact absurd (List.mem_singleton.mp hx) hne
      · rw [Assoc.lookup_insert_eq, if_neg fun heq : x = id => hnot.2 (heq ▸ hx)]
        exact h.held x (List.mem_cons_of_mem _ hx)
    obtain ⟨m', hfree, hholds, hsize, hqueue⟩ := ih hnext
    refine ⟨m', ?_, hholds, hsize, by rw [hqueue, List.append_assoc, List.singleton_append]⟩
    rw [BlockManager.free, hblock]
    simpa using hfree

end Holds

end BlockManager

end Arle.Scheduler
