import Arle.Scheduler.BlockManager
import Arle.Lib.Run
import Arle.Lib.Word

/-!
# Holds of blocks

The rest of `BlockManager`: CPU blocks, pins and swaps. An allocation and a pin create a hold of
each of their blocks, and a free and the commit of a swap give up one hold of each. As long as a
pin is one of held blocks and a swap has the only holds of its blocks, the counters count the holds
and the free queues have the other blocks (`conserved_of_run`). The commit of a swap resets the
counter of a block that others hold as well.
-/

namespace Arle.Scheduler.BlockManager

/-- The queue of the free blocks of a tier. -/
def freeOf (m : BlockManager) : BlockLocation → List BlockId
  | .gpu => m.freeGpu
  | .cpu => m.freeCpu

def setFree (m : BlockManager) (location : BlockLocation) (free : List BlockId) : BlockManager :=
  match location with
  | .gpu => { m with freeGpu := free }
  | .cpu => { m with freeCpu := free }

/-- The loop of `allocate_gpu` and of `allocate_cpu`. -/
def takeLoop (location : BlockLocation) :
    Nat → BlockManager → List BlockId → Option (List BlockId × BlockManager)
  | 0, m, allocated => some (allocated, m)
  | n + 1, m, allocated =>
    match m.freeOf location with
    | [] => none
    | id :: rest =>
      match m.blocks.lookup id with
      | none => none
      | some block => takeLoop location n
          { m.setFree location rest with blocks := m.blocks.insert id { block with refCount := 1 } }
          (allocated ++ [id])

/-- `allocate_cpu`. -/
def allocateCpu (m : BlockManager) (n : Nat) :
    Option (Except AllocationError (List BlockId) × BlockManager) :=
  if m.freeCpu.length < n then some (.error (.insufficientCpuBlocks n m.freeCpu.length), m)
  else (takeLoop .cpu n m []).map fun (allocated, m) => (.ok allocated, m)

/-- `pin`; the counter is a `u32`. -/
def pin : List BlockId → BlockManager → Option BlockManager
  | [], m => some m
  | id :: blocks, m =>
    match m.blocks.lookup id with
    | none => none
    | some block => pin blocks { m with
        blocks := m.blocks.insert id { block with
          refCount := Word.wrappingAdd 32 block.refCount 1 } }

/-- `ref_count`. -/
def refCount (m : BlockManager) (id : BlockId) : Nat :=
  match m.blocks.lookup id with
  | some block => block.refCount
  | none => 0

structure SwapPlan where
  gpuToCpu : List (BlockId × BlockId)
  cpuToGpu : List (BlockId × BlockId)
deriving DecidableEq, Repr

/-- `plan_swap_out`. -/
def planSwapOut (m : BlockManager) (gpuBlocks : List BlockId) :
    Option (Except AllocationError SwapPlan × BlockManager) :=
  (m.allocateCpu gpuBlocks.length).map fun (result, m) =>
    (result.map fun cpuBlocks => ⟨gpuBlocks.zip cpuBlocks, []⟩, m)

/-- `plan_swap_in`. -/
def planSwapIn (m : BlockManager) (cpuBlocks : List BlockId) :
    Option (Except AllocationError SwapPlan × BlockManager) :=
  (m.allocateGpu cpuBlocks.length).map fun (result, m) =>
    (result.map fun gpuBlocks => ⟨[], cpuBlocks.zip gpuBlocks⟩, m)

/-- The loop of `commit_swap_out` and of `commit_swap_in`, over the blocks that are left. -/
def commitLoop (location : BlockLocation) : List BlockId → BlockManager → Option BlockManager
  | [], m => some m
  | id :: blocks, m =>
    match m.blocks.lookup id with
    | none => none
    | some block =>
      let m := { m with blocks := m.blocks.insert id { block with refCount := 0 } }
      commitLoop location blocks (m.setFree location (m.freeOf location ++ [id]))

/-- `commit_swap_out`. -/
def commitSwapOut (m : BlockManager) (plan : SwapPlan) : Option BlockManager :=
  commitLoop .gpu (plan.gpuToCpu.map Prod.fst) m

/-- `commit_swap_in`. -/
def commitSwapIn (m : BlockManager) (plan : SwapPlan) : Option BlockManager :=
  commitLoop .cpu (plan.cpuToGpu.map Prod.fst) m

/-! ## Runs -/

inductive Op
  | allocateGpu (n : Nat)
  | allocateCpu (n : Nat)
  | pin (blocks : List BlockId)
  | free (blocks : List BlockId)
  | planSwapOut (gpuBlocks : List BlockId)
  | commitSwapOut (plan : SwapPlan)
  | planSwapIn (cpuBlocks : List BlockId)
  | commitSwapIn (plan : SwapPlan)

/-- The manager and the blocks that are held, each as often as there are holds of it. -/
structure Held where
  manager : BlockManager
  holds : List BlockId

/-- One call. What is given up has been held. -/
inductive Step : Held → Op → Held → Prop
  | allocateGpu {m m' : BlockManager} {holds : List BlockId} {n : Nat}
      {result : Except AllocationError (List BlockId)} (h : m.allocateGpu n = some (result, m')) :
      Step ⟨m, holds⟩ (.allocateGpu n) ⟨m', result.toOption.getD [] ++ holds⟩
  | allocateCpu {m m' : BlockManager} {holds : List BlockId} {n : Nat}
      {result : Except AllocationError (List BlockId)} (h : m.allocateCpu n = some (result, m')) :
      Step ⟨m, holds⟩ (.allocateCpu n) ⟨m', result.toOption.getD [] ++ holds⟩
  | pin {m m' : BlockManager} {holds blocks : List BlockId} (h : m.pin blocks = some m') :
      Step ⟨m, holds⟩ (.pin blocks) ⟨m', blocks ++ holds⟩
  | free {m m' : BlockManager} {holds rest blocks : List BlockId}
      (hholds : holds.Perm (blocks ++ rest)) (h : BlockManager.free blocks m = some m') :
      Step ⟨m, holds⟩ (.free blocks) ⟨m', rest⟩
  | planSwapOut {m m' : BlockManager} {holds gpuBlocks : List BlockId}
      {result : Except AllocationError SwapPlan}
      (h : m.planSwapOut gpuBlocks = some (result, m')) :
      Step ⟨m, holds⟩ (.planSwapOut gpuBlocks)
        ⟨m', (result.toOption.map fun plan => plan.gpuToCpu.map Prod.snd).getD [] ++ holds⟩
  | commitSwapOut {m m' : BlockManager} {holds rest : List BlockId} {plan : SwapPlan}
      (hholds : holds.Perm (plan.gpuToCpu.map Prod.fst ++ rest))
      (h : m.commitSwapOut plan = some m') : Step ⟨m, holds⟩ (.commitSwapOut plan) ⟨m', rest⟩
  | planSwapIn {m m' : BlockManager} {holds cpuBlocks : List BlockId}
      {result : Except AllocationError SwapPlan}
      (h : m.planSwapIn cpuBlocks = some (result, m')) :
      Step ⟨m, holds⟩ (.planSwapIn cpuBlocks)
        ⟨m', (result.toOption.map fun plan => plan.cpuToGpu.map Prod.snd).getD [] ++ holds⟩
  | commitSwapIn {m m' : BlockManager} {holds rest : List BlockId} {plan : SwapPlan}
      (hholds : holds.Perm (plan.cpuToGpu.map Prod.fst ++ rest))
      (h : m.commitSwapIn plan = some m') : Step ⟨m, holds⟩ (.commitSwapIn plan) ⟨m', rest⟩

/-- The blocks are of the tier and nobody else holds them. -/
def Sole (m : BlockManager) (location : BlockLocation) (blocks : List BlockId) : Prop :=
  ∀ id ∈ blocks, m.blocks.lookup id = some ⟨location, 1⟩

/-- A pin is one of held blocks, and a swap has the only holds of its blocks. -/
def Unshared (s : Held) : Op → Prop
  | .pin blocks => ∀ id ∈ blocks,
      0 < s.manager.refCount id ∧ s.manager.refCount id + blocks.count id < 2 ^ 32
  | .commitSwapOut plan => s.manager.Sole .gpu (plan.gpuToCpu.map Prod.fst)
  | .commitSwapIn plan => s.manager.Sole .cpu (plan.cpuToGpu.map Prod.fst)
  | _ => True

instance (m : BlockManager) (location : BlockLocation) (blocks : List BlockId) :
    Decidable (m.Sole location blocks) :=
  inferInstanceAs (Decidable (∀ id ∈ blocks, m.blocks.lookup id = some ⟨location, 1⟩))

instance (s : Held) : (op : Op) → Decidable (Unshared s op)
  | .pin blocks => inferInstanceAs (Decidable (∀ id ∈ blocks,
      0 < s.manager.refCount id ∧ s.manager.refCount id + blocks.count id < 2 ^ 32))
  | .commitSwapOut plan =>
    inferInstanceAs (Decidable (s.manager.Sole .gpu (plan.gpuToCpu.map Prod.fst)))
  | .commitSwapIn plan =>
    inferInstanceAs (Decidable (s.manager.Sole .cpu (plan.cpuToGpu.map Prod.fst)))
  | .allocateGpu _ => inferInstanceAs (Decidable True)
  | .allocateCpu _ => inferInstanceAs (Decidable True)
  | .free _ => inferInstanceAs (Decidable True)
  | .planSwapOut _ => inferInstanceAs (Decidable True)
  | .planSwapIn _ => inferInstanceAs (Decidable True)

/-! ## The counters count the holds -/

/-- `tier` says of which tier a managed block is. -/
structure Counted (tier : BlockId → Option BlockLocation) (m : BlockManager)
    (holds : List BlockId) : Prop where
  block : ∀ id, m.blocks.lookup id =
    (tier id).map fun location => ⟨location, holds.count id⟩
  nodup : ∀ location, (m.freeOf location).Nodup
  free : ∀ location id,
    id ∈ m.freeOf location ↔ tier id = some location ∧ holds.count id = 0

section Counted

variable {tier : BlockId → Option BlockLocation} {m m' : BlockManager}
  {holds holds' blocks allocated : List BlockId} {id : BlockId} {location : BlockLocation}

theorem freeOf_setFree (m : BlockManager) (location location' : BlockLocation)
    (free : List BlockId) (blocks : Assoc BlockId Block) :
    ({ m.setFree location free with blocks } : BlockManager).freeOf location' =
      if location' = location then free else m.freeOf location' := by
  cases location <;> cases location' <;> rfl

theorem Counted.perm (h : Counted tier m holds) (hperm : holds.Perm holds') :
    Counted tier m holds' := by
  refine ⟨fun id => ?_, h.nodup, fun location id => ?_⟩
  · rw [h.block id, hperm.count_eq]
  · rw [h.free location id, hperm.count_eq]

theorem Counted.lookup (h : Counted tier m holds) (hid : tier id = some location) :
    m.blocks.lookup id = some ⟨location, holds.count id⟩ := by
  rw [h.block id, hid]
  rfl

theorem Counted.tier_eq (h : Counted tier m holds) {block : Block}
    (hblock : m.blocks.lookup id = some block) :
    tier id = some block.location ∧ block.refCount = holds.count id := by
  rw [h.block id] at hblock
  obtain ⟨location, hid, rfl⟩ := Option.map_eq_some_iff.mp hblock
  exact ⟨hid, rfl⟩

/-- The counter of one block is set to its new holds, and its place in the free queue fits. -/
theorem Counted.set (h : Counted tier m holds) (holds' : List BlockId)
    (hid : tier id = some location) (hother : ∀ x, x ≠ id → holds'.count x = holds.count x)
    {free : List BlockId}
    (hnodup : free.Nodup)
    (hfree : ∀ x, x ∈ free ↔ if x = id then holds'.count id = 0 else x ∈ m.freeOf location) :
    Counted tier { m.setFree location free with
      blocks := m.blocks.insert id ⟨location, holds'.count id⟩ } holds' := by
  refine ⟨fun x => ?_, fun location' => ?_, fun location' x => ?_⟩
  · rw [Assoc.lookup_insert_eq]
    split
    · next hx => rw [hx, hid]; rfl
    · next hx => rw [h.block x, hother x hx]
  · rw [freeOf_setFree]
    split
    · exact hnodup
    · exact h.nodup location'
  · rw [freeOf_setFree]
    by_cases hx : x = id
    · subst hx
      split
      · next hlocation => simp [hfree, hlocation, hid]
      · next hlocation =>
        rw [h.free, hid]
        simp only [Option.some.injEq]
        tauto
    · split
      · next hlocation => rw [hfree, if_neg hx, h.free, hother x hx, hlocation]
      · rw [h.free, hother x hx]

theorem Counted.take (h : Counted tier m holds) {rest : List BlockId}
    (hfree : m.freeOf location = id :: rest) :
    ∃ block, m.blocks.lookup id = some block ∧ Counted tier { m.setFree location rest with
      blocks := m.blocks.insert id { block with refCount := 1 } } (id :: holds) := by
  obtain ⟨hid, hcount⟩ := (h.free location id).mp (by rw [hfree]; exact List.mem_cons_self)
  have hnodup := h.nodup location
  rw [hfree, List.nodup_cons] at hnodup
  have hone : (id :: holds).count id = 1 := by rw [List.count_cons_self, hcount]
  refine ⟨_, h.lookup hid, ?_⟩
  rw [← hone]
  refine h.set _ hid (fun x hx => List.count_cons_of_ne hx.symm) hnodup.2 fun x => ?_
  rw [hone]
  split
  · next hx => exact iff_of_false (hx ▸ hnodup.1) Nat.one_ne_zero
  · next hx => rw [hfree, List.mem_cons, or_iff_right hx]

theorem Counted.takeLoop {n : Nat} (h : Counted tier m holds)
    (hloop : takeLoop location n m allocated = some (blocks, m')) :
    ∃ more, blocks = allocated ++ more ∧ more.length = n ∧
      Counted tier m' (more ++ holds) := by
  induction n generalizing m holds allocated with
  | zero =>
    cases hloop
    exact ⟨[], (List.append_nil _).symm, rfl, h⟩
  | succ n ih =>
    rw [BlockManager.takeLoop] at hloop
    split at hloop
    · cases hloop
    · next id rest hfree =>
      obtain ⟨block, hblock, htaken⟩ := h.take hfree
      rw [hblock] at hloop
      obtain ⟨more, rfl, hlen, hmore⟩ := ih htaken hloop
      refine ⟨id :: more, by rw [List.append_assoc]; rfl, ?_, hmore.perm List.perm_middle⟩
      rw [List.length_cons, hlen]

theorem allocateLoop_eq (n : Nat) (m : BlockManager) (allocated : List BlockId) :
    allocateLoop n m allocated = BlockManager.takeLoop .gpu n m allocated := by
  induction n generalizing m allocated with
  | zero => rfl
  | succ n ih =>
    rw [allocateLoop, BlockManager.takeLoop]
    simp only [ih]
    rfl

theorem setFree_freeOf (m : BlockManager) (location : BlockLocation) :
    m.setFree location (m.freeOf location) = m := by
  cases location <;> rfl

/-- A hold more of a held block. -/
theorem Counted.bump (h : Counted tier m holds) (hid : tier id = some location)
    (hheld : 0 < holds.count id) : Counted tier { m with
      blocks := m.blocks.insert id ⟨location, holds.count id + 1⟩ } (id :: holds) := by
  have hset := h.set (id :: holds) hid (fun x hx => List.count_cons_of_ne hx.symm)
    (h.nodup location) fun x => by
      split
      · next hx =>
        rw [hx, h.free, List.count_cons_self]
        exact iff_of_false (fun hfree => hheld.ne' hfree.2) (Nat.succ_ne_zero _)
      · exact Iff.rfl
  rwa [setFree_freeOf, List.count_cons_self] at hset

theorem Counted.pin (h : Counted tier m holds)
    (hheld : ∀ id ∈ blocks, 0 < holds.count id ∧ holds.count id + blocks.count id < 2 ^ 32)
    (hpin : m.pin blocks = some m') : Counted tier m' (blocks ++ holds) := by
  induction blocks generalizing m holds with
  | nil =>
    cases hpin
    exact h
  | cons id blocks ih =>
    rw [BlockManager.pin] at hpin
    split at hpin
    · cases hpin
    · next block hblock =>
      obtain ⟨hid, hcount⟩ := h.tier_eq hblock
      obtain ⟨hpos, hlt⟩ := hheld id List.mem_cons_self
      rw [List.count_cons_self] at hlt
      have hnext := h.bump hid hpos
      rw [hcount, Word.wrappingAdd_of_lt (by omega)] at hpin
      have hrest := ih hnext (fun x hx => ?_) hpin
      · exact hrest.perm List.perm_middle
      · obtain ⟨hpos', hlt'⟩ := hheld x (List.mem_cons_of_mem id hx)
        rw [List.count_cons] at hlt' ⊢
        omega

/-- A hold less of a held block. -/
theorem Counted.drop (h : Counted tier m (id :: holds)) (hid : tier id = some location) :
    Counted tier { m.setFree location
        (if holds.count id = 0 then m.freeOf location ++ [id] else m.freeOf location) with
      blocks := m.blocks.insert id ⟨location, holds.count id⟩ } holds := by
  have hnot : id ∉ m.freeOf location := by
    rw [h.free, List.count_cons_self]
    exact fun hfree => Nat.succ_ne_zero _ hfree.2
  refine h.set _ hid (fun x hx => (List.count_cons_of_ne hx.symm).symm) ?_ fun x => ?_
  · split
    · exact List.nodup_append.mpr ⟨h.nodup location, List.nodup_singleton id,
        fun x hx y hy heq => hnot (List.mem_singleton.mp hy ▸ heq ▸ hx)⟩
    · exact h.nodup location
  · by_cases hx : x = id
    · subst hx
      rw [if_pos rfl]
      split
      · next hzero => exact iff_of_true (by simp) hzero
      · next hzero => exact iff_of_false hnot hzero
    · rw [if_neg hx]
      split
      · simp [hx]
      · exact Iff.rfl

theorem Counted.freeBlocks (h : Counted tier m (blocks ++ holds))
    (hfree : BlockManager.free blocks m = some m') : Counted tier m' holds := by
  induction blocks generalizing m with
  | nil =>
    cases hfree
    exact h
  | cons id blocks ih =>
    rw [BlockManager.free] at hfree
    split at hfree
    · cases hfree
    · next block hblock =>
      obtain ⟨hid, hcount⟩ := h.tier_eq hblock
      obtain ⟨location, refCount⟩ := block
      dsimp only at hid hcount
      rw [List.cons_append] at h hcount
      rw [List.count_cons_self] at hcount
      have hdrop := h.drop hid
      dsimp only at hfree
      rw [hcount, Nat.add_sub_cancel] at hfree
      split at hfree
      · next hzero =>
        rw [if_pos hzero] at hdrop
        cases location
        · exact ih hdrop hfree
        · exact ih hdrop hfree
      · next hzero =>
        rw [if_neg hzero, setFree_freeOf] at hdrop
        exact ih hdrop hfree

theorem Counted.commit (h : Counted tier m (blocks ++ holds))
    (hsole : m.Sole location blocks) (hcommit : commitLoop location blocks m = some m') :
    Counted tier m' holds := by
  induction blocks generalizing m with
  | nil =>
    cases hcommit
    exact h
  | cons id blocks ih =>
    have hblock := hsole id List.mem_cons_self
    obtain ⟨hid, hcount⟩ := h.tier_eq hblock
    rw [List.cons_append] at h hcount
    rw [List.count_cons_self] at hcount
    have hzero : (blocks ++ holds).count id = 0 := (Nat.succ.inj hcount).symm
    have hdrop := h.drop hid
    rw [if_pos hzero, hzero] at hdrop
    rw [commitLoop, hblock] at hcommit
    refine ih hdrop (fun x hx => ?_) (by cases location <;> exact hcommit)
    have hne : x ≠ id := by
      rintro rfl
      exact List.count_eq_zero.mp hzero (List.mem_append_left holds hx)
    rw [Assoc.lookup_insert_eq, if_neg hne]
    exact hsole x (List.mem_cons_of_mem id hx)

/-- An allocation fails and changes nothing, or creates a hold of each block. -/
theorem Counted.allocateGpu {n : Nat} {result : Except AllocationError (List BlockId)}
    (h : Counted tier m holds) (hallocate : m.allocateGpu n = some (result, m')) :
    Counted tier m' (result.toOption.getD [] ++ holds) ∧
      ∀ ids, result = .ok ids → ids.length = n := by
  unfold BlockManager.allocateGpu at hallocate
  split at hallocate
  · cases hallocate
    exact ⟨h, (fun _ h => by cases h)⟩
  · obtain ⟨⟨allocated, m''⟩, hloop, heq⟩ := Option.map_eq_some_iff.mp hallocate
    cases heq
    rw [allocateLoop_eq] at hloop
    obtain ⟨more, rfl, hlen, hmore⟩ := h.takeLoop hloop
    exact ⟨hmore, fun ids hids => Except.ok.inj hids ▸ hlen⟩

theorem Counted.allocateCpu {n : Nat} {result : Except AllocationError (List BlockId)}
    (h : Counted tier m holds) (hallocate : m.allocateCpu n = some (result, m')) :
    Counted tier m' (result.toOption.getD [] ++ holds) ∧
      ∀ ids, result = .ok ids → ids.length = n := by
  unfold BlockManager.allocateCpu at hallocate
  split at hallocate
  · cases hallocate
    exact ⟨h, (fun _ h => by cases h)⟩
  · obtain ⟨⟨allocated, m''⟩, hloop, heq⟩ := Option.map_eq_some_iff.mp hallocate
    cases heq
    obtain ⟨more, rfl, hlen, hmore⟩ := h.takeLoop hloop
    exact ⟨hmore, fun ids hids => Except.ok.inj hids ▸ hlen⟩

/-- A plan creates a hold of each block to copy to. -/
theorem Counted.planSwapOut {gpuBlocks : List BlockId} {result : Except AllocationError SwapPlan}
    (h : Counted tier m holds) (hplan : m.planSwapOut gpuBlocks = some (result, m')) :
    Counted tier m'
      ((result.toOption.map fun plan => plan.gpuToCpu.map Prod.snd).getD [] ++ holds) := by
  obtain ⟨⟨allocation, m''⟩, hallocate, heq⟩ := Option.map_eq_some_iff.mp hplan
  cases heq
  obtain ⟨hcounted, hlen⟩ := h.allocateCpu hallocate
  cases allocation with
  | error e => exact hcounted
  | ok ids =>
    change Counted tier m' ((gpuBlocks.zip ids).map Prod.snd ++ holds)
    rw [List.map_snd_zip (hlen ids rfl).le]
    exact hcounted

theorem Counted.planSwapIn {cpuBlocks : List BlockId} {result : Except AllocationError SwapPlan}
    (h : Counted tier m holds) (hplan : m.planSwapIn cpuBlocks = some (result, m')) :
    Counted tier m'
      ((result.toOption.map fun plan => plan.cpuToGpu.map Prod.snd).getD [] ++ holds) := by
  obtain ⟨⟨allocation, m''⟩, hallocate, heq⟩ := Option.map_eq_some_iff.mp hplan
  cases heq
  obtain ⟨hcounted, hlen⟩ := h.allocateGpu hallocate
  cases allocation with
  | error e => exact hcounted
  | ok ids =>
    change Counted tier m' ((cpuBlocks.zip ids).map Prod.snd ++ holds)
    rw [List.map_snd_zip (hlen ids rfl).le]
    exact hcounted

/-- Every call keeps the counts. -/
theorem Counted.step {s s' : Held} {op : Op} (h : Counted tier s.manager s.holds)
    (hunshared : Unshared s op) (hstep : Step s op s') : Counted tier s'.manager s'.holds := by
  cases hstep with
  | allocateGpu hallocate => exact (h.allocateGpu hallocate).1
  | allocateCpu hallocate => exact (h.allocateCpu hallocate).1
  | @pin m m' holds blocks hpin =>
    refine h.pin (fun id hid => ?_) hpin
    have hcount := hunshared id hid
    cases hblock : m.blocks.lookup id with
    | none =>
      rw [refCount, hblock] at hcount
      exact absurd hcount.1 (Nat.lt_irrefl 0)
    | some block =>
      rw [refCount, hblock] at hcount
      rwa [← (h.tier_eq hblock).2]
  | free hholds hfree => exact (h.perm hholds).freeBlocks hfree
  | planSwapOut hplan => exact h.planSwapOut hplan
  | commitSwapOut hholds hcommit => exact (h.perm hholds).commit hunshared hcommit
  | planSwapIn hplan => exact h.planSwapIn hplan
  | commitSwapIn hholds hcommit => exact (h.perm hholds).commit hunshared hcommit

end Counted

/-- What is said of every state: no free queue has a block twice, no held block is free, and each
free queue and the held blocks of its tier are the blocks that the tier had at the start. -/
structure Conserved (numGpuBlocks numCpuBlocks : Nat) (s : Held) : Prop where
  nodup : s.manager.freeGpu.Nodup ∧ s.manager.freeCpu.Nodup
  held : ∀ id ∈ s.holds, id ∉ s.manager.freeGpu ∧ id ∉ s.manager.freeCpu
  gpu : ∀ id, id ∈ blockIds 0 numGpuBlocks ↔ id ∈ s.manager.freeGpu ∨
    id ∈ s.holds ∧ (s.manager.blocks.lookup id).map Block.location = some .gpu
  cpu : ∀ id, id ∈ blockIds numGpuBlocks numCpuBlocks ↔ id ∈ s.manager.freeCpu ∨
    id ∈ s.holds ∧ (s.manager.blocks.lookup id).map Block.location = some .cpu

/-- The tiers of the blocks of a new manager. -/
def tierOf (numGpuBlocks numCpuBlocks : Nat) (id : BlockId) : Option BlockLocation :=
  if id ∈ blockIds 0 numGpuBlocks then some .gpu
  else if id ∈ blockIds numGpuBlocks numCpuBlocks then some .cpu else none

section Tiers

variable {numGpuBlocks numCpuBlocks blockSize : Nat}

theorem tierOf_eq_gpu {id : BlockId} :
    tierOf numGpuBlocks numCpuBlocks id = some .gpu ↔ id ∈ blockIds 0 numGpuBlocks := by
  unfold tierOf
  split
  · next h => exact iff_of_true rfl h
  · next h =>
    refine iff_of_false ?_ h
    split
    · intro htier
      cases htier
    · intro htier
      cases htier

theorem tierOf_eq_cpu (htotal : numGpuBlocks + numCpuBlocks ≤ 2 ^ 32) {id : BlockId} :
    tierOf numGpuBlocks numCpuBlocks id = some .cpu ↔
      id ∈ blockIds numGpuBlocks numCpuBlocks := by
  unfold tierOf
  split
  · next hgpu =>
    refine iff_of_false (fun h => by cases h) fun hcpu => ?_
    obtain ⟨i, hi, rfl⟩ := List.mem_map.mp hgpu
    rw [List.mem_range'_1] at hi
    have := (mem_blockIds htotal (by omega)).mp hcpu
    omega
  · split
    · next h => exact iff_of_true rfl h
    · next h => exact iff_of_false (fun h => by cases h) h

theorem counted_new (h : 0 < blockSize) (htotal : numGpuBlocks + numCpuBlocks ≤ 2 ^ 32) :
    Counted (tierOf numGpuBlocks numCpuBlocks)
      (new numGpuBlocks numCpuBlocks blockSize h) [] := by
  refine ⟨fun id => ?_, fun location => ?_, fun location id => ?_⟩
  · rw [new, Assoc.lookup_foldl_insert, Assoc.lookup_foldl_insert]
    have hcpu : tierOf numGpuBlocks numCpuBlocks id = some .cpu ↔
        id ∈ blockIds numGpuBlocks numCpuBlocks := tierOf_eq_cpu htotal
    by_cases hid : id ∈ blockIds numGpuBlocks numCpuBlocks
    · rw [if_pos hid, hcpu.mpr hid]
      rfl
    · rw [if_neg hid, tierOf, if_neg hid]
      split <;> rfl
  · cases location
    · exact nodup_blockIds (by omega)
    · exact nodup_blockIds htotal
  · cases location
    · exact tierOf_eq_gpu.symm.trans (and_iff_left rfl).symm
    · exact (tierOf_eq_cpu htotal).symm.trans (and_iff_left rfl).symm

theorem Counted.conserved (htotal : numGpuBlocks + numCpuBlocks ≤ 2 ^ 32) {s : Held}
    (h : Counted (tierOf numGpuBlocks numCpuBlocks) s.manager s.holds) :
    Conserved numGpuBlocks numCpuBlocks s := by
  have hall (location : BlockLocation) (id : BlockId) :
      tierOf numGpuBlocks numCpuBlocks id = some location ↔
        id ∈ s.manager.freeOf location ∨
          id ∈ s.holds ∧ (s.manager.blocks.lookup id).map Block.location = some location := by
    rw [h.free, h.block, Option.map_map, ← List.count_pos_iff]
    constructor
    · intro hid
      rcases Nat.eq_zero_or_pos (s.holds.count id) with hzero | hpos
      · exact .inl ⟨hid, hzero⟩
      · exact .inr ⟨hpos, by rw [hid]; rfl⟩
    · rintro (⟨hid, -⟩ | ⟨-, hid⟩)
      · exact hid
      · obtain ⟨location', hid', rfl⟩ := Option.map_eq_some_iff.mp hid
        exact hid'
  refine ⟨⟨h.nodup .gpu, h.nodup .cpu⟩, fun id hid => ?_, fun id => ?_, fun id => ?_⟩
  · have hpos := (List.count_pos_iff.mpr hid).ne'
    exact ⟨fun hfree => hpos ((h.free .gpu id).mp hfree).2,
      fun hfree => hpos ((h.free .cpu id).mp hfree).2⟩
  · rw [← tierOf_eq_gpu]
    exact hall .gpu id
  · rw [← tierOf_eq_cpu htotal]
    exact hall .cpu id

/-- In every run whose pins are of held blocks and whose swaps have the only holds of their
blocks, blocks are conserved. -/
theorem conserved_of_run (h : 0 < blockSize) (htotal : numGpuBlocks + numCpuBlocks ≤ 2 ^ 32)
    {ops : List Op} {s : Held}
    (hrun : Run (guarded Unshared Step) ⟨new numGpuBlocks numCpuBlocks blockSize h, []⟩ ops s) :
    Conserved numGpuBlocks numCpuBlocks s := by
  refine Counted.conserved htotal ?_
  refine hrun.invariant (P := fun s => Counted (tierOf numGpuBlocks numCpuBlocks) s.manager s.holds)
    (fun s op s' hs hstep => hs.step hstep.1 hstep.2) (counted_new h htotal)

end Tiers

/-- A block is allocated, pinned, freed by one of its holders and swapped out. -/
theorem conserved_swapped : ∃ s, Conserved 1 1 s ∧ s.holds = [⟨1⟩] := by
  have hallocate : (new 1 1 16 (by decide)).allocateGpu 1 = some (.ok [⟨0⟩], _) := rfl
  have hrun : Run (guarded Unshared Step) ⟨new 1 1 16 (by decide), []⟩
      [.allocateGpu 1, .pin [⟨0⟩], .free [⟨0⟩], .planSwapOut [⟨0⟩],
        .commitSwapOut ⟨[(⟨0⟩, ⟨1⟩)], []⟩] ⟨_, [⟨1⟩]⟩ :=
    .cons ⟨trivial, .allocateGpu hallocate⟩ (.cons ⟨by decide, .pin rfl⟩
      (.cons ⟨trivial, .free (.refl _) rfl⟩ (.cons
        ⟨trivial, .planSwapOut (show _ = some (.ok ⟨[(⟨0⟩, ⟨1⟩)], []⟩, _) from rfl)⟩
        (.cons ⟨by decide, .commitSwapOut (by decide) rfl⟩ (.nil _)))))
  exact ⟨_, conserved_of_run (by decide) (by decide) hrun, rfl⟩

/-- The commit frees a block that the pin holds as well. -/
theorem commitSwapOut_frees_pinned : ¬ ∀ (numGpuBlocks numCpuBlocks blockSize : Nat)
    (h : 0 < blockSize) (ops : List Op) (s : Held), numGpuBlocks + numCpuBlocks ≤ 2 ^ 32 →
    Run Step ⟨new numGpuBlocks numCpuBlocks blockSize h, []⟩ ops s →
    Conserved numGpuBlocks numCpuBlocks s := by
  intro hall
  have hallocate : (new 1 1 16 (by decide)).allocateGpu 1 = some (.ok [⟨0⟩], _) := rfl
  have hrun : Run Step ⟨new 1 1 16 (by decide), []⟩ [.allocateGpu 1, .pin [⟨0⟩],
      .planSwapOut [⟨0⟩], .commitSwapOut ⟨[(⟨0⟩, ⟨1⟩)], []⟩] ⟨_, [⟨0⟩, ⟨1⟩]⟩ :=
    .cons (.allocateGpu hallocate) (.cons (.pin rfl) (.cons
      (.planSwapOut (show _ = some (.ok ⟨[(⟨0⟩, ⟨1⟩)], []⟩, _) from rfl))
      (.cons (.commitSwapOut (by decide) rfl) (.nil _))))
  exact absurd (hall 1 1 16 _ _ _ (by decide) hrun).held (by decide)

end Arle.Scheduler.BlockManager
