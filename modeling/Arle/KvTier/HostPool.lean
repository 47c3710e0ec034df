import Arle.Lib.Run
import Arle.KvTier.HostArena

/-!
# The host pinned pool

`HostPinnedPool` of `infer/src/kv_tier/host_pool.rs`: the arena with a mirror of its live
regions. The contents of the regions are not modelled, only who owns them. A panic is
`none`.
-/

namespace Arle.KvTier

/-- A reservation of the pool. -/
abbrev HostPinnedRegion := Extent

/-- Why a release fails. -/
inductive PoolError
  | poisoned
  | overflow
  | outOfBounds
  | notLive
  | native (err : ArenaError)
deriving DecidableEq, Repr

/-- The pool; the hash set of live regions is the list of its elements. -/
structure HostPinnedPool where
  capacityBytes : Nat
  arena : KvHostArena
  liveRegions : List HostPinnedRegion
deriving DecidableEq, Repr

namespace HostPinnedPool

/-- `HostPinnedPool::new`; there is no pool without capacity. -/
def new (capacityBytes : UInt64) : Option HostPinnedPool :=
  if capacityBytes = 0 then none
  else some {
    capacityBytes := capacityBytes.toNat
    arena := KvHostArena.create capacityBytes
    liveRegions := [] }

def reservedBytes (pool : HostPinnedPool) : Nat := pool.arena.reservedBytes

/-- `HostPinnedPool::validate_live_region`: the offset of a live region. -/
def validateLiveRegion (pool : HostPinnedPool) (region : HostPinnedRegion) :
    Except PoolError Nat :=
  match Word.checkedAdd 64 region.offset region.len with
  | none => .error .overflow
  | some regionEnd =>
    if regionEnd > pool.capacityBytes then .error .outOfBounds
    else if region ∉ pool.liveRegions then .error .notLive
    else .ok region.offset

/-- `HostPinnedPool::reserve`; a second reservation of a live region panics. -/
def reserve (pool : HostPinnedPool) (len : Nat) :
    Option (Except ArenaError (Option HostPinnedRegion) × HostPinnedPool) :=
  match pool.arena.reserve len with
  | (.error err, arena) => some (.error err, { pool with arena := arena })
  | (.ok none, arena) => some (.ok none, { pool with arena := arena })
  | (.ok (some region), arena) =>
    if region ∈ pool.liveRegions then none
    else some (.ok (some region), { pool with
      arena := arena
      liveRegions := region :: pool.liveRegions })

/-- `HostPinnedPool::release`. -/
def release (pool : HostPinnedPool) (region : HostPinnedRegion) :
    Except PoolError Unit × HostPinnedPool :=
  match pool.validateLiveRegion region with
  | .error err => (.error err, pool)
  | .ok _ =>
    match pool.arena.release region with
    | (.error err, arena) => (.error (.native err), { pool with arena := arena })
    | (.ok (), arena) => (.ok (), { pool with
        arena := arena
        liveRegions := pool.liveRegions.erase region })

/-- `HostPinnedPool::reset`. -/
def reset (pool : HostPinnedPool) : HostPinnedPool :=
  { pool with arena := pool.arena.reset, liveRegions := [] }

/-! ## The invariant of the pool -/

/-- The mirror holds the live regions of the arena. -/
structure Sound (pool : HostPinnedPool) : Prop where
  partition : pool.arena.Partition pool.liveRegions
  capacity : pool.capacityBytes = pool.arena.capacityBytes

/-- The calls on a pool. -/
inductive PoolOp
  | reserve (len : Nat)
  | release (region : HostPinnedRegion)
  | reset

/-- A call that returns. -/
def PoolStep (pool : HostPinnedPool) (op : PoolOp) (pool' : HostPinnedPool) : Prop :=
  match op with
  | .reserve len => ∃ result, pool.reserve len = some (result, pool')
  | .release region => pool' = (pool.release region).2
  | .reset => pool' = pool.reset

/-- A pool that the calls make of a new one. -/
def InUse (pool : HostPinnedPool) : Prop :=
  Reachable (fun pool => ∃ capacityBytes, new capacityBytes = some pool) PoolStep pool

theorem sound_new {capacityBytes : UInt64} {pool : HostPinnedPool}
    (h : new capacityBytes = some pool) : pool.Sound := by
  unfold new at h
  split at h
  · cases h
  · cases h
    exact ⟨KvHostArena.partition_create capacityBytes, rfl⟩

section Spec

variable {pool : HostPinnedPool} {region : HostPinnedRegion}

namespace Sound

theorem nodup (h : pool.Sound) : pool.liveRegions.Nodup :=
  (List.nodup_append.mp h.partition.tiles.nodup).1

theorem apart (h : pool.Sound) : pool.liveRegions.Pairwise Extent.Apart :=
  (List.pairwise_append.mp h.partition.tiles.apart).1

theorem validate (h : pool.Sound) (hr : region ∈ pool.liveRegions) :
    pool.validateLiveRegion region = .ok region.offset := by
  have hmem : region ∈ pool.liveRegions ++ pool.arena.freeList := List.mem_append_left _ hr
  have hfinish := h.partition.finish_le hmem
  rw [validateLiveRegion, show Word.checkedAdd 64 region.offset region.len = some region.finish
    from h.partition.regionEnd_eq hmem]
  dsimp only
  rw [if_neg (by rw [h.capacity]; omega), if_neg (not_not_intro hr)]

end Sound

/-- A reserve neither fails nor panics: it changes nothing, or it adds one live region that
is apart from the others. -/
theorem reserve_spec (h : pool.Sound) (len : Nat) : ∃ result pool',
    pool.reserve len = some (.ok result, pool') ∧ pool'.Sound ∧
      match result with
      | none => pool' = pool
      | some region => region.len = len ∧ pool'.liveRegions = region :: pool.liveRegions ∧
          ∀ r ∈ pool.liveRegions, region.Apart r := by
  obtain ⟨result, arena, hreserve, hcap, hspec⟩ := KvHostArena.reserve_spec h.partition len
  rw [reserve, hreserve]
  cases result with
  | none =>
    have hsame : ({ pool with arena := arena } : HostPinnedPool) = pool := by
      rw [hspec]
    exact ⟨none, _, rfl, hsame.symm ▸ h, hsame⟩
  | some region =>
    obtain ⟨hlen, hpart⟩ := hspec
    have hfresh : region ∉ pool.liveRegions := by
      have := (List.nodup_append.mp hpart.tiles.nodup).1
      exact (List.nodup_cons.mp this).1
    simp only [if_neg hfresh]
    exact ⟨_, _, rfl, ⟨hpart, h.capacity.trans hcap.symm⟩, hlen, rfl, hpart.apart⟩

/-- A release of a live region succeeds. -/
theorem release_spec (h : pool.Sound) (hr : region ∈ pool.liveRegions) : ∃ pool',
    pool.release region = (.ok (), pool') ∧ pool'.Sound ∧
      pool'.liveRegions = pool.liveRegions.erase region := by
  obtain ⟨arena, hrelease, hcap, hpart⟩ :=
    KvHostArena.release_spec (h.partition.perm (List.perm_cons_erase hr))
  rw [release, h.validate hr]
  simp only [hrelease]
  exact ⟨_, rfl, ⟨hpart, h.capacity.trans hcap.symm⟩, rfl⟩

/-- A release of any other region fails and changes nothing. -/
theorem release_of_not_live (hr : region ∉ pool.liveRegions) :
    (pool.release region).2 = pool := by
  rw [release, validateLiveRegion]
  split
  · rfl
  · rename_i hvalid
    split at hvalid
    · cases hvalid
    · split at hvalid <;> cases hvalid

theorem release_sound (h : pool.Sound) (region : HostPinnedRegion) :
    (pool.release region).2.Sound := by
  by_cases hr : region ∈ pool.liveRegions
  · obtain ⟨pool', hrelease, hsound, -⟩ := release_spec h hr
    rw [hrelease]
    exact hsound
  · rw [release_of_not_live hr]
    exact h

end Spec

theorem sound_step : Preserved PoolStep Sound := by
  intro pool op pool' h hstep
  cases op with
  | reserve len =>
    obtain ⟨result, hresult⟩ := hstep
    obtain ⟨result', pool₁, hreserve, hsound, -⟩ := reserve_spec h len
    rw [hreserve] at hresult
    cases hresult
    exact hsound
  | release region =>
    obtain rfl : pool' = (pool.release region).2 := hstep
    exact release_sound h region
  | reset =>
    obtain rfl : pool' = pool.reset := hstep
    exact ⟨KvHostArena.reset_spec h.partition, h.capacity⟩

theorem InUse.sound {pool : HostPinnedPool} (h : pool.InUse) : pool.Sound := by
  refine h.invariant ?_ sound_step
  rintro pool ⟨capacityBytes, hnew⟩
  exact sound_new hnew

end HostPinnedPool

/-- A pool behind a lock; a panic of a holder poisons it. -/
structure SharedHostPinnedPool where
  inner : HostPinnedPool
  poisoned : Bool
deriving DecidableEq, Repr

/-- `SharedHostPinnedPool::release_region`; a poisoned lock is an error. -/
def SharedHostPinnedPool.releaseRegion (shared : SharedHostPinnedPool)
    (region : HostPinnedRegion) : Except PoolError Unit × SharedHostPinnedPool :=
  if shared.poisoned then (.error .poisoned, shared)
  else
    let (result, pool) := shared.inner.release region
    (result, { shared with inner := pool })

end Arle.KvTier
