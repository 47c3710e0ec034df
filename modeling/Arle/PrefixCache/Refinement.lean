import Arle.Lib.Run
import Arle.PrefixCache.Windows

/-!
# The radix cache refines a map of windows

A cache that serves insertions, lookups and releases is a map from block-aligned prefixes
to blocks: `Represents c M`. `MapStep` is a step of the cache together with the map it
stands for, and `radix_refines_map` says what every operation returns in terms of the map.
-/

namespace Arle.PrefixCache.RadixCache

open KvTier WindowMap

/-- The operations of a cache that never evicts. -/
inductive CacheOp
  | insert (tokens : List Token) (blocks : List BlockId) (fps : List BlockFingerprint)
  | lookup (tokens : List Token)
  | release (blocks : List BlockId)

/-- A step of the cache, and of the map of the windows inserted so far. The code asserts that
an insertion brings one fingerprint for each block. -/
def MapStep (s : RadixCache × WindowMap Token BlockId) (op : CacheOp)
    (t : RadixCache × WindowMap Token BlockId) : Prop :=
  match op with
  | .insert tokens blocks fps =>
    blocks.length = fps.length ∧
    (∃ n, s.1.insertWithFingerprints tokens blocks fps = some (n, t.1)) ∧
    t.2 = record s.1.blockSize tokens blocks s.2
  | .lookup tokens => (∃ result, s.1.lookup tokens = some (result, t.1)) ∧ t.2 = s.2
  | .release blocks => t.1 = s.1.release blocks ∧ t.2 = s.2

/-- A fresh cache and the empty map. -/
def MapStart (size : Nat) (s : RadixCache × WindowMap Token BlockId) : Prop :=
  RadixCache.new size = some s.1 ∧ s.2 = fun _ => none

/-- The cache is sound, breaks no word, and holds exactly the blocks of the map. -/
structure Represents (size : Nat) (s : RadixCache × WindowMap Token BlockId) : Prop where
  sound : s.1.Sound
  free_nodup : s.1.freeNodes.Nodup
  blockSize : s.1.blockSize = size
  unbroken : ∀ v, s.1.Unbroken v
  holds : ∀ p b, s.1.Holds p b ↔ s.2 p = some b

/-! ## A fresh cache -/

section New

variable {size : Nat} {c : RadixCache}

theorem new_eq (h : RadixCache.new size = some c) :
    0 < size ∧ c = {
      nodes := [Node.new [] none 0], freeNodes := [], blockSize := size, clock := 0,
      softPinKeepaliveTicks := none, blockIndex := ∅, namespaceTag := 0 } := by
  unfold RadixCache.new newWithSoftPinKeepalive at h
  split at h
  · rename_i hsize
    exact ⟨hsize, (Option.some.inj h).symm⟩
  · cases h

theorem new_child (h : RadixCache.new size = some c) (i : Nat) (t : Token) :
    c.child i t = none := by
  obtain ⟨-, rfl⟩ := new_eq h
  cases i with
  | zero => rfl
  | succ i => simp [RadixCache.child]

theorem new_block (h : RadixCache.new size = some c) (i : Nat) : c.block i = none := by
  obtain ⟨-, rfl⟩ := new_eq h
  cases i with
  | zero => rfl
  | succ i => simp [RadixCache.block]

theorem new_fprint (h : RadixCache.new size = some c) (i : Nat) : c.fprint i = none := by
  obtain ⟨-, rfl⟩ := new_eq h
  cases i with
  | zero => rfl
  | succ i => simp [RadixCache.fprint]

theorem new_freeNodes (h : RadixCache.new size = some c) : c.freeNodes = [] := by
  obtain ⟨-, rfl⟩ := new_eq h
  rfl

/-- A fresh cache is sound: no node has a child. -/
theorem new_sound (h : RadixCache.new size = some c) : c.Sound := by
  have hchild : ∀ {i j : Nat} {t : Token}, c.child i t ≠ some j := by
    intro i j t hj
    rw [new_child h] at hj
    cases hj
  have hfree : ∀ {f}, f ∉ c.freeNodes := by
    intro f hf
    rw [new_freeNodes h] at hf
    cases hf
  refine
    { nonempty := ?_, free_lt := fun hf => absurd hf hfree,
      free_ne_root := fun hf => absurd hf hfree,
      free_block := fun hf => absurd hf hfree, free_refs := fun hf => absurd hf hfree,
      free_childless := fun hf => absurd hf hfree, free_orphan := fun hf => absurd hf hfree,
      child_lt := fun hj => absurd hj hchild, blockSize_pos := ?_, tree := ?_,
      root_block := new_block h _, root_fprint := new_fprint h _,
      block_aligned := fun _ hb => absurd (new_block h _) hb,
      fprint_aligned := fun _ hb => absurd (new_fprint h _) hb,
      edge_within := fun _ hj => absurd hj hchild }
  · obtain ⟨-, rfl⟩ := new_eq h
    exact Nat.one_pos
  · obtain ⟨hsize, rfl⟩ := new_eq h
    exact hsize
  · exact ⟨fun hj => absurd hj hchild, fun hj => absurd hj hchild, fun _ _ hj => absurd hj hchild,
      fun _ => 0, fun _ _ _ hj => absurd hj hchild⟩

theorem unevicted_new {size : Nat} {c : RadixCache} (h : RadixCache.new size = some c) :
    Unevicted c := ⟨new_sound h, new_freeNodes h⟩

end New

/-! ## The refinement -/

theorem represents_start {size : Nat} {s : RadixCache × WindowMap Token BlockId}
    (h : MapStart size s) : Represents size s where
  sound := new_sound h.1
  free_nodup := by rw [new_freeNodes h.1]; exact List.nodup_nil
  blockSize := by
    obtain ⟨-, hc⟩ := new_eq h.1
    rw [hc]
  unbroken := by
    intro v j p hj _ hp
    cases hj with
    | root => exact absurd rfl hp
    | step _ hj => exact absurd ((new_child h.1 _ _).symm.trans hj) (by simp)
  holds := by
    intro p b
    rw [h.2]
    constructor
    · rintro ⟨i, _, hb⟩
      exact absurd ((new_block h.1 i).symm.trans hb) (by simp)
    · intro h
      cases h

/-- Writes that keep the shape keep the map. -/
theorem Represents.sameShape {size : Nat} {s t : RadixCache × WindowMap Token BlockId}
    (h : Represents size s) (hshape : SameShape s.1 t.1) (hsound : t.1.Sound)
    (hmap : t.2 = s.2) : Represents size t where
  sound := hsound
  free_nodup := hshape.free ▸ h.free_nodup
  blockSize := hshape.blockSize.trans h.blockSize
  unbroken := fun v => hshape.unbroken (h.unbroken v)
  holds := by
    intro p b
    rw [hshape.holds, hmap]
    exact h.holds p b

/-- Every step of the cache is a step of the map. -/
theorem represents_step (size : Nat) : Preserved MapStep (Represents size) := by
  intro s op t h hstep
  cases op with
  | insert tokens blocks fps =>
    obtain ⟨hlen, ⟨n, hn⟩, hmap⟩ := hstep
    obtain ⟨hsound, hnodup, hsize⟩ := insertWithFingerprints_sound h.sound h.free_nodup hn
    obtain ⟨c', hc', hholds⟩ := insert_unbroken h.sound h.free_nodup hlen
      (h.unbroken (s.1.insertedTokens tokens blocks)) h.holds
    obtain rfl : c' = t.1 := (Prod.mk.inj (Option.some.inj (hc'.symm.trans hn))).2
    exact ⟨hsound, hnodup, hsize.trans h.blockSize,
      insert_full h.sound h.free_nodup h.unbroken hn, fun p b => by rw [hmap]; exact hholds p b⟩
  | lookup tokens =>
    obtain ⟨⟨result, hresult⟩, hmap⟩ := hstep
    obtain ⟨js, hw⟩ := RadixTree.exists_walk h.sound.tree root tokens
    obtain ⟨c', hc', hpin⟩ := lookup_spec h.sound hw
    obtain rfl : c' = t.1 := (Prod.mk.inj (Option.some.inj (hc'.symm.trans hresult))).2
    exact h.sameShape hpin.toSameShape (hpin.sound h.sound) hmap
  | release blocks =>
    obtain ⟨hc', hmap⟩ := hstep
    exact h.sameShape (hc' ▸ release_sameShape s.1 blocks) (hc' ▸ release_sound h.sound blocks) hmap

theorem represents_reachable {size : Nat} {s : RadixCache × WindowMap Token BlockId}
    (h : Reachable (MapStart size) MapStep s) : Represents size s :=
  h.invariant (fun _ => represents_start) (represents_step size)

/-- In every run every insertion inserts all its windows, and every lookup returns the
longest prefix whose windows the map has, with their blocks. -/
theorem radix_refines_map {size : Nat} (hsize : 0 < size) :
    (∃ c, RadixCache.new size = some c) ∧
    ∀ {s}, Reachable (MapStart size) MapStep s →
      (∀ tokens blocks fps, blocks.length = fps.length → ∃ c',
        s.1.insertWithFingerprints tokens blocks fps =
          some (min blocks.length (tokens.length / size) * size, c')) ∧
      ∀ q, ∃ k blocks c', IsGreatest {k | Covered size s.2 q k} k ∧
        s.1.lookup q = some ((k * size, blocks), c') ∧ blocks.length = k ∧
        ∀ i < k, blocks[i]? = s.2 (q.take ((i + 1) * size)) := by
  refine ⟨⟨_, if_pos hsize⟩, fun {s} hs => ?_⟩
  have h := represents_reachable hs
  have hblockSize := h.blockSize
  subst hblockSize
  refine ⟨fun tokens blocks fps hlen => ?_, fun q => ?_⟩
  · obtain ⟨c', hc', -⟩ := insert_unbroken h.sound h.free_nodup hlen
      (h.unbroken (s.1.insertedTokens tokens blocks)) h.holds
    exact ⟨c', hc'⟩
  · exact lookup_unbroken h.sound (h.unbroken q) h.holds

/-- Two windows of a prompt of five tokens, inserted into a fresh cache. -/
theorem radix_refines_map_two : ∃ c c' : RadixCache, RadixCache.new 2 = some c ∧
    c.insertWithFingerprints [1, 2, 3, 4, 5] [⟨7⟩, ⟨8⟩] [⟨0⟩, ⟨1⟩] = some (4, c') := by
  have h := radix_refines_map (show 0 < 2 by decide)
  obtain ⟨c, hc⟩ := h.1
  obtain ⟨c', hc'⟩ :=
    (h.2 (s := (c, fun _ => none)) (Reachable.start ⟨hc, rfl⟩)).1 [1, 2, 3, 4, 5] [⟨7⟩, ⟨8⟩]
      [⟨0⟩, ⟨1⟩] rfl
  exact ⟨c, c', hc, hc'⟩

end Arle.PrefixCache.RadixCache
