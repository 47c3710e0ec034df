import Arle.Lib.Extents
import Arle.Lib.Run
import Arle.Lib.Word

/-!
# The host arena

The sub-allocator of `crates/kv-native-sys`: a bump pointer with a free list. A reserve is
first fit over the free list, then a bump; a release at the tail rewinds the bump pointer
over every free region that then ends at it, any other release goes to the free list.
`Partition` is the invariant: the live and the free regions tile the space below the bump
pointer.
-/

namespace Arle.KvTier

/-- A region of the arena. -/
abbrev KvHostArenaRegion := Extent

structure KvHostArena where
  capacityBytes : Nat
  nextOffset : Nat
  reservedBytes : Nat
  freeList : List KvHostArenaRegion
deriving DecidableEq, Repr

/-- The errors of the arena calls. -/
inductive ArenaError
  | reservedBytesOverflow
  | regionOverflows
  | outOfBoundsOrEmpty
  | reservedBytesUnderflow
deriving DecidableEq, Repr

/-- The text of an error. -/
def ArenaError.message : ArenaError → String
  | .reservedBytesOverflow => "host_arena_reserve: reserved_bytes overflow"
  | .regionOverflows => "host_arena_release: region offset/len overflows"
  | .outOfBoundsOrEmpty => "host_arena_release: region out of bounds or empty"
  | .reservedBytesUnderflow => "host_arena_release: reserved_bytes underflow"

/-- `region_end`. -/
def regionEnd (region : KvHostArenaRegion) : Option Nat :=
  Word.checkedAdd 64 region.offset region.len

namespace KvHostArena

/-- The arena of `host_arena_create`. -/
def create (capacityBytes : UInt64) : KvHostArena where
  capacityBytes := capacityBytes.toNat
  nextOffset := 0
  reservedBytes := 0
  freeList := []

/-- The first free region that `p` accepts, with its index. -/
def findFree (arena : KvHostArena) (p : KvHostArenaRegion → Bool) :
    Option (KvHostArenaRegion × Nat) := arena.freeList.zipIdx.find? fun free => p free.1

/-- The loop of `host_arena_rewind_tail`. Each round takes one region off the free list, so
the length of the list bounds the rounds. -/
def rewindLoop : Nat → KvHostArena → KvHostArena
  | 0, arena => arena
  | fuel + 1, arena =>
    match arena.findFree fun free => regionEnd free == some arena.nextOffset with
    | some (free, idx) => rewindLoop fuel { arena with
        freeList := swapRemove arena.freeList idx
        nextOffset := free.offset }
    | none => arena

/-- `host_arena_rewind_tail`. -/
def rewindTail (arena : KvHostArena) : KvHostArena := rewindLoop arena.freeList.length arena

/-- `host_arena_reserve`; `none` when the arena is exhausted, or when nothing is asked for. -/
def reserve (arena : KvHostArena) (len : Nat) :
    Except ArenaError (Option KvHostArenaRegion) × KvHostArena :=
  if len = 0 then (.ok none, arena)
  else
    match arena.findFree fun free => decide (len ≤ free.len) with
    | some (free, idx) =>
      let rest := swapRemove arena.freeList idx
      let arena := { arena with
        freeList :=
          if free.len > len then rest ++ [⟨Word.wrappingAdd 64 free.offset len, free.len - len⟩]
          else rest }
      match Word.checkedAdd 64 arena.reservedBytes len with
      | some reserved => (.ok (some ⟨free.offset, len⟩), { arena with reservedBytes := reserved })
      | none => (.error .reservedBytesOverflow, arena)
    | none =>
      match Word.checkedAdd 64 arena.nextOffset len with
      | none => (.ok none, arena)
      | some bumped =>
        if bumped > arena.capacityBytes then (.ok none, arena)
        else
          let region : KvHostArenaRegion := ⟨arena.nextOffset, len⟩
          let arena := { arena with nextOffset := bumped }
          match Word.checkedAdd 64 arena.reservedBytes len with
          | some reserved => (.ok (some region), { arena with reservedBytes := reserved })
          | none => (.error .reservedBytesOverflow, arena)

/-- `host_arena_release`. -/
def release (arena : KvHostArena) (region : KvHostArenaRegion) :
    Except ArenaError Unit × KvHostArena :=
  match regionEnd region with
  | none => (.error .regionOverflows, arena)
  | some finish =>
    if region.len = 0 ∨ finish > arena.capacityBytes then (.error .outOfBoundsOrEmpty, arena)
    else
      match Word.checkedSub arena.reservedBytes region.len with
      | none => (.error .reservedBytesUnderflow, arena)
      | some reserved =>
        let arena := { arena with reservedBytes := reserved }
        if finish = arena.nextOffset then
          (.ok (), rewindTail { arena with nextOffset := region.offset })
        else (.ok (), { arena with freeList := arena.freeList ++ [region] })

/-- `host_arena_reset`. -/
def reset (arena : KvHostArena) : KvHostArena :=
  { arena with nextOffset := 0, reservedBytes := 0, freeList := [] }

/-! ## The partition of the arena -/

/-- The live and the free regions tile the space below the bump pointer. -/
structure Tiled (arena : KvHostArena) (live : List KvHostArenaRegion) : Prop where
  tiles : Tiles (live ++ arena.freeList) arena.nextOffset
  fits : arena.nextOffset ≤ arena.capacityBytes
  addressable : arena.capacityBytes ≤ Word.maxVal 64
  reserved : arena.reservedBytes = Extent.total live

/-- The tiling between two calls: no free region ends at the bump pointer. -/
structure Partition (arena : KvHostArena) (live : List KvHostArenaRegion) : Prop
    extends arena.Tiled live where
  settled : ∀ free ∈ arena.freeList, free.finish ≠ arena.nextOffset

theorem partition_create (capacityBytes : UInt64) : (create capacityBytes).Partition [] where
  tiles := Tiles.nil
  fits := Nat.zero_le _
  addressable := by
    have := capacityBytes.toNat_lt
    simp only [create, Word.maxVal]
    omega
  reserved := rfl
  settled _ h := by cases h

section Spec

variable {arena : KvHostArena} {live : List KvHostArenaRegion} {region free : KvHostArenaRegion}
  {len idx : Nat} {p : KvHostArenaRegion → Bool}

theorem findFree_some (h : arena.findFree p = some (free, idx)) :
    p free = true ∧ arena.freeList.Perm (free :: swapRemove arena.freeList idx) := by
  refine ⟨List.find?_some (p := fun f : KvHostArenaRegion × Nat => p f.1) h, swapRemove_perm ?_⟩
  simpa using List.mem_zipIdx_iff_getElem?.mp (List.mem_of_find?_eq_some h)

theorem findFree_none (h : arena.findFree p = none) : ∀ f ∈ arena.freeList, p f = false := by
  intro f hf
  obtain ⟨i, hi⟩ := List.mem_iff_getElem?.mp hf
  have hmem : (f, i) ∈ arena.freeList.zipIdx := List.mem_zipIdx_iff_getElem?.mpr (by simpa using hi)
  simpa using List.find?_eq_none.mp h (f, i) hmem

theorem regionEnd_eq (h : region.finish ≤ Word.maxVal 64) :
    regionEnd region = some region.finish :=
  Word.checkedAdd_eq_some.mpr ⟨h, rfl⟩

namespace Tiled

theorem finish_le (h : arena.Tiled live) (hr : region ∈ live ++ arena.freeList) :
    region.finish ≤ arena.capacityBytes := (h.tiles.within region hr).trans h.fits

theorem regionEnd_eq (h : arena.Tiled live) (hr : region ∈ live ++ arena.freeList) :
    regionEnd region = some region.finish :=
  KvHostArena.regionEnd_eq ((h.finish_le hr).trans h.addressable)

theorem reserved_le (h : arena.Tiled live) : arena.reservedBytes ≤ arena.nextOffset :=
  h.reserved.trans_le h.tiles.total_le

/-- The tiles, with one free region in front. -/
theorem tiles_free (h : arena.Tiled live)
    (hp : arena.freeList.Perm (free :: swapRemove arena.freeList idx)) :
    Tiles (free :: (live ++ swapRemove arena.freeList idx)) arena.nextOffset :=
  h.tiles.perm ((hp.append_left live).trans List.perm_middle)

theorem perm (h : arena.Tiled live) {live' : List KvHostArenaRegion} (hp : live.Perm live') :
    arena.Tiled live' where
  tiles := h.tiles.perm (hp.append_right _)
  fits := h.fits
  addressable := h.addressable
  reserved := h.reserved.trans (Extent.total_perm hp)

theorem apart (h : arena.Tiled (region :: live)) : ∀ r ∈ live, region.Apart r := by
  intro r hr
  exact (List.pairwise_cons.mp h.tiles.apart).1 r (List.mem_append_left _ hr)

end Tiled

theorem Partition.perm (h : arena.Partition live) {live' : List KvHostArenaRegion}
    (hp : live.Perm live') : arena.Partition live' := ⟨h.toTiled.perm hp, h.settled⟩

/-! ## The calls -/

/-- The rewind keeps the tiling and leaves no free region at the bump pointer. -/
theorem rewindLoop_spec {fuel : Nat} (h : arena.Tiled live)
    (hfuel : arena.freeList.length ≤ fuel) :
    (rewindLoop fuel arena).Partition live ∧
      (rewindLoop fuel arena).capacityBytes = arena.capacityBytes := by
  induction fuel generalizing arena with
  | zero =>
    have hempty : arena.freeList = [] := List.length_eq_zero_iff.mp (Nat.le_zero.mp hfuel)
    refine ⟨⟨h, fun free hfree => ?_⟩, rfl⟩
    rw [show (rewindLoop 0 arena).freeList = [] from hempty] at hfree
    cases hfree
  | succ fuel ih =>
    rw [rewindLoop]
    cases hfind : arena.findFree fun free => regionEnd free == some arena.nextOffset with
    | none =>
      refine ⟨⟨h, fun free hfree hend => ?_⟩, rfl⟩
      have hne := findFree_none hfind free hfree
      rw [h.regionEnd_eq (List.mem_append_right _ hfree), hend] at hne
      simp at hne
    | some found =>
      obtain ⟨free, idx⟩ := found
      obtain ⟨hend, hperm⟩ := findFree_some hfind
      have htiles := h.tiles_free hperm
      have hfree : free ∈ live ++ arena.freeList :=
        List.mem_append_right _ (hperm.mem_iff.mpr List.mem_cons_self)
      have hfinish : free.finish = arena.nextOffset := by
        rw [h.regionEnd_eq hfree] at hend
        simpa using hend
      have hoffset : free.offset ≤ arena.nextOffset := by
        rw [← hfinish]
        exact Nat.le_add_right _ _
      have hlen := hperm.length_eq
      rw [List.length_cons] at hlen
      exact ih
        ⟨htiles.pop hfinish, hoffset.trans h.fits, h.addressable, h.reserved⟩
        (by dsimp only; omega)

theorem rewindTail_spec (h : arena.Tiled live) : arena.rewindTail.Partition live ∧
    arena.rewindTail.capacityBytes = arena.capacityBytes := rewindLoop_spec h le_rfl

/-- A reserve never fails: it changes nothing, or it adds one live region of the length. -/
theorem reserve_spec (h : arena.Partition live) (len : Nat) :
    ∃ result arena', arena.reserve len = (.ok result, arena') ∧
      arena'.capacityBytes = arena.capacityBytes ∧
      match result with
      | none => arena' = arena
      | some region => region.len = len ∧ arena'.Partition (region :: live) := by
  rcases Nat.eq_zero_or_pos len with hlen | hlen
  · exact ⟨none, arena, by simp [reserve, hlen], rfl, rfl⟩
  rw [reserve, if_neg hlen.ne']
  cases hfind : arena.findFree fun free => decide (len ≤ free.len) with
  | some found =>
    obtain ⟨free, idx⟩ := found
    obtain ⟨hfits, hperm⟩ := findFree_some hfind
    replace hfits : len ≤ free.len := by simpa using hfits
    have htiles := h.tiles_free hperm
    have hfree : free ∈ arena.freeList := hperm.mem_iff.mpr List.mem_cons_self
    have hfinish := h.finish_le (List.mem_append_right live hfree)
    have haddr := h.addressable
    have htotal := htiles.total_eq
    rw [Extent.total_cons, Extent.total_append, ← h.reserved] at htotal
    have hreserved : Word.checkedAdd 64 arena.reservedBytes len =
        some (arena.reservedBytes + len) := by
      have := h.fits
      exact Word.checkedAdd_eq_some.mpr ⟨by omega, rfl⟩
    have hsettled : ∀ f ∈ swapRemove arena.freeList idx, f.finish ≠ arena.nextOffset :=
      fun f hf => h.settled f (hperm.mem_iff.mpr (List.mem_cons_of_mem _ hf))
    simp only [hreserved]
    refine ⟨_, _, rfl, rfl, rfl, ?_⟩
    rcases Nat.lt_or_ge len free.len with hlt | hge
    · -- the region is the front part of the free region, the rest stays free
      have hwrap : Word.wrappingAdd 64 free.offset len = free.offset + len := by
        refine Word.wrappingAdd_of_lt ?_
        simp only [Extent.finish, Word.maxVal] at hfinish haddr
        omega
      rw [if_pos hlt, hwrap]
      have hcut := htiles.split (a := ⟨free.offset, len⟩)
        (b := ⟨free.offset + len, free.len - len⟩) rfl rfl (by dsimp only; omega) hlen
        (by dsimp only; omega)
      refine ⟨⟨hcut.perm (List.Perm.cons _ ?_), h.fits, haddr, ?_⟩, ?_⟩
      · change List.Perm _ (live ++ (_ ++ [_]))
        rw [← List.append_assoc]
        exact (List.perm_append_singleton _ _).symm
      · dsimp only
        rw [Extent.total_cons, h.reserved]
        dsimp only
        omega
      · intro f hf
        rcases List.mem_append.mp hf with hf | hf
        · exact hsettled f hf
        · obtain rfl := List.mem_singleton.mp hf
          have := h.settled free hfree
          simp only [Extent.finish] at this ⊢
          omega
    · -- the whole free region
      have hlen' : len = free.len := Nat.le_antisymm hfits hge
      subst hlen'
      rw [if_neg (Nat.lt_irrefl _)]
      refine ⟨⟨htiles, h.fits, haddr, ?_⟩, hsettled⟩
      dsimp only
      rw [Extent.total_cons, h.reserved, Nat.add_comm]
  | none =>
    simp only
    cases hbump : Word.checkedAdd 64 arena.nextOffset len with
    | none => exact ⟨none, arena, rfl, rfl, rfl⟩
    | some bumped =>
      obtain ⟨-, rfl⟩ := Word.checkedAdd_eq_some.mp hbump
      simp only
      split
      · exact ⟨none, arena, rfl, rfl, rfl⟩
      · rename_i hcap
        have hreserved : Word.checkedAdd 64 arena.reservedBytes len =
            some (arena.reservedBytes + len) := by
          have := h.reserved_le
          have := h.addressable
          exact Word.checkedAdd_eq_some.mpr ⟨by omega, rfl⟩
        rw [hreserved]
        refine ⟨_, _, rfl, rfl, rfl, ⟨⟨?_, by dsimp only; omega, h.addressable, ?_⟩, ?_⟩⟩
        · exact h.tiles.push (e := ⟨arena.nextOffset, len⟩) rfl hlen
        · dsimp only
          rw [Extent.total_cons, h.reserved, Nat.add_comm]
        · intro f hf
          have := h.tiles.within f (List.mem_append_right _ hf)
          dsimp only
          omega

/-- A release of a live region succeeds. -/
theorem release_spec (h : arena.Partition (region :: live)) :
    ∃ arena', arena.release region = (.ok (), arena') ∧
      arena'.capacityBytes = arena.capacityBytes ∧ arena'.Partition live := by
  have hmem : region ∈ (region :: live) ++ arena.freeList := List.mem_cons_self
  have hfinish := h.finish_le hmem
  have h0 := h.tiles.nonempty region hmem
  have hreserved := h.reserved
  rw [Extent.total_cons] at hreserved
  have hsub : Word.checkedSub arena.reservedBytes region.len =
      some (arena.reservedBytes - region.len) :=
    Word.checkedSub_eq_some.mpr ⟨by omega, rfl⟩
  have hguard : ¬ (region.len = 0 ∨ region.finish > arena.capacityBytes) := by omega
  have hrest : arena.reservedBytes - region.len = Extent.total live := by omega
  rw [release, h.regionEnd_eq hmem]
  simp only [if_neg hguard, hsub]
  split
  · rename_i htail
    have htiled : ({ arena with
        reservedBytes := arena.reservedBytes - region.len
        nextOffset := region.offset } : KvHostArena).Tiled live := by
      refine ⟨Tiles.pop h.tiles htail, ?_, h.addressable, hrest⟩
      have : region.offset ≤ region.finish := Nat.le_add_right _ _
      exact this.trans hfinish
    obtain ⟨hpart, hcap⟩ := rewindTail_spec htiled
    exact ⟨_, rfl, hcap, hpart⟩
  · rename_i htail
    refine ⟨_, rfl, rfl, ⟨h.tiles.perm ?_, h.fits, h.addressable, hrest⟩, ?_⟩
    · dsimp only
      rw [← List.append_assoc]
      exact (List.perm_append_singleton _ _).symm
    · intro f hf
      rcases List.mem_append.mp hf with hf | hf
      · exact h.settled f hf
      · obtain rfl := List.mem_singleton.mp hf
        exact htail

theorem reset_spec (h : arena.Partition live) : arena.reset.Partition [] where
  tiles := Tiles.nil
  fits := Nat.zero_le _
  addressable := h.addressable
  reserved := rfl
  settled _ hf := by cases hf

/-- Once nothing is live the whole space is free again: no free region is left either, since
it would have to end at the bump pointer. -/
theorem Partition.empty (h : arena.Partition []) :
    arena.nextOffset = 0 ∧ arena.freeList = [] := by
  have htiles : Tiles arena.freeList arena.nextOffset := h.tiles
  have hnext : arena.nextOffset = 0 := by
    by_contra hne
    obtain ⟨free, hfree, -, hlast⟩ := htiles.covers (arena.nextOffset - 1) (by omega)
    have hwithin := htiles.within free hfree
    have hsettled := h.settled free hfree
    omega
  refine ⟨hnext, List.eq_nil_iff_forall_not_mem.mpr fun free hfree => ?_⟩
  have hwithin := htiles.within free hfree
  have h0 := htiles.nonempty free hfree
  simp only [Extent.finish] at hwithin
  omega

/-- An empty arena has room for its capacity. -/
theorem Partition.reserve_capacity (h : arena.Partition []) (h0 : 0 < arena.capacityBytes) :
    ∃ arena', arena.reserve arena.capacityBytes =
      (.ok (some ⟨0, arena.capacityBytes⟩), arena') := by
  obtain ⟨hnext, hfree⟩ := h.empty
  have hreserved : arena.reservedBytes = 0 := h.reserved
  have hfind : (arena.findFree fun free => decide (arena.capacityBytes ≤ free.len)) = none := by
    simp [findFree, hfree]
  have hadd : Word.checkedAdd 64 0 arena.capacityBytes = some arena.capacityBytes :=
    Word.checkedAdd_eq_some.mpr ⟨by simpa using h.addressable, (Nat.zero_add _).symm⟩
  rw [reserve, if_neg h0.ne', hfind]
  simp only [hnext, hreserved, hadd, if_neg (Nat.lt_irrefl arena.capacityBytes)]
  exact ⟨_, rfl⟩

end Spec

/-! ## Runs -/

/-- An arena with the regions that are live in it. -/
structure Usage where
  arena : KvHostArena
  live : List KvHostArenaRegion

/-- The calls on an arena. -/
inductive ArenaOp
  | reserve (len : Nat)
  | release (region : KvHostArenaRegion)
  | reset

/-- A call; only live regions are released. -/
def ArenaStep (s : Usage) (op : ArenaOp) (s' : Usage) : Prop :=
  match op with
  | .reserve len => s' = match s.arena.reserve len with
    | (.ok (some region), arena) => ⟨arena, region :: s.live⟩
    | (_, arena) => ⟨arena, s.live⟩
  | .release region => region ∈ s.live ∧ s' = match s.arena.release region with
    | (.ok (), arena) => ⟨arena, s.live.erase region⟩
    | (.error _, arena) => ⟨arena, s.live⟩
  | .reset => s' = ⟨s.arena.reset, []⟩

/-- A new arena; `host_arena_create` refuses the capacity zero. -/
def Created (capacityBytes : UInt64) (s : Usage) : Prop :=
  capacityBytes ≠ 0 ∧ s = ⟨create capacityBytes, []⟩

/-- What every call keeps. -/
structure Kept (capacityBytes : UInt64) (s : Usage) : Prop where
  capacity : s.arena.capacityBytes = capacityBytes.toNat
  partition : s.arena.Partition s.live

theorem kept_step (capacityBytes : UInt64) : Preserved ArenaStep (Kept capacityBytes) := by
  intro s op s' h hstep
  cases op with
  | reserve len =>
    obtain rfl : s' = _ := hstep
    obtain ⟨result, arena, hreserve, hcapacity, hspec⟩ := reserve_spec h.partition len
    rw [hreserve]
    cases result with
    | none =>
      obtain rfl : arena = s.arena := hspec
      exact h
    | some region => exact ⟨hcapacity.trans h.capacity, hspec.2⟩
  | release region =>
    obtain ⟨hlive, rfl⟩ := hstep
    obtain ⟨arena, hrelease, hcapacity, hpartition⟩ :=
      release_spec (h.partition.perm (List.perm_cons_erase hlive))
    rw [hrelease]
    exact ⟨hcapacity.trans h.capacity, hpartition⟩
  | reset =>
    obtain rfl : s' = _ := hstep
    exact ⟨h.capacity, reset_spec h.partition⟩

/-- In every run the live and the free regions partition the arena, and when all regions are
released it is empty again and has room for its capacity. -/
theorem arena_recovers {capacityBytes : UInt64} {s : Usage}
    (h : Reachable (Created capacityBytes) ArenaStep s) :
    s.arena.capacityBytes = capacityBytes.toNat ∧ s.arena.Partition s.live ∧
      (s.live = [] → s.arena.nextOffset = 0 ∧ s.arena.freeList = [] ∧
        ∃ arena', s.arena.reserve capacityBytes.toNat =
          (.ok (some ⟨0, capacityBytes.toNat⟩), arena')) := by
  have hcreated : capacityBytes ≠ 0 := by
    obtain ⟨-, -, ⟨hcreated, -⟩, -⟩ := h
    exact hcreated
  have hkept : Kept capacityBytes s := by
    refine h.invariant ?_ (kept_step capacityBytes)
    rintro s ⟨-, rfl⟩
    exact ⟨rfl, partition_create capacityBytes⟩
  refine ⟨hkept.capacity, hkept.partition, fun hlive => ?_⟩
  have hpartition := hkept.partition
  rw [hlive] at hpartition
  have h0 : 0 < capacityBytes.toNat := by
    refine Nat.pos_of_ne_zero fun h0 => hcreated ?_
    exact UInt64.toNat_inj.mp h0
  have hreserve := hpartition.reserve_capacity (hkept.capacity.symm ▸ h0)
  rw [hkept.capacity] at hreserve
  exact ⟨hpartition.empty.1, hpartition.empty.2, hreserve⟩

/-- Two regions, released in the order in which they were reserved. -/
theorem arena_recovers_two : ∃ s : Usage, Reachable (Created 4) ArenaStep s ∧ s.live = [] ∧
    s.arena.nextOffset = 0 ∧ ∃ arena', s.arena.reserve 4 = (.ok (some ⟨0, 4⟩), arena') := by
  have h₁ : Reachable (Created 4) ArenaStep _ :=
    Reachable.next (Reachable.start ⟨by decide, rfl⟩) (a := .reserve 2) rfl
  have h₂ : Reachable (Created 4) ArenaStep _ := Reachable.next h₁ (a := .reserve 2) rfl
  have h₃ : Reachable (Created 4) ArenaStep _ :=
    Reachable.next h₂ (a := .release ⟨0, 2⟩) ⟨by decide +kernel, rfl⟩
  have h₄ : Reachable (Created 4) ArenaStep _ :=
    Reachable.next h₃ (a := .release ⟨2, 2⟩) ⟨by decide +kernel, rfl⟩
  obtain ⟨-, -, hempty⟩ := arena_recovers h₄
  obtain ⟨hnext, -, hreserve⟩ := hempty (by decide +kernel)
  exact ⟨_, h₄, by decide +kernel, hnext, hreserve⟩

end KvHostArena

end Arle.KvTier
