import Arle.PrefixCache.EvictSpec
import Arle.PrefixCache.Refinement

/-!
# The free stack of the radix cache

The law of the free stack: no slot is on it twice, and no slot on it is part of the tree.
`gc_orphan_tombstones` finds the slots to reclaim by their content alone, and a slot that
was reclaimed before still looks reclaimable. So an eviction that starts with a slot on the
free stack puts it there a second time, and this is the only way the law breaks
(`free_list_law_iff`).
-/

namespace Arle.PrefixCache.RadixCache

open KvTier Scheduler

/-- The operations of a cache. -/
inductive TreeOp
  | insert (tokens : List Token) (blocks : List BlockId) (fps : List BlockFingerprint)
  | lookup (tokens : List Token)
  | lookupOrStage (tokens : List Token) (heuristics : LookupHeuristics)
  | release (blocks : List BlockId)
  | evict (n : Nat)
  | evictWithPolicy (req : EvictRequest) (n : Nat)

/-- An operation that returns takes the cache `c` to the cache `c'`. -/
def TreeStep (c : RadixCache) (op : TreeOp) (c' : RadixCache) : Prop :=
  match op with
  | .insert tokens blocks fps => ∃ n, c.insertWithFingerprints tokens blocks fps = some (n, c')
  | .lookup tokens => ∃ result, c.lookup tokens = some (result, c')
  | .lookupOrStage tokens heuristics =>
    ∃ outcome, c.lookupOrStage tokens heuristics = some (outcome, c')
  | .release blocks => c' = c.release blocks
  | .evict n => c' = (c.evict n).2
  | .evictWithPolicy req n => c' = (c.evictWithPolicyForIntentExcluding req n).2

/-- The law of the free stack, and what it means for the next allocation. -/
structure FreeListLaw (c : RadixCache) : Prop where
  nodup : c.freeNodes.Nodup
  unreachable : ∀ f ∈ c.freeNodes, ∀ p, ¬ c.trie.Reaches f p
  alloc : ∀ node idx c', c.allocNode node = some (idx, c') →
    (∀ p, ¬ c.trie.Reaches idx p) ∧ idx ∉ c'.freeNodes

/-- An eviction that may collect starts with an empty free stack. -/
def CollectsOnEmpty (c : RadixCache) (op : TreeOp) : Prop :=
  match op with
  | .evict n => n = 0 ∨ c.freeNodes = []
  | .evictWithPolicy _ n => n = 0 ∨ c.freeNodes = []
  | _ => True

theorem freeListLaw_of_sound {c : RadixCache} (hs : c.Sound) (hnodup : c.freeNodes.Nodup) :
    FreeListLaw c where
  nodup := hnodup
  unreachable := fun f hf p hp => hs.toSlots.reached_not_free hp hf
  alloc := by
    intro node idx c' h
    have halloc := allocNode_spec h
    refine ⟨fun p => (hs.toSlots.blank halloc.free_or_length).not_reached, fun hidx => ?_⟩
    exact ((halloc.mem_free hs.free_lt hnodup).mp hidx).2 rfl

/-- What the steps that meet the condition keep. -/
def Lawful (c : RadixCache) : Prop := c.Sound ∧ c.freeNodes.Nodup

/-- An eviction keeps the law if and only if it does nothing or starts with an empty stack. -/
theorem evictBy_nodup_iff {c : RadixCache} {victim : RadixCache → List Nat → Option Nat}
    {n : Nat} (h : Lawful c) :
    (c.evictBy victim n).2.freeNodes.Nodup ↔ n = 0 ∨ c.freeNodes = [] := by
  by_cases hn : n = 0
  · simp [hn, evictBy_zero, h.2]
  · rw [evictBy_freeNodes hn]
    constructor
    · intro hnodup
      refine Or.inr (List.eq_nil_iff_forall_not_mem.mpr fun f hf => ?_)
      -- a free slot is blank, so it is reclaimed once more
      have hshrunk : Shrunk c ((c.taken victim n).1.detach (c.taken victim n).2.1) :=
        taken_shrunk.1.trans detach_shrunk
      have hmem : f ∈ ((c.taken victim n).1.detach (c.taken victim n).2.1).gcReclaimable := by
        refine mem_gcReclaimable_of_blank (h.1.free_ne_root hf) ?_ ?_ ?_ ?_
        · exact hshrunk.length ▸ h.1.free_lt hf
        · exact hshrunk.block_none (h.1.free_block hf)
        · rw [hshrunk.refs]
          exact h.1.free_refs hf
        · exact fun t => hshrunk.child_none (h.1.free_childless hf t)
      exact (List.nodup_append.mp hnodup).2.2 f hf f hmem rfl
    · rintro (h0 | hnil)
      · exact absurd h0 hn
      · rw [hnil, List.nil_append]
        exact gcReclaimable_nodup _

/-- After every step from a lawful cache, the tree is sound, and the stack has no duplicate
exactly when the step meets the condition. -/
theorem treeStep_lawful {c c' : RadixCache} {op : TreeOp} (h : Lawful c)
    (hstep : TreeStep c op c') :
    c'.Sound ∧ (c'.freeNodes.Nodup ↔ CollectsOnEmpty c op) := by
  cases op with
  | insert tokens blocks fps =>
    obtain ⟨n, hn⟩ := hstep
    obtain ⟨hs, hnodup, -⟩ := insertWithFingerprints_sound h.1 h.2 hn
    exact ⟨hs, fun _ => trivial, fun _ => hnodup⟩
  | lookup tokens =>
    obtain ⟨result, hresult⟩ := hstep
    obtain ⟨js, hw⟩ := RadixTree.exists_walk h.1.tree root tokens
    obtain ⟨c₁, hc₁, hpin⟩ := lookup_spec h.1 hw
    obtain rfl : c₁ = c' := (Prod.mk.inj (Option.some.inj (hc₁.symm.trans hresult))).2
    exact ⟨hpin.sound h.1, fun _ => trivial, fun _ => hpin.free ▸ h.2⟩
  | lookupOrStage tokens heuristics =>
    obtain ⟨outcome, houtcome⟩ := hstep
    obtain ⟨js, hw⟩ := RadixTree.exists_walk h.1.tree root tokens
    obtain ⟨js', outcome', c₁, -, hc₁, -, hpin⟩ := lookupOrStage_spec h.1 heuristics hw
    obtain rfl : c₁ = c' := (Prod.mk.inj (Option.some.inj (hc₁.symm.trans houtcome))).2
    exact ⟨hpin.sound h.1, fun _ => trivial, fun _ => hpin.free ▸ h.2⟩
  | release blocks =>
    obtain rfl : c' = c.release blocks := hstep
    exact ⟨release_sound h.1 blocks, fun _ => trivial, fun _ => h.2⟩
  | evict n =>
    obtain rfl : c' = (c.evict n).2 := hstep
    exact ⟨evictBy_sound h.1, evictBy_nodup_iff h⟩
  | evictWithPolicy req n =>
    obtain rfl : c' = (c.evictWithPolicyForIntentExcluding req n).2 := hstep
    exact ⟨evictBy_sound h.1, evictBy_nodup_iff h⟩

/-- The runs whose evictions start with an empty free stack. -/
def CleanRun (size : Nat) : RadixCache → Prop :=
  Reachable (fun c => RadixCache.new size = some c) (guarded CollectsOnEmpty TreeStep)

theorem new_lawful {size : Nat} {c : RadixCache} (h : RadixCache.new size = some c) :
    Lawful c := by
  refine ⟨new_sound h, ?_⟩
  rw [new_freeNodes h]
  exact List.nodup_nil

theorem cleanRun_lawful {size : Nat} {c : RadixCache} (h : CleanRun size c) : Lawful c := by
  refine h.invariant (fun c hc => new_lawful hc) fun c op c' hc hstep => ?_
  obtain ⟨hs, hiff⟩ := treeStep_lawful hc hstep.2
  exact ⟨hs, hiff.mpr hstep.1⟩

/-- In every run whose evictions start with an empty free stack the law holds in every state,
and the next step keeps it if and only if it meets the condition too. -/
theorem free_list_law_iff {size : Nat} {c : RadixCache} (h : CleanRun size c) :
    FreeListLaw c ∧ ∀ op c', TreeStep c op c' → (FreeListLaw c' ↔ CollectsOnEmpty c op) := by
  have hlaw := cleanRun_lawful h
  refine ⟨freeListLaw_of_sound hlaw.1 hlaw.2, fun op c' hstep => ?_⟩
  obtain ⟨hs, hiff⟩ := treeStep_lawful hlaw hstep
  exact ⟨fun hc' => hiff.mp hc'.nodup, fun hop => freeListLaw_of_sound hs (hiff.mpr hop)⟩

/-- Two cached blocks, evicted one at a time: the first eviction is clean and keeps the law,
the second one is not and breaks it. -/
theorem free_list_law_iff_two_evictions : ∃ c : RadixCache, CleanRun 1 c ∧ FreeListLaw c ∧
    ¬ FreeListLaw (c.evict 1).2 := by
  obtain ⟨c₀, hc₀⟩ : ∃ c, RadixCache.new 1 = some c := ⟨_, rfl⟩
  obtain ⟨c₁, hc₁, c₂, hc₂, hfree⟩ : ∃ c₁,
      c₀.insertWithFingerprints [1] [⟨7⟩] [⟨0⟩] = some (1, c₁) ∧
      ∃ c₂, c₁.insertWithFingerprints [2] [⟨8⟩] [⟨1⟩] = some (1, c₂) ∧
      (c₂.evict 1).2.freeNodes = [1] := by
    cases hc₀
    refine ⟨_, rfl, _, rfl, by decide +kernel⟩
  have hrun : CleanRun 1 (c₂.evict 1).2 := by
    refine Reachable.next (Reachable.next (Reachable.next (Reachable.start hc₀)
      (a := .insert [1] [⟨7⟩] [⟨0⟩]) ⟨trivial, 1, hc₁⟩) (a := .insert [2] [⟨8⟩] [⟨1⟩])
      ⟨trivial, 1, hc₂⟩) (a := .evict 1) ⟨Or.inr ?_, rfl⟩
    cases hc₀
    cases hc₁
    cases hc₂
    rfl
  obtain ⟨hlaw, hnext⟩ := free_list_law_iff hrun
  refine ⟨_, hrun, hlaw, fun h => ?_⟩
  rcases (hnext (.evict 1) _ rfl).mp h with h | h
  · cases h
  · rw [hfree] at h
    cases h

/-- The law fails in a run: the second of two evictions puts a free slot on the stack again. -/
theorem free_list_law_fails : ∃ c : RadixCache,
    Reachable (fun c => RadixCache.new 1 = some c) TreeStep c ∧ c.freeNodes = [1, 1, 2] ∧
      ¬ FreeListLaw c := by
  obtain ⟨c₀, hc₀⟩ : ∃ c, RadixCache.new 1 = some c := ⟨_, rfl⟩
  obtain ⟨c₁, hc₁, c₂, hc₂, hfree⟩ : ∃ c₁,
      c₀.insertWithFingerprints [1] [⟨7⟩] [⟨0⟩] = some (1, c₁) ∧
      ∃ c₂, c₁.insertWithFingerprints [2] [⟨8⟩] [⟨1⟩] = some (1, c₂) ∧
      ((c₂.evict 1).2.evict 1).2.freeNodes = [1, 1, 2] := by
    cases hc₀
    refine ⟨_, rfl, _, rfl, by decide +kernel⟩
  refine ⟨((c₂.evict 1).2.evict 1).2, ?_, hfree, fun h => ?_⟩
  · exact Reachable.next (Reachable.next (Reachable.next (Reachable.next (Reachable.start hc₀)
      (a := .insert [1] [⟨7⟩] [⟨0⟩]) ⟨1, hc₁⟩) (a := .insert [2] [⟨8⟩] [⟨1⟩]) ⟨1, hc₂⟩)
      (a := .evict 1) rfl) (a := .evict 1) rfl
  · have := h.nodup
    rw [hfree] at this
    revert this
    decide

end Arle.PrefixCache.RadixCache
