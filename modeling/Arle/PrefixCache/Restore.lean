import Arle.PrefixCache.Refinement
import Arle.PrefixCache.Snapshot

/-!
# Restored caches

A cache that was saved, loaded and reconciled against the blocks of a new pool is still a
sound tree, but it may have tombstones: nodes on a block boundary without a block. Two
promises about such a cache hold exactly where no tombstone is in the way. A lookup returns
its blocks in window order if and only if no tombstone lies above a surviving block of the
walk (`restored_contiguous_iff`), and an insertion repopulates a path if and only if no tombstone
lies on the part it descends (`restored_repopulated_iff`).
-/

namespace Arle.PrefixCache

open KvTier WindowMap

/-- The codec that knows one snapshot. -/
def SnapshotCodec.single (snap : RadixCacheSnapshot) (text : String) : SnapshotCodec where
  toText s := if s = snap then .ok text else .error ""
  fromText t := if t = text then .ok snap else .error ""

theorem SnapshotCodec.single_toText (snap : RadixCacheSnapshot) (text : String) :
    (SnapshotCodec.single snap text).toText snap = .ok text := if_pos rfl

theorem SnapshotCodec.single_fromText (snap : RadixCacheSnapshot) (text : String) :
    (SnapshotCodec.single snap text).fromText text = .ok snap := if_pos rfl

theorem SnapshotCodec.single_roundTrips (snap : RadixCacheSnapshot) (text : String) :
    (SnapshotCodec.single snap text).RoundTrips := by
  intro s t h
  simp only [SnapshotCodec.single] at h ⊢
  split at h
  · rename_i hs
    rw [if_pos (Except.ok.inj h).symm, hs]
  · cases h

namespace RadixCache

/-! ## Loading and reconciling -/

theorem loadSnapshot_sameTree {codec : SnapshotCodec} (hcodec : codec.RoundTrips)
    {c c' : RadixCache} {text : String} {expected : BitVec 256}
    (hsave : c.saveSnapshot codec = .ok text)
    (hload : loadSnapshot codec text expected = .ok c') :
    SameTree c c' ∧ ∀ i, c'.refs i = 0 := by
  have hread := hcodec _ _ hsave
  simp only [loadSnapshot, hread] at hload
  split at hload
  · cases hload
  · cases hload
    refine ⟨.of_nodes (fun i => ?_) rfl rfl, fun i => ?_⟩
    · simp only [toSnapshot, List.getElem?_map, Option.map_map]
      rfl
    · simp only [toSnapshot, refs, List.getElem?_map, Option.map_map]
      cases c.nodes[i]? <;> rfl

/-- The cache `c'` is `c` with the blocks that `known` gives to the fingerprints. -/
structure Reconciled (known : BlockFingerprint → Option BlockId) (c c' : RadixCache) : Prop where
  length : c'.nodes.length = c.nodes.length
  free : c'.freeNodes = c.freeNodes
  blockSize : c'.blockSize = c.blockSize
  child : c'.child = c.child
  edge : c'.edge = c.edge
  block : ∀ i, c'.block i = (c.fprint i).bind known
  fprint : c'.fprint = c.fprint

theorem reconcile_spec (c : RadixCache) (known : BlockFingerprint → Option BlockId) :
    Reconciled known c (c.reconcile known).2 := by
  have hget : ∀ i : Nat, (c.reconcile known).2.nodes[i]? =
      (c.nodes[i]?).map fun node => { node with blockId := reconciledBlock known node } := by
    intro i
    simp [reconcile, rebuildBlockIndex]
  refine ⟨by simp [reconcile, rebuildBlockIndex], rfl, rfl, ?_, ?_, ?_, ?_⟩
  · funext i t
    simp only [RadixCache.child, hget]
    cases c.nodes[i]? <;> rfl
  · funext i
    simp only [RadixCache.edge, hget]
    cases c.nodes[i]? <;> rfl
  · intro i
    simp only [RadixCache.block, RadixCache.fprint, hget]
    cases c.nodes[i]? <;> rfl
  · funext i
    simp only [RadixCache.fprint, hget]
    cases c.nodes[i]? <;> rfl

theorem Reconciled.sound {known : BlockFingerprint → Option BlockId} {c c' : RadixCache}
    (h : Reconciled known c c') (hs : c.Sound) (hfree : c.freeNodes = []) : c'.Sound := by
  have hfree' : ∀ {f}, f ∉ c'.freeNodes := by
    intro f hf
    rw [h.free, hfree] at hf
    cases hf
  have htrie : c'.trie = c.trie := by simp only [RadixCache.trie, h.child, h.edge]
  have hfp : ∀ {i}, c'.block i ≠ none → c.fprint i ≠ none := by
    intro i hb hnone
    rw [h.block, hnone] at hb
    exact hb rfl
  exact
    { nonempty := h.length ▸ hs.nonempty
      free_lt := fun hf => absurd hf hfree'
      free_ne_root := fun hf => absurd hf hfree'
      free_block := fun hf => absurd hf hfree'
      free_refs := fun hf => absurd hf hfree'
      free_childless := fun hf => absurd hf hfree'
      free_orphan := fun hf => absurd hf hfree'
      child_lt := by rw [h.child, h.length]; exact hs.child_lt
      blockSize_pos := h.blockSize ▸ hs.blockSize_pos
      tree := htrie ▸ hs.tree
      root_block := by rw [h.block, hs.root_fprint]; rfl
      root_fprint := by rw [h.fprint]; exact hs.root_fprint
      block_aligned := by
        rw [htrie, h.blockSize]
        exact fun hi hb => hs.fprint_aligned hi (hfp hb)
      fprint_aligned := by rw [htrie, h.fprint, h.blockSize]; exact hs.fprint_aligned
      edge_within := by rw [htrie, h.child, h.edge, h.blockSize]; exact hs.edge_within }

theorem Unevicted.reconcile {c : RadixCache} (h : Unevicted c)
    (known : BlockFingerprint → Option BlockId) : Unevicted (c.reconcile known).2 :=
  ⟨(reconcile_spec c known).sound h.1 h.2, h.2⟩

theorem Unevicted.load {codec : SnapshotCodec} (hcodec : codec.RoundTrips) {c c' : RadixCache}
    (h : Unevicted c) {text : String} {expected : BitVec 256}
    (hsave : c.saveSnapshot codec = .ok text)
    (hload : loadSnapshot codec text expected = .ok c') : Unevicted c' := by
  obtain ⟨hsame, hrefs⟩ := loadSnapshot_sameTree hcodec hsave hload
  exact ⟨hsame.sound h.1 fun f _ => hrefs f, hsame.free.trans h.2⟩

/-! ## Lookups with tombstones -/

section Contiguous

variable {c : RadixCache} {tokens : List Token}

/-- The lookup returns one block for each window it matched, and the block of a window is the
block of the node that this window ends at. -/
def ContiguousLookup (c : RadixCache) (tokens : List Token) : Prop :=
  ∃ matched blocks c', c.lookup tokens = some ((matched, blocks), c') ∧
    blocks.length = matched / c.blockSize ∧
    ∀ i b, blocks[i]? = some b → (i + 1) * c.blockSize ≤ tokens.length ∧
      ∃ j, c.trie.Reaches j (tokens.take ((i + 1) * c.blockSize)) ∧ c.block j = some b

/-- Along the tokens, no node holds a block below a tombstone on a block boundary. -/
def HoleFree (c : RadixCache) (tokens : List Token) : Prop :=
  ∀ ⦃i p j r⦄, c.trie.Reaches i p → p ≠ [] → c.blockSize ∣ p.length → c.block i = none →
    c.trie.Reaches j r → p <+: r → r <+: tokens → c.block j = none

/-- A list ends, up to elements without a value, in an element with one. -/
theorem exists_last_some {α β : Type} (f : α → Option β) (l : List α) :
    ∃ ks ls, l = ks ++ ls ∧ ls.filterMap f = [] ∧
      (ks = [] ∨ ∃ ks' j, ks = ks' ++ [j] ∧ f j ≠ none) := by
  induction l with
  | nil => exact ⟨[], [], rfl, rfl, Or.inl rfl⟩
  | cons a l ih =>
    obtain ⟨ks, ls, rfl, hls, rfl | ⟨ks', j, rfl, hj⟩⟩ := ih
    · cases hfa : f a with
      | none => exact ⟨[], a :: ls, rfl, by rw [List.filterMap_cons_none hfa, hls], Or.inl rfl⟩
      | some b => exact ⟨[a], ls, rfl, hls, Or.inr ⟨[], a, rfl, by rw [hfa]; simp⟩⟩
    · exact ⟨a :: (ks' ++ [j]), ls, rfl, hls, Or.inr ⟨a :: ks', j, rfl, hj⟩⟩

theorem contiguous_of_holeFree (hs : c.Sound) (hfree : c.HoleFree tokens) :
    c.ContiguousLookup tokens := by
  obtain ⟨js, hw⟩ := RadixTree.exists_walk hs.tree root tokens
  obtain ⟨c', hc', -⟩ := lookup_spec hs hw
  refine ⟨_, _, c', hc', (Nat.mul_div_cancel _ hs.blockSize_pos).symm, ?_⟩
  obtain ⟨ks, ls, rfl, hls, rfl | ⟨ks', j, rfl, hj⟩⟩ := exists_last_some c.block js
  · simp [hls]
  · -- up to the last block of the walk there is no tombstone
    have hchain : c.trie.Chain root (ks' ++ [j]) := by
      have := hw.chain
      rw [List.append_assoc, List.singleton_append] at this
      exact this.take_to ks'
    have hreach : c.trie.Reaches j (c.trie.spell (ks' ++ [j])) := by
      simpa using RadixTree.Reaches.root.chain hchain (by rw [List.getLast_cons (by simp)]; simp)
    have hstart : c.trie.spell (ks' ++ [j]) <+: tokens := by
      refine List.IsPrefix.trans ?_ hw.spell_prefix
      rw [RadixTree.spell_append _ (ks' ++ [j])]
      exact List.prefix_append _ _
    obtain ⟨-, hwindows⟩ := chain_windows hs RadixTree.Reaches.root hchain (by
      intro i p hi hp hp0 hdvd hnone
      exact hj (hfree hi hp0 hdvd hnone hreach hp hstart))
    intro i b hb
    rw [List.filterMap_append, hls, List.append_nil] at hb
    obtain ⟨m, r, hr, hpre, hlen, hblock⟩ := hwindows i b hb
    rw [List.length_nil, Nat.zero_div, Nat.zero_add] at hlen
    have hrt : r <+: tokens := List.IsPrefix.trans hpre hstart
    exact ⟨hlen ▸ hrt.length_le, m, eq_take_of_length hrt hlen ▸ hr, hblock⟩

theorem holeFree_of_contiguous (hs : c.Sound) (h : c.ContiguousLookup tokens) :
    c.HoleFree tokens := by
  intro i p j r hi hp0 hdvd hnone hj hpr hrt
  by_contra hsome
  -- the shortest tombstone above a block
  induction hlen : p.length using Nat.strongRecOn generalizing i p with
  | ind len ih =>
    obtain ⟨js, hw⟩ := RadixTree.exists_walk hs.tree root tokens
    obtain ⟨c₁, hc₁, -⟩ := lookup_spec hs hw
    obtain ⟨matched, blocks, c', hc', -, hwindows⟩ := h
    obtain rfl : js.filterMap c.block = blocks := by
      have := Option.some.inj (hc₁.symm.trans hc')
      exact (Prod.mk.inj (Prod.mk.inj this).1).2
    have hpt : p <+: tokens := hpr.trans hrt
    obtain ⟨ks, ns, hks, hchain, hspell, hlast⟩ := hw.exists_split hs.tree hi hpt
    obtain ⟨ms, ns', hms, -, hspell', hlast'⟩ := hw.exists_split hs.tree hj hrt
    have hij : i ≠ j := by
      rintro rfl
      exact hsome hnone
    -- the walk passes the tombstone, and then the block
    obtain ⟨qs, rfl⟩ : ks <+: ms := by
      rcases List.prefix_or_prefix_of_prefix (hks ▸ List.prefix_append ks ns)
        (hms ▸ List.prefix_append ms ns') with hpre | ⟨qs, rfl⟩
      · exact hpre
      · rw [← hspell, ← hspell', RadixTree.spell_append] at hpr
        have hnil : c.trie.spell qs = [] := by
          have := hpr.length_le
          rw [List.length_append] at this
          exact List.length_eq_zero_iff.mp (by omega)
        rw [← hspell, RadixTree.spell_append, hnil, List.append_nil, hspell'] at hi
        exact absurd (RadixTree.reaches_node_unique hs.tree hi hj) hij
    obtain ⟨ks', rfl⟩ : ∃ ks', ks = ks' ++ [i] :=
      hlast.resolve_left fun h => hp0 (by rw [← hspell, h.1]; rfl)
    have hjq : j ∈ qs := by
      obtain ⟨ms', hms'⟩ := hlast'.resolve_left fun h => absurd h.1 (by simp)
      rcases List.eq_nil_or_concat qs with rfl | ⟨qs, q, rfl⟩
      · rw [List.append_nil] at hms'
        exact absurd (List.append_inj_right' hms' rfl) (by simpa using hij)
      · rw [List.concat_eq_append, ← List.append_assoc] at hms'
        obtain rfl : q = j := by simpa using List.append_inj_right' hms' rfl
        simp
    -- the windows above the tombstone have their blocks
    rw [RadixTree.spell_append, RadixTree.spell_cons, RadixTree.spell_nil, List.append_nil]
      at hspell
    obtain ⟨hcount, -⟩ := chain_windows hs RadixTree.Reaches.root hchain.left (by
      intro i' p' hi' hp' hp0' hdvd' hnone'
      have hpre : p' <+: p := hspell ▸ hp'.trans (List.prefix_append _ _)
      have hlt : p'.length < p.length := by
        have hedge : 0 < (c.trie.edge i).length := by
          obtain ⟨i'', t, hchild⟩ := hchain.exists_parent (j := i) (by simp)
          exact List.length_pos_of_ne_nil (hs.tree.edge_ne_nil hchild)
        have := hp'.length_le
        rw [← hspell, List.length_append]
        rw [List.nil_append] at this
        omega
      exact ih _ (hlen ▸ hlt) hi' hp0' hdvd' hnone' (hpre.trans hpr) rfl)
    rw [List.nil_append, List.length_nil, Nat.zero_div, Nat.zero_add] at hcount
    have hend : p.length = ((c.trie.spell ks').length / c.blockSize + 1) * c.blockSize := by
      obtain ⟨i'', t, hchild⟩ := hchain.exists_parent (j := i) (by simp)
      obtain ⟨p₀, hp₀, hpe⟩ := hi.parent hs.tree hchild
      obtain rfl : c.trie.spell ks' = p₀ := List.append_cancel_right (hspell.trans hpe)
      have hwithin := hs.edge_within hp₀ hchild
      have hedge := List.length_pos_of_ne_nil (hs.tree.edge_ne_nil hchild)
      have hsum : p.length = (c.trie.spell ks').length + (c.edge i).length := by
        rw [hpe, List.length_append]
        rfl
      rw [hsum] at hdvd ⊢
      exact add_eq_of_dvd hedge hwithin hdvd
    -- so the block of the tombstone's window should be the tombstone's
    have hlt : (ks'.filterMap c.block).length < (js.filterMap c.block).length := by
      obtain ⟨b, hb⟩ := Option.ne_none_iff_exists'.mp hsome
      have hpos : 0 < (qs.filterMap c.block).length :=
        List.length_pos_of_mem (List.mem_filterMap.mpr ⟨j, hjq, hb⟩)
      rw [hms]
      simp only [List.filterMap_append, List.length_append]
      omega
    obtain ⟨-, m, hm, hblock⟩ := hwindows _ _ (List.getElem?_eq_getElem hlt)
    rw [← hcount, ← hend, ← List.prefix_iff_eq_take.mp hpt] at hm
    rw [RadixTree.reaches_node_unique hs.tree hm hi, hnone] at hblock
    cases hblock

/-- A lookup on a sound cache is contiguous exactly if no tombstone lies above a block. -/
theorem contiguousLookup_iff (hs : c.Sound) : c.ContiguousLookup tokens ↔ c.HoleFree tokens :=
  ⟨holeFree_of_contiguous hs, contiguous_of_holeFree hs⟩

end Contiguous

/-- The caches that insertions build. -/
def InsertStep (c : RadixCache)
    (call : List Token × List BlockId × List BlockFingerprint) (c' : RadixCache) : Prop :=
  ∃ n, c.insertWithFingerprints call.1 call.2.1 call.2.2 = some (n, c')

/-- A cache that was built by insertions, saved, loaded, and reconciled against `known`. -/
def RestoredStart (codec : SnapshotCodec) (size : Nat) (c : RadixCache) : Prop :=
  ∃ built text expected loaded known,
    Reachable (fun c => RadixCache.new size = some c) InsertStep built ∧
    built.saveSnapshot codec = .ok text ∧ loadSnapshot codec text expected = .ok loaded ∧
    c = (loaded.reconcile known).2

def LookupStep (c : RadixCache) (tokens : List Token) (c' : RadixCache) : Prop :=
  ∃ result, c.lookup tokens = some (result, c')

theorem unevicted_built {size : Nat} {c : RadixCache}
    (h : Reachable (fun c => RadixCache.new size = some c) InsertStep c) : Unevicted c := by
  refine h.invariant (fun _ hc => unevicted_new hc) ?_
  rintro c tokens c' hc ⟨_, hn⟩
  exact hc.insert hn

theorem unevicted_restored {codec : SnapshotCodec} (hcodec : codec.RoundTrips) {size : Nat}
    {c : RadixCache} (h : Reachable (RestoredStart codec size) LookupStep c) : Unevicted c := by
  refine h.invariant ?_ fun c tokens c' hc hstep => ?_
  · rintro c ⟨built, text, expected, loaded, known, hbuilt, hsave, hload, rfl⟩
    exact ((unevicted_built hbuilt).load hcodec hsave hload).reconcile known
  · obtain ⟨result, hresult⟩ := hstep
    obtain ⟨js, hw⟩ := RadixTree.exists_walk hc.1.tree root tokens
    obtain ⟨c₁, hc₁, hpin⟩ := lookup_spec hc.1 hw
    obtain rfl : c₁ = c' := (Prod.mk.inj (Option.some.inj (hc₁.symm.trans hresult))).2
    exact ⟨hpin.sound hc.1, hpin.free.trans hc.2⟩

/-- Every lookup on a restored cache returns its blocks in window order if and only if no
tombstone lies above a surviving block along its tokens. -/
theorem restored_contiguous_iff {codec : SnapshotCodec} (hcodec : codec.RoundTrips) {size : Nat}
    {c : RadixCache} (h : Reachable (RestoredStart codec size) LookupStep c)
    (tokens : List Token) : c.ContiguousLookup tokens ↔ c.HoleFree tokens :=
  contiguousLookup_iff (unevicted_restored hcodec h).1

/-- The snapshot of a cache of two blocks, one below the other. -/
def twoBlockSnapshot : RadixCacheSnapshot where
  nodes := [
    { Node.save (Node.new [] none 0) with children := (∅ : Assoc Token Nat).insert 1 1 },
    { Node.save (Node.new [1] (some ⟨7⟩) 0) with
      fingerprint := some ⟨0⟩, children := (∅ : Assoc Token Nat).insert 2 2 },
    { Node.save (Node.new [2] (some ⟨8⟩) 0) with fingerprint := some ⟨BitVec.allOnes 128⟩ }]
  freeNodes := []
  blockSize := 1
  softPinKeepaliveTicks := none
  namespaceTag := 0

/-- Its text. -/
def twoBlockJson : String :=
  "\x7b\"nodes\":[\x7b\"tokens\":[],\"block_id\":null,\"hit_count\":0,\"tier_location\":nul" ++
    "l,\"session_id\":null,\"fingerprint\":null,\"byte_len\":0,\"entry_state\":\"Ready\",\"st" ++
    "ore_state\":\"Idle\",\"children\":\x7b\"1\":1\x7d\x7d,\x7b\"tokens\":[1],\"block_id\":7," ++
    "\"hit_count\":0,\"tier_location\":null,\"session_id\":null,\"fingerprint\":[0,0,0,0,0,0," ++
    "0,0,0,0,0,0,0,0,0,0],\"byte_len\":0,\"entry_state\":\"Ready\",\"store_state\":\"Idle\"," ++
    "\"children\":\x7b\"2\":2\x7d\x7d,\x7b\"tokens\":[2],\"block_id\":8,\"hit_count\":0,\"tie" ++
    "r_location\":null,\"session_id\":null,\"fingerprint\":[255,255,255,255,255,255,255,255,2" ++
    "55,255,255,255,255,255,255,255],\"byte_len\":0,\"entry_state\":\"Ready\",\"store_state\"" ++
    ":\"Idle\",\"children\":\x7b\x7d\x7d],\"free_nodes\":[],\"block_size\":1,\"soft_pin_keepa" ++
    "live_ticks\":null,\"namespace\":[0,0,0,0,0,0,0,0,0,0,0,0,0,0,0,0,0,0,0,0,0,0,0,0,0,0,0,0" ++
    ",0,0,0,0]\x7d"

/-- The cache that is loaded from it. -/
def twoBlockCache : RadixCache where
  nodes := twoBlockSnapshot.nodes.map NodeSnapshot.load
  freeNodes := []
  blockSize := 1
  clock := 0
  softPinKeepaliveTicks := none
  blockIndex := ∅
  namespaceTag := 0

theorem restored_twoBlocks (known : BlockFingerprint → Option BlockId) :
    RestoredStart (.single twoBlockSnapshot twoBlockJson) 1 (twoBlockCache.reconcile known).2 := by
  obtain ⟨c₀, hc₀⟩ : ∃ c, RadixCache.new 1 = some c := ⟨_, rfl⟩
  obtain ⟨c₁, hc₁, hsnap⟩ : ∃ c₁, c₀.insertWithFingerprints [1, 2] [⟨7⟩, ⟨8⟩]
      [⟨0⟩, ⟨BitVec.allOnes 128⟩] = some (2, c₁) ∧ c₁.toSnapshot = twoBlockSnapshot := by
    cases hc₀
    exact ⟨_, rfl, rfl⟩
  refine ⟨c₁, twoBlockJson, 0, twoBlockCache, known, ?_, ?_, ?_, rfl⟩
  · exact Reachable.next (Reachable.start hc₀)
      (a := ([1, 2], [⟨7⟩, ⟨8⟩], [⟨0⟩, ⟨BitVec.allOnes 128⟩])) ⟨2, hc₁⟩
  · rw [saveSnapshot, hsnap, SnapshotCodec.single_toText]
  · rw [loadSnapshot, SnapshotCodec.single_fromText]
    rfl

/-- When both blocks survive, the lookup returns them in order. -/
theorem restored_contiguous_iff_both : ∃ (codec : SnapshotCodec) (c : RadixCache),
    codec.RoundTrips ∧ Reachable (RestoredStart codec 1) LookupStep c ∧
      (c.lookup [1, 2]).map Prod.fst = some (2, [⟨9⟩, ⟨10⟩]) ∧ c.ContiguousLookup [1, 2] := by
  have hcodec := SnapshotCodec.single_roundTrips twoBlockSnapshot twoBlockJson
  have hreach : Reachable (RestoredStart (.single twoBlockSnapshot twoBlockJson) 1) LookupStep _ :=
    Reachable.start (restored_twoBlocks fun fp => if fp = ⟨0⟩ then some ⟨9⟩ else some ⟨10⟩)
  have hs := (unevicted_restored hcodec hreach).1
  refine ⟨_, _, hcodec, hreach, by decide +kernel, ?_⟩
  refine (restored_contiguous_iff hcodec hreach [1, 2]).mpr ?_
  intro i p j r hi hp0 _ hnone _ _ _
  have hlt : i < 3 := hs.toSlots.reached_lt hi
  rcases (by omega : i = 0 ∨ i = 1 ∨ i = 2) with rfl | rfl | rfl
  · exact absurd (hs.reaches_unique hi RadixTree.Reaches.root) hp0
  · exact absurd hnone (by decide +kernel)
  · exact absurd hnone (by decide +kernel)

/-- When only the lower block survives, it is returned for the first window. -/
theorem restored_contiguous_fails : ∃ (codec : SnapshotCodec) (c : RadixCache),
    codec.RoundTrips ∧ Reachable (RestoredStart codec 1) LookupStep c ∧
      (c.lookup [1, 2]).map Prod.fst = some (1, [⟨9⟩]) ∧ ¬ c.ContiguousLookup [1, 2] := by
  have hcodec := SnapshotCodec.single_roundTrips twoBlockSnapshot twoBlockJson
  have hreach : Reachable (RestoredStart (.single twoBlockSnapshot twoBlockJson) 1) LookupStep _ :=
    Reachable.start (restored_twoBlocks fun fp =>
      if fp = ⟨BitVec.allOnes 128⟩ then some ⟨9⟩ else none)
  refine ⟨_, _, hcodec, hreach, by decide +kernel, fun h => ?_⟩
  have hfree := holeFree_of_contiguous (unevicted_restored hcodec hreach).1 h
  generalize hc : (twoBlockCache.reconcile fun fp =>
    if fp = ⟨BitVec.allOnes 128⟩ then some ⟨9⟩ else none).2 = c at hfree
  -- the tombstone of the first window, and the block of the second
  have hupper : c.trie.Reaches 1 [1] := by
    have hchild : c.child 0 1 = some 1 := by rw [← hc]; decide +kernel
    have hedge : c.edge 1 = [1] := by rw [← hc]; decide +kernel
    exact hedge ▸ RadixTree.Reaches.root.step hchild
  have hlower : c.trie.Reaches 2 [1, 2] := by
    have hchild : c.child 1 2 = some 2 := by rw [← hc]; decide +kernel
    have hedge : c.edge 2 = [2] := by rw [← hc]; decide +kernel
    have := hupper.step hchild
    rwa [show c.trie.edge 2 = [2] from hedge] at this
  have hnone : c.block 1 = none := by rw [← hc]; decide +kernel
  have hsome : c.block 2 = some ⟨9⟩ := by rw [← hc]; decide +kernel
  have hsize : c.blockSize = 1 := by rw [← hc]; rfl
  rw [hfree hupper (by simp) (by simp [hsize]) hnone hlower (by simp) (by simp)] at hsome
  cases hsome

/-! ## Insertions with tombstones -/

/-- The insertion returns every window, and a following lookup finds their blocks. -/
def Repopulated (c : RadixCache) (tokens : List Token) (blocks : List BlockId)
    (fps : List BlockFingerprint) : Prop :=
  ∃ c', c.insertWithFingerprints tokens blocks fps =
      some (min blocks.length (tokens.length / c.blockSize) * c.blockSize, c') ∧
    ∃ matched found c'', c'.lookup tokens = some ((matched, found), c'') ∧
      min blocks.length (tokens.length / c.blockSize) * c.blockSize ≤ matched ∧
      ∀ i < min blocks.length (tokens.length / c.blockSize), found[i]? = blocks[i]?

/-- An insertion repopulates its path exactly if no node on a block boundary of it lacks a
block. -/
theorem repopulated_iff {c : RadixCache} (h : Unevicted c) {tokens : List Token}
    {blocks : List BlockId} {fps : List BlockFingerprint} (hlen : blocks.length = fps.length) :
    c.Repopulated tokens blocks fps ↔ c.Unbroken (c.insertedTokens tokens blocks) := by
  constructor
  · rintro ⟨c', hc', -⟩
    by_contra hbroken
    exact absurd (insert_broken h.1 h.nodup hbroken hc') (Nat.lt_irrefl _)
  · intro hfull
    obtain ⟨c', hc', hholds⟩ := insert_unbroken h.1 h.nodup hlen hfull fun p b => h.1.holds_iff
    obtain ⟨hs', -, hsize⟩ := insertWithFingerprints_sound h.1 h.nodup hc'
    have hfit : min blocks.length (tokens.length / c.blockSize) * c.blockSize ≤ tokens.length :=
      Nat.le_trans (Nat.mul_le_mul_right _ (Nat.min_le_right _ _)) (Nat.div_mul_le_self _ _)
    obtain ⟨k, found, c'', hlookup, hk, hfound⟩ := lookup_covered (q := tokens) hs'
      (Nat.min_le_left blocks.length (tokens.length / c.blockSize)) (hsize ▸ hfit) (by
        intro i b hi hb
        rw [hholds, hsize, record, recordWindows_window h.1.blockSize_pos hi hfit, hb])
    refine ⟨c', hc', _, found, c'', hlookup, ?_, fun i hi => ?_⟩
    · rw [hsize]
      exact Nat.mul_le_mul_right _ hk
    · rw [← List.getElem?_take_of_lt hi, hfound, List.getElem?_take_of_lt hi]

/-- Insertions and reconciliations, in any order. -/
inductive RestoreOp
  | insert (tokens : List Token) (blocks : List BlockId) (fps : List BlockFingerprint)
  | reconcile (known : BlockFingerprint → Option BlockId)

def RestoreStep (c : RadixCache) (op : RestoreOp) (c' : RadixCache) : Prop :=
  match op with
  | .insert tokens blocks fps => ∃ n, c.insertWithFingerprints tokens blocks fps = some (n, c')
  | .reconcile known => c' = (c.reconcile known).2

theorem unevicted_restoring {size : Nat} {c : RadixCache}
    (h : Reachable (fun c => RadixCache.new size = some c) RestoreStep c) : Unevicted c := by
  refine h.invariant (fun c hc => unevicted_new hc) fun c op c' hc hstep => ?_
  cases op with
  | insert tokens blocks fps =>
    obtain ⟨n, hn⟩ := hstep
    exact hc.insert hn
  | reconcile known =>
    obtain rfl : c' = (c.reconcile known).2 := hstep
    exact hc.reconcile known

/-- On a cache built by insertions and reconciliations, an insertion repopulates its path if
and only if no tombstone lies on a block boundary of the tokens it looks at. -/
theorem restored_repopulated_iff {size : Nat} {c : RadixCache}
    (h : Reachable (fun c => RadixCache.new size = some c) RestoreStep c) (tokens : List Token)
    {blocks : List BlockId} {fps : List BlockFingerprint} (hlen : blocks.length = fps.length) :
    c.Repopulated tokens blocks fps ↔ c.Unbroken (c.insertedTokens tokens blocks) :=
  repopulated_iff (unevicted_restoring h) hlen

/-- The two blocks of a prompt, inserted again after both survived. -/
theorem restored_repopulated_iff_both : ∃ c : RadixCache,
    Reachable (fun c => RadixCache.new 1 = some c) RestoreStep c ∧
      c.Repopulated [1, 2] [⟨3⟩, ⟨4⟩] [⟨5⟩, ⟨6⟩] := by
  obtain ⟨c₀, hc₀⟩ : ∃ c, RadixCache.new 1 = some c := ⟨_, rfl⟩
  obtain ⟨c₁, hc₁, hlen, h1, h2⟩ : ∃ c₁, c₀.insertWithFingerprints [1, 2] [⟨7⟩, ⟨8⟩] [⟨0⟩, ⟨1⟩] =
      some (2, c₁) ∧ (c₁.reconcile fun _ => some ⟨9⟩).2.nodes.length = 3 ∧
      (c₁.reconcile fun _ => some ⟨9⟩).2.block 1 ≠ none ∧
      (c₁.reconcile fun _ => some ⟨9⟩).2.block 2 ≠ none := by
    cases hc₀
    exact ⟨_, rfl, by decide +kernel, by decide +kernel, by decide +kernel⟩
  have hreach : Reachable (fun c => RadixCache.new 1 = some c) RestoreStep
      (c₁.reconcile fun _ => some ⟨9⟩).2 :=
    Reachable.next (Reachable.next (Reachable.start hc₀)
      (a := .insert [1, 2] [⟨7⟩, ⟨8⟩] [⟨0⟩, ⟨1⟩]) ⟨2, hc₁⟩) (a := .reconcile fun _ => some ⟨9⟩) rfl
  have hs := (unevicted_restoring hreach).1
  refine ⟨_, hreach, (restored_repopulated_iff hreach [1, 2] rfl).mpr ?_⟩
  intro j p hj _ hp0 _
  have hlt : j < 3 := hlen ▸ hs.toSlots.reached_lt hj
  rcases (by omega : j = 0 ∨ j = 1 ∨ j = 2) with rfl | rfl | rfl
  · exact absurd (hs.reaches_unique hj RadixTree.Reaches.root) hp0
  · exact h1
  · exact h2

/-- When none survived, the insertion passes both tombstones and returns nothing. -/
theorem restored_repopulated_fails : ∃ c : RadixCache,
    Reachable (fun c => RadixCache.new 1 = some c) RestoreStep c ∧
      (c.insertWithFingerprints [1, 2] [⟨3⟩, ⟨4⟩] [⟨5⟩, ⟨6⟩]).map Prod.fst = some 0 ∧
      ¬ c.Repopulated [1, 2] [⟨3⟩, ⟨4⟩] [⟨5⟩, ⟨6⟩] := by
  obtain ⟨c₀, hc₀⟩ : ∃ c, RadixCache.new 1 = some c := ⟨_, rfl⟩
  obtain ⟨c₁, hc₁, hzero⟩ : ∃ c₁, c₀.insertWithFingerprints [1, 2] [⟨7⟩, ⟨8⟩] [⟨0⟩, ⟨1⟩] =
      some (2, c₁) ∧ ((c₁.reconcile fun _ => none).2.insertWithFingerprints [1, 2] [⟨3⟩, ⟨4⟩]
        [⟨5⟩, ⟨6⟩]).map Prod.fst = some 0 := by
    cases hc₀
    exact ⟨_, rfl, by decide +kernel⟩
  refine ⟨(c₁.reconcile fun _ => none).2, ?_, hzero, ?_⟩
  · exact Reachable.next (Reachable.next (Reachable.start hc₀)
      (a := .insert [1, 2] [⟨7⟩, ⟨8⟩] [⟨0⟩, ⟨1⟩]) ⟨2, hc₁⟩) (a := .reconcile fun _ => none) rfl
  · rintro ⟨c', hc', -⟩
    rw [hc'] at hzero
    have hsize : (c₁.reconcile fun _ => none).2.blockSize = 1 := by
      have h₁ := (insertWithFingerprints_sound (new_sound hc₀) (unevicted_new hc₀).nodup hc₁).2.2
      rw [(reconcile_spec c₁ _).blockSize, h₁, (new_eq hc₀).2]
    simp [hsize] at hzero

end RadixCache

end Arle.PrefixCache
