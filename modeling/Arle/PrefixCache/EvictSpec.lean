import Arle.PrefixCache.Evict
import Arle.PrefixCache.Sound

/-!
# What an eviction does

An eviction takes the blocks of its victims, detaches the victims, and reclaims the blank
nodes (`evictBy_eq`). It only removes pointers, so it keeps the tree sound
(`evictBy_sound`). The reclaimed slots are appended to the free stack; among them is every
slot without a block, a pin or a child (`mem_gcReclaimable_of_blank`), the slots that are
free already included.
-/

namespace Arle.PrefixCache.RadixCache

open KvTier Scheduler

/-! ## The reclaimed slots -/

/-- A slot that may be reclaimed together with the slots in `reclaimable`. -/
def Reclaims (c : RadixCache) (reclaimable : List Nat) (i : Nat) : Prop :=
  i ≠ root ∧ i < c.nodes.length ∧ c.block i = none ∧ c.refs i = 0 ∧
    ∀ t j, c.child i t = some j → j ∈ reclaimable

theorem Reclaims.mono {c : RadixCache} {rs rs' : List Nat} {i : Nat} (h : c.Reclaims rs i)
    (hsub : ∀ j ∈ rs, j ∈ rs') : c.Reclaims rs' i :=
  ⟨h.1, h.2.1, h.2.2.1, h.2.2.2.1, fun t j hj => hsub j (h.2.2.2.2 t j hj)⟩

theorem gcReclaims_iff {c : RadixCache} {node : Node} {rs : List Nat} {i : Nat}
    (hi : c.nodes[i]? = some node) (hroot : i ≠ root) :
    gcReclaims rs node = true ↔ c.Reclaims rs i := by
  have hlt := (List.getElem?_eq_some_iff.mp hi).1
  simp only [gcReclaims, Bool.and_eq_true, Option.isNone_iff_eq_none, decide_eq_true_eq,
    List.all_eq_true, Reclaims, block, refs, child, hi, Option.bind_some, Option.map_some,
    Option.getD_some]
  constructor
  · rintro ⟨⟨hb, hr⟩, hc⟩
    exact ⟨hroot, hlt, hb, hr, fun t j hj => hc j (Assoc.mem_values.mpr ⟨t, hj⟩)⟩
  · rintro ⟨-, -, hb, hr, hc⟩
    refine ⟨⟨hb, hr⟩, fun j hj => ?_⟩
    obtain ⟨t, ht⟩ := Assoc.mem_values.mp hj
    exact hc t j ht

/-- One visit of a scan. -/
def gcVisit (rs : List Nat) (p : Node × Nat) : List Nat :=
  if p.2 = root ∨ p.2 ∈ rs then rs
  else if gcReclaims rs p.1 then rs ++ [p.2]
  else rs

theorem gcScan_eq (c : RadixCache) (rs : List Nat) :
    c.gcScan rs = c.nodes.zipIdx.foldl gcVisit rs := rfl

theorem gcVisit_subset (rs : List Nat) (p : Node × Nat) : ∀ i ∈ rs, i ∈ gcVisit rs p := by
  intro i hi
  unfold gcVisit
  split
  · exact hi
  · split
    · exact List.mem_append_left _ hi
    · exact hi

theorem foldl_gcVisit_subset (ps : List (Node × Nat)) (rs : List Nat) :
    ∀ i ∈ rs, i ∈ ps.foldl gcVisit rs := by
  induction ps generalizing rs with
  | nil => exact fun i hi => hi
  | cons p ps ih => exact fun i hi => ih _ i (gcVisit_subset rs p i hi)

/-- Every scanned slot may be reclaimed together with the others. -/
def AllReclaim (c : RadixCache) (rs : List Nat) : Prop := ∀ i ∈ rs, c.Reclaims rs i

theorem AllReclaim.visit {c : RadixCache} {rs : List Nat} (h : c.AllReclaim rs)
    {p : Node × Nat} (hp : c.nodes[p.2]? = some p.1) : c.AllReclaim (gcVisit rs p) := by
  intro i hi
  have hsub := gcVisit_subset rs p
  by_cases hold : i ∈ rs
  · exact (h i hold).mono hsub
  · unfold gcVisit at hi
    split at hi
    · exact absurd hi hold
    · rename_i hroot
      split at hi
      · rename_i hrec
        obtain rfl : i = p.2 := by
          rcases List.mem_append.mp hi with hi | hi
          · exact absurd hi hold
          · exact List.mem_singleton.mp hi
        exact ((gcReclaims_iff hp fun h => hroot (Or.inl h)).mp hrec).mono hsub
      · exact absurd hi hold

theorem AllReclaim.foldl {c : RadixCache} {ps : List (Node × Nat)} {rs : List Nat}
    (h : c.AllReclaim rs) (hps : ∀ p ∈ ps, c.nodes[p.2]? = some p.1) :
    c.AllReclaim (ps.foldl gcVisit rs) := by
  induction ps generalizing rs with
  | nil => exact h
  | cons p ps ih =>
    exact ih (h.visit (hps p List.mem_cons_self)) fun q hq => hps q (List.mem_cons_of_mem p hq)

theorem AllReclaim.scan {c : RadixCache} {rs : List Nat} (h : c.AllReclaim rs) :
    c.AllReclaim (c.gcScan rs) := by
  rw [gcScan_eq]
  exact h.foldl fun p hp => List.mem_zipIdx_iff_getElem?.mp hp

theorem AllReclaim.loop {c : RadixCache} {rs : List Nat} (h : c.AllReclaim rs) (fuel : Nat) :
    c.AllReclaim (c.gcLoop fuel rs) := by
  induction fuel generalizing rs with
  | zero => exact h
  | succ fuel ih =>
    rw [gcLoop]
    split
    · exact h
    · exact ih h.scan

theorem gcLoop_subset (c : RadixCache) (fuel : Nat) (rs : List Nat) :
    ∀ i ∈ rs, i ∈ c.gcLoop fuel rs := by
  induction fuel generalizing rs with
  | zero => exact fun i hi => hi
  | succ fuel ih =>
    intro i hi
    rw [gcLoop]
    split
    · exact hi
    · exact ih _ i (foldl_gcVisit_subset _ _ i hi)

theorem foldl_gcVisit_complete {c : RadixCache} {ps : List (Node × Nat)} {rs : List Nat}
    (hps : ∀ p ∈ ps, c.nodes[p.2]? = some p.1) {p : Node × Nat} (hp : p ∈ ps)
    (h : c.Reclaims rs p.2) : p.2 ∈ ps.foldl gcVisit rs := by
  induction ps generalizing rs with
  | nil => cases hp
  | cons q ps ih =>
    rcases List.mem_cons.mp hp with rfl | hp
    · refine foldl_gcVisit_subset _ (gcVisit rs p) _ ?_
      unfold gcVisit
      split
      · rename_i hin
        exact hin.resolve_left h.1
      · rw [if_pos ((gcReclaims_iff (hps p List.mem_cons_self) h.1).mpr h)]
        exact List.mem_append_right _ (List.mem_singleton.mpr rfl)
    · exact ih (fun q hq => hps q (List.mem_cons_of_mem _ hq)) hp
        (h.mono (gcVisit_subset rs q))

theorem mem_gcReclaimable {c : RadixCache} {i : Nat} (h : i ∈ c.gcReclaimable) :
    c.Reclaims c.gcReclaimable i := by
  have hall : c.AllReclaim (c.gcLoop (c.nodes.length + 1) []) :=
    AllReclaim.loop (fun i hi => absurd hi List.not_mem_nil) _
  unfold gcReclaimable at h ⊢
  obtain ⟨-, hi⟩ := List.mem_filter.mp h
  refine (hall i (by simpa using hi)).mono fun j hj => ?_
  have := (hall j hj).2.1
  simp [hj, this]

/-- A slot without a block, a pin or a child is reclaimed. -/
theorem mem_gcReclaimable_of_blank {c : RadixCache} {i : Nat} (hroot : i ≠ root)
    (hi : i < c.nodes.length) (hblock : c.block i = none) (hrefs : c.refs i = 0)
    (hchild : ∀ t, c.child i t = none) : i ∈ c.gcReclaimable := by
  have hrec : c.Reclaims [] i :=
    ⟨hroot, hi, hblock, hrefs, fun t j hj => by rw [hchild] at hj; cases hj⟩
  obtain ⟨node, hnode⟩ : ∃ node, c.nodes[i]? = some node := ⟨_, List.getElem?_eq_getElem hi⟩
  have hscan : i ∈ c.gcScan [] := by
    rw [gcScan_eq]
    exact foldl_gcVisit_complete (p := (node, i)) (fun p hp => List.mem_zipIdx_iff_getElem?.mp hp)
      (List.mem_zipIdx_iff_getElem?.mpr hnode) hrec
  have hloop : i ∈ c.gcLoop (c.nodes.length + 1) [] := by
    rw [gcLoop]
    split
    · rename_i heq
      rw [heq] at hscan
      exact hscan
    · exact gcLoop_subset c _ _ i hscan
  unfold gcReclaimable
  simp [hloop, hi]

theorem gcReclaimable_nodup (c : RadixCache) : c.gcReclaimable.Nodup :=
  List.nodup_range.filter _

/-! ## Removals -/

/-- `c'` is `c` with some pointers and some blocks removed. -/
structure Shrunk (c c' : RadixCache) : Prop where
  length : c'.nodes.length = c.nodes.length
  blockSize : c'.blockSize = c.blockSize
  child_le : ∀ {i j t}, c'.child i t = some j → c.child i t = some j
  edge_eq : ∀ {i j t}, c'.child i t = some j → c'.edge j = c.edge j
  block_le : ∀ {i b}, c'.block i = some b → c.block i = some b
  fprint : c'.fprint = c.fprint
  refs : c'.refs = c.refs

section Shrunk

variable {c c' c'' : RadixCache}

theorem Shrunk.refl (c : RadixCache) : Shrunk c c := ⟨rfl, rfl, id, fun _ => rfl, id, rfl, rfl⟩

theorem Shrunk.trans (h : Shrunk c c') (h' : Shrunk c' c'') : Shrunk c c'' where
  length := h'.length.trans h.length
  blockSize := h'.blockSize.trans h.blockSize
  child_le hj := h.child_le (h'.child_le hj)
  edge_eq hj := (h'.edge_eq hj).trans (h.edge_eq (h'.child_le hj))
  block_le hb := h.block_le (h'.block_le hb)
  fprint := h'.fprint.trans h.fprint
  refs := h'.refs.trans h.refs

theorem Shrunk.prunes (h : Shrunk c c') : c'.trie.Prunes c.trie where
  root_eq := rfl
  child_le := h.child_le
  edge_eq := h.edge_eq

theorem Shrunk.child_none (h : Shrunk c c') {i : Nat} {t : Token} (hi : c.child i t = none) :
    c'.child i t = none := by
  cases hj : c'.child i t with
  | none => rfl
  | some j => exact absurd (h.child_le hj) (by rw [hi]; simp)

theorem Shrunk.block_none (h : Shrunk c c') {i : Nat} (hi : c.block i = none) :
    c'.block i = none := by
  cases hb : c'.block i with
  | none => rfl
  | some b => exact absurd (h.block_le hb) (by rw [hi]; simp)

/-- A removal keeps the tree sound, when the slots it frees are blank. -/
theorem Shrunk.sound (h : Shrunk c c') (hs : c.Sound)
    (hfree : ∀ f ∈ c'.freeNodes, f ∈ c.freeNodes ∨ (f < c'.nodes.length ∧ c'.Blank f)) :
    c'.Sound where
  nonempty := h.length ▸ hs.nonempty
  free_lt := by
    intro f hf
    rcases hfree f hf with hf | hf
    · exact h.length ▸ hs.free_lt hf
    · exact hf.1
  free_ne_root := by
    intro f hf
    rcases hfree f hf with hf | hf
    · exact hs.free_ne_root hf
    · exact Ne.symm hf.2.root_ne
  free_block := by
    intro f hf
    rcases hfree f hf with hf | hf
    · exact h.block_none (hs.free_block hf)
    · exact hf.2.block
  free_refs := by
    intro f hf
    rcases hfree f hf with hf | hf
    · rw [h.refs]
      exact hs.free_refs hf
    · exact hf.2.refs
  free_childless := by
    intro f hf t
    rcases hfree f hf with hf | hf
    · exact h.child_none (hs.free_childless hf t)
    · exact hf.2.childless t
  free_orphan := by
    intro f hf i t hj
    rcases hfree f hf with hf | hf
    · exact hs.free_orphan hf i t (h.child_le hj)
    · exact hf.2.fresh.2 i t hj
  child_lt := fun hj => h.length ▸ hs.child_lt (h.child_le hj)
  blockSize_pos := h.blockSize ▸ hs.blockSize_pos
  tree := h.prunes.wellFormed hs.tree
  root_block := h.block_none hs.root_block
  root_fprint := by rw [h.fprint]; exact hs.root_fprint
  block_aligned := by
    intro i p hi hb
    obtain ⟨b, hb⟩ := Option.ne_none_iff_exists'.mp hb
    rw [h.blockSize]
    exact hs.block_aligned (h.prunes.reaches hi) (by rw [h.block_le hb]; simp)
  fprint_aligned := by
    intro i p hi hf
    rw [h.fprint] at hf
    rw [h.blockSize]
    exact hs.fprint_aligned (h.prunes.reaches hi) hf
  edge_within := by
    intro i p t j hi hj
    rw [h.blockSize, h.edge_eq hj]
    exact hs.edge_within (h.prunes.reaches hi) (h.child_le hj)

end Shrunk

/-! ## The next victim -/

section Scan

variable {c : RadixCache} {κ : Type} {key : Nat → Node → Option κ} {keep : κ → Nat → κ → Nat → Bool}

/-- One visit of the scan for the best candidate. -/
def scanVisit (key : Nat → Node → Option κ) (keep : κ → Nat → κ → Nat → Bool)
    (best : Option (κ × Nat)) (p : Node × Nat) : Option (κ × Nat) :=
  match key p.2 p.1 with
  | none => best
  | some k =>
    match best with
    | some (b, i) => if keep b i k p.2 then best else some (k, p.2)
    | none => some (k, p.2)

theorem scanBest_eq : c.scanBest key keep = c.nodes.zipIdx.foldl (scanVisit key keep) none := rfl

theorem scanVisit_some {best : Option (κ × Nat)} {p : Node × Nat} {k : κ} {i : Nat}
    (h : scanVisit key keep best p = some (k, i)) :
    best = some (k, i) ∨ (i = p.2 ∧ key p.2 p.1 = some k) := by
  unfold scanVisit at h
  cases hk : key p.2 p.1 with
  | none =>
    rw [hk] at h
    exact Or.inl h
  | some k' =>
    rw [hk] at h
    cases best with
    | none =>
      cases h
      exact Or.inr ⟨rfl, rfl⟩
    | some b =>
      dsimp only at h
      split at h
      · exact Or.inl h
      · cases h
        exact Or.inr ⟨rfl, rfl⟩

theorem scanVisit_none {best : Option (κ × Nat)} {p : Node × Nat}
    (h : scanVisit key keep best p = none) : best = none ∧ key p.2 p.1 = none := by
  unfold scanVisit at h
  cases hk : key p.2 p.1 with
  | none =>
    rw [hk] at h
    exact ⟨h, rfl⟩
  | some k =>
    rw [hk] at h
    cases best with
    | none => cases h
    | some b =>
      dsimp only at h
      split at h <;> cases h

theorem foldl_scanVisit_some {ps : List (Node × Nat)} {best : Option (κ × Nat)} {k : κ} {i : Nat}
    (h : ps.foldl (scanVisit key keep) best = some (k, i)) :
    best = some (k, i) ∨ ∃ p ∈ ps, i = p.2 ∧ key p.2 p.1 = some k := by
  induction ps generalizing best with
  | nil => exact Or.inl h
  | cons p ps ih =>
    rcases ih h with hbest | ⟨q, hq, hi, hk⟩
    · rcases scanVisit_some hbest with hbest | ⟨hi, hk⟩
      · exact Or.inl hbest
      · exact Or.inr ⟨p, List.mem_cons_self, hi, hk⟩
    · exact Or.inr ⟨q, List.mem_cons_of_mem p hq, hi, hk⟩

theorem foldl_scanVisit_none {ps : List (Node × Nat)} {best : Option (κ × Nat)}
    (h : ps.foldl (scanVisit key keep) best = none) :
    best = none ∧ ∀ p ∈ ps, key p.2 p.1 = none := by
  induction ps generalizing best with
  | nil => exact ⟨h, fun p hp => by cases hp⟩
  | cons p ps ih =>
    obtain ⟨hvisit, hps⟩ := ih h
    obtain ⟨hbest, hp⟩ := scanVisit_none hvisit
    refine ⟨hbest, fun q hq => ?_⟩
    rcases List.mem_cons.mp hq with rfl | hq
    · exact hp
    · exact hps q hq

/-- The scan returns a candidate. -/
theorem scanBest_some {k : κ} {i : Nat} (h : c.scanBest key keep = some (k, i)) :
    ∃ node, c.nodes[i]? = some node ∧ key i node = some k := by
  rw [scanBest_eq] at h
  rcases foldl_scanVisit_some h with h | ⟨p, hp, rfl, hk⟩
  · cases h
  · exact ⟨p.1, List.mem_zipIdx_iff_getElem?.mp hp, hk⟩

/-- The scan returns nothing only if there is no candidate. -/
theorem scanBest_none (h : c.scanBest key keep = none) {i : Nat} {node : Node}
    (hi : c.nodes[i]? = some node) : key i node = none := by
  rw [scanBest_eq] at h
  exact (foldl_scanVisit_none h).2 (node, i) (List.mem_zipIdx_iff_getElem?.mpr hi)

end Scan

section Subtree

variable {c : RadixCache} {tierFilter : Option Tier} {selected : List Nat}

/-- What a subtree test that finds nothing has seen: every node with a block in the tier lies
in the subtree of a selected node. -/
theorem subtree_clear {fuel idx : Nat}
    (h : c.subtreeHasUnselectedBlockInTier tierFilter selected fuel idx = false) {d : Nat}
    (hd : c.trie.Below idx d) :
    c.nodeMatchesTierFilter d tierFilter = false ∨
      ∃ s ∈ selected, c.trie.Below idx s ∧ c.trie.Below s d := by
  induction fuel generalizing idx with
  | zero => cases h
  | succ fuel ih =>
    rw [subtreeHasUnselectedBlockInTier] at h
    split at h
    · rename_i hsel
      exact Or.inr ⟨idx, hsel, .refl idx, hd⟩
    · split at h
      · cases h
      · rename_i hmatch
        rcases hd.cases_child with rfl | ⟨t, j, hj, hjd⟩
        · exact Or.inl (by simpa using hmatch)
        · obtain ⟨node, hnode, hlookup⟩ := child_eq_some.mp hj
          rw [hnode] at h
          have hall := List.any_eq_false.mp h j (Assoc.mem_values.mpr ⟨t, hlookup⟩)
          rcases ih (by simpa using hall) hjd with hclear | ⟨s, hs, hjs, hsd⟩
          · exact Or.inl hclear
          · exact Or.inr ⟨s, hs, .step hj hjs, hsd⟩

/-- Below an active leaf every node with a block in the tier lies below a selected node. -/
theorem activeLeaf_clear {idx : Nat}
    (h : c.nodeIsActiveLeafForTier idx tierFilter selected = true) {t : Token} {j d : Nat}
    (hj : c.child idx t = some j) (hd : c.trie.Below j d) :
    c.nodeMatchesTierFilter d tierFilter = false ∨
      ∃ s ∈ selected, c.trie.Below s d := by
  obtain ⟨node, hnode, hlookup⟩ := child_eq_some.mp hj
  rw [nodeIsActiveLeafForTier, hnode] at h
  have hall := List.all_eq_true.mp h j (Assoc.mem_values.mpr ⟨t, hlookup⟩)
  rcases subtree_clear (by simpa using hall) hd with hclear | ⟨s, hs, -, hsd⟩
  · exact Or.inl hclear
  · exact Or.inr ⟨s, hs, hsd⟩

end Subtree

/-! ## The victims -/

section Take

variable {c c' : RadixCache}

/-- The node `v` gave up the block `b`. -/
structure Taken (c : RadixCache) (v : Nat) (b : BlockId) (c' : RadixCache) : Prop where
  had : c.block v = some b
  get : ∀ i : Nat, c'.nodes[i]? =
    if i = v then (c.nodes[i]?).map fun node => { node with blockId := none } else c.nodes[i]?
  child : c'.child = c.child
  edge : c'.edge = c.edge
  block : c'.block = Function.update c.block v none
  fprint : c'.fprint = c.fprint
  refs : c'.refs = c.refs
  index : c'.blockIndex = c.blockIndex.erase b
  free : c'.freeNodes = c.freeNodes
  length : c'.nodes.length = c.nodes.length
  blockSize : c'.blockSize = c.blockSize
  clock : c'.clock = c.clock

theorem takeBlock_spec {v : Nat} {b : BlockId} (h : c.takeBlock v = some (b, c')) :
    c.Taken v b c' := by
  obtain ⟨node, hnode, h⟩ := Option.bind_eq_some_iff.mp h
  obtain ⟨bid, hbid, h⟩ := Option.bind_eq_some_iff.mp h
  cases h
  have hget := getElem?_set_nodes (m := { node with blockId := none }) hnode
  refine ⟨block_eq_some.mpr ⟨node, hnode, hbid⟩, ?_, ?_, ?_, ?_, ?_, ?_, rfl, rfl, by simp, rfl,
    rfl⟩
  · intro i
    rw [hget]
    by_cases hi : i = v
    · rw [if_pos hi, if_pos hi, hi, hnode]
      rfl
    · rw [if_neg hi, if_neg hi]
  · funext i t
    simp only [RadixCache.child, hget]
    by_cases hi : i = v <;> simp [hi, hnode]
  · funext i
    simp only [RadixCache.edge, hget]
    by_cases hi : i = v <;> simp [hi, hnode]
  · funext i
    simp only [Function.update_apply, RadixCache.block, hget]
    by_cases hi : i = v <;> simp [hi]
  · funext i
    simp only [RadixCache.fprint, hget]
    by_cases hi : i = v <;> simp [hi, hnode]
  · funext i
    simp only [RadixCache.refs, hget]
    by_cases hi : i = v <;> simp [hi, hnode]

theorem takeBlock_isSome {v : Nat} {b : BlockId} (h : c.block v = some b) :
    ∃ c', c.takeBlock v = some (b, c') := by
  obtain ⟨node, hnode, hb⟩ := block_eq_some.mp h
  exact ⟨_, by simp only [takeBlock, hnode, hb, Option.bind_eq_bind, Option.bind_some]; rfl⟩

theorem Taken.shrunk {v : Nat} {b : BlockId} (h : c.Taken v b c') : Shrunk c c' where
  length := h.length
  blockSize := h.blockSize
  child_le := by rw [h.child]; exact id
  edge_eq := fun _ => by rw [h.edge]
  block_le := by
    intro i b' hb
    rw [h.block, Function.update_apply] at hb
    split at hb
    · cases hb
    · exact hb
  fprint := h.fprint
  refs := h.refs

/-- The invariant rule for the victim loop: what every taken block keeps. -/
theorem evictLoop_invariant {victim : RadixCache → List Nat → Option Nat}
    {P : RadixCache → List Nat → List BlockId → Prop}
    (hstep : ∀ {c c' : RadixCache} {evicted : List Nat} {freed : List BlockId} {v : Nat}
      {b : BlockId}, P c evicted freed → victim c evicted = some v → c.Taken v b c' →
      P c' (evicted ++ [v]) (freed ++ [b]))
    (hskip : ∀ {c : RadixCache} {evicted : List Nat} {freed : List BlockId} {v : Nat},
      P c evicted freed → victim c evicted = some v → c.block v = none →
      P c (evicted ++ [v]) freed)
    {n : Nat} {evicted : List Nat} {freed : List BlockId} (h : P c evicted freed) :
    P (evictLoop victim n c evicted freed).1 (evictLoop victim n c evicted freed).2.1
      (evictLoop victim n c evicted freed).2.2 := by
  induction n generalizing c evicted freed with
  | zero => exact h
  | succ n ih =>
    rw [evictLoop]
    cases hv : victim c evicted with
    | none => exact h
    | some v =>
      dsimp only
      cases ht : c.takeBlock v with
      | none =>
        refine ih (hskip h hv ?_)
        cases hb : c.block v with
        | none => rfl
        | some b =>
          obtain ⟨c', hc'⟩ := takeBlock_isSome hb
          rw [hc'] at ht
          cases ht
      | some r => exact ih (hstep h hv (takeBlock_spec ht))

end Take

/-! ## Detached and reclaimed nodes -/

section Detach

variable {c : RadixCache} {g : List Nat}

theorem detach_get (i : Nat) : (c.detach g).nodes[i]? = (c.nodes[i]?).map fun node =>
    { node with children := node.children.retain fun _ childIdx => decide (childIdx ∉ g) } := by
  simp [detach]

theorem detach_child {i j : Nat} {t : Token} :
    (c.detach g).child i t = some j ↔ c.child i t = some j ∧ j ∉ g := by
  simp only [RadixCache.child, detach_get]
  cases c.nodes[i]? with
  | none => simp
  | some node =>
    simp only [Option.map_some, Option.bind_some, Assoc.lookup_retain_eq_some, decide_eq_true_eq]

theorem detach_edge : (c.detach g).edge = c.edge := by
  funext i
  simp only [RadixCache.edge, detach_get, Option.map_map]
  rfl

theorem detach_block : (c.detach g).block = c.block := by
  funext i
  simp only [RadixCache.block, detach_get]
  cases c.nodes[i]? <;> rfl

theorem detach_shrunk : Shrunk c (c.detach g) where
  length := by simp [detach]
  blockSize := rfl
  child_le := fun h => (detach_child.mp h).1
  edge_eq := fun _ => by rw [detach_edge]
  block_le := by rw [detach_block]; exact id
  fprint := by
    funext i
    simp only [RadixCache.fprint, detach_get]
    cases c.nodes[i]? <;> rfl
  refs := by
    funext i
    simp only [RadixCache.refs, detach_get, Option.map_map]
    rfl

theorem gc_of_nil (h : c.gcReclaimable = []) : c.gcOrphanTombstones = c := by
  simp [gcOrphanTombstones, h]

theorem gc_get (h : c.gcReclaimable ≠ []) (i : Nat) :
    c.gcOrphanTombstones.nodes[i]? = ((c.detach c.gcReclaimable).nodes[i]?).map fun node =>
      if i ∈ c.gcReclaimable then reclaimSlot node else node := by
  have hne : c.gcReclaimable.isEmpty = false := by simpa using h
  simp only [gcOrphanTombstones, hne, Bool.false_eq_true, if_false, List.getElem?_map,
    List.getElem?_zipIdx, Option.map_map, Nat.zero_add]
  rfl

theorem gc_freeNodes : c.gcOrphanTombstones.freeNodes = c.freeNodes ++ c.gcReclaimable := by
  by_cases h : c.gcReclaimable = []
  · rw [gc_of_nil h, h, List.append_nil]
  · have hne : c.gcReclaimable.isEmpty = false := by simpa using h
    simp [gcOrphanTombstones, hne, detach]

theorem gc_index : c.gcOrphanTombstones.blockIndex = c.blockIndex := by
  by_cases h : c.gcReclaimable = []
  · rw [gc_of_nil h]
  · have hne : c.gcReclaimable.isEmpty = false := by simpa using h
    simp [gcOrphanTombstones, hne, detach]

theorem gc_child {i j : Nat} {t : Token} : c.gcOrphanTombstones.child i t = some j ↔
    c.child i t = some j ∧ j ∉ c.gcReclaimable ∧ i ∉ c.gcReclaimable := by
  by_cases h : c.gcReclaimable = []
  · simp [gc_of_nil h, h]
  · rw [← and_assoc, ← detach_child]
    simp only [RadixCache.child, gc_get h]
    cases (c.detach c.gcReclaimable).nodes[i]? with
    | none => simp
    | some node =>
      by_cases hi : i ∈ c.gcReclaimable
      · simp [hi, reclaimSlot]
      · simp [hi]

theorem gc_block : c.gcOrphanTombstones.block = c.block := by
  by_cases h : c.gcReclaimable = []
  · rw [gc_of_nil h]
  · rw [← detach_block (c := c) (g := c.gcReclaimable)]
    funext i
    by_cases hi : i ∈ c.gcReclaimable
    · have hnone := (mem_gcReclaimable hi).2.2.1
      rw [← detach_block (g := c.gcReclaimable)] at hnone
      rw [hnone]
      simp only [RadixCache.block, gc_get h, hi, if_true]
      cases (c.detach c.gcReclaimable).nodes[i]? <;> rfl
    · simp only [RadixCache.block, gc_get h, hi, if_false, Option.map_id']

theorem gc_edge {i : Nat} (hi : i ∉ c.gcReclaimable) :
    c.gcOrphanTombstones.edge i = c.edge i := by
  by_cases h : c.gcReclaimable = []
  · rw [gc_of_nil h]
  · rw [← detach_edge (c := c) (g := c.gcReclaimable)]
    simp only [RadixCache.edge, gc_get h, hi, if_false, Option.map_id']

theorem gc_shrunk : Shrunk c c.gcOrphanTombstones where
  length := by
    by_cases h : c.gcReclaimable = []
    · rw [gc_of_nil h]
    · have hne : c.gcReclaimable.isEmpty = false := by simpa using h
      simp [gcOrphanTombstones, hne, detach]
  blockSize := by
    by_cases h : c.gcReclaimable = []
    · rw [gc_of_nil h]
    · have hne : c.gcReclaimable.isEmpty = false := by simpa using h
      simp [gcOrphanTombstones, hne, detach]
  child_le := fun h => (gc_child.mp h).1
  edge_eq := fun h => gc_edge (gc_child.mp h).2.1
  block_le := by rw [gc_block]; exact id
  fprint := by
    by_cases h : c.gcReclaimable = []
    · rw [gc_of_nil h]
    · rw [← (detach_shrunk (c := c) (g := c.gcReclaimable)).fprint]
      funext i
      simp only [RadixCache.fprint, gc_get h]
      cases (c.detach c.gcReclaimable).nodes[i]? with
      | none => rfl
      | some node => by_cases hi : i ∈ c.gcReclaimable <;> simp [hi, reclaimSlot]
  refs := by
    by_cases h : c.gcReclaimable = []
    · rw [gc_of_nil h]
    · rw [← (detach_shrunk (c := c) (g := c.gcReclaimable)).refs]
      funext i
      by_cases hi : i ∈ c.gcReclaimable
      · have hzero := (mem_gcReclaimable hi).2.2.2.1
        rw [← (detach_shrunk (c := c) (g := c.gcReclaimable)).refs] at hzero
        rw [hzero]
        simp only [RadixCache.refs, gc_get h, hi, if_true]
        cases (c.detach c.gcReclaimable).nodes[i]? <;> rfl
      · simp only [RadixCache.refs, gc_get h, hi, if_false, Option.map_id']

/-- A reclaimed slot is blank. -/
theorem gc_blank {f : Nat} (hf : f ∈ c.gcReclaimable) : c.gcOrphanTombstones.Blank f where
  fresh := ⟨(mem_gcReclaimable hf).1, fun i t hj => (gc_child.mp hj).2.1 hf⟩
  block := by rw [gc_block]; exact (mem_gcReclaimable hf).2.2.1
  refs := by rw [gc_shrunk.refs]; exact (mem_gcReclaimable hf).2.2.2.1
  childless := by
    intro t
    cases hj : c.gcOrphanTombstones.child f t with
    | none => rfl
    | some j => exact absurd hf (gc_child.mp hj).2.2

/-- Whatever lies below a reclaimed slot is reclaimed. -/
theorem gcReclaimable_below {i d : Nat} (hi : i ∈ c.gcReclaimable) (hd : c.trie.Below i d) :
    d ∈ c.gcReclaimable := by
  induction hd with
  | refl => exact hi
  | step hj _ ih => exact ih ((mem_gcReclaimable hi).2.2.2.2 _ _ hj)

/-- A collection keeps the path of every block. -/
theorem gc_retains {i : Nat} {p : List Token} (hi : c.trie.Reaches i p) (hb : c.block i ≠ none) :
    c.gcOrphanTombstones.trie.Reaches i p := by
  refine gc_shrunk.prunes.retains hi fun {a j t} hj hbelow => gc_child.mpr ⟨hj, fun hr => ?_,
    fun hr => ?_⟩
  · exact hb (mem_gcReclaimable (gcReclaimable_below hr hbelow)).2.2.1
  · exact hb (mem_gcReclaimable (gcReclaimable_below hr (.step hj hbelow))).2.2.1

/-- A collection keeps the tree sound. -/
theorem gc_sound (hs : c.Sound) : c.gcOrphanTombstones.Sound := by
  refine gc_shrunk.sound hs fun f hf => ?_
  rw [gc_freeNodes] at hf
  rcases List.mem_append.mp hf with hf | hf
  · exact Or.inl hf
  · exact Or.inr ⟨by rw [gc_shrunk.length]; exact (mem_gcReclaimable hf).2.1, gc_blank hf⟩

end Detach

/-! ## A whole eviction -/

section Evict

variable {c : RadixCache} {victim : RadixCache → List Nat → Option Nat} {n : Nat}

/-- The cache after the victim loop. -/
def taken (c : RadixCache) (victim : RadixCache → List Nat → Option Nat) (n : Nat) :
    RadixCache × List Nat × List BlockId := evictLoop victim n c [] []

theorem evictBy_zero : c.evictBy victim 0 = ([], c) := rfl

theorem evictBy_eq (hn : n ≠ 0) : c.evictBy victim n = ((c.taken victim n).2.2,
    ((c.taken victim n).1.detach (c.taken victim n).2.1).gcOrphanTombstones) := by
  rw [evictBy, if_neg hn]
  rfl

theorem taken_shrunk :
    Shrunk c (c.taken victim n).1 ∧ (c.taken victim n).1.freeNodes = c.freeNodes :=
  evictLoop_invariant (P := fun c' _ _ => Shrunk c c' ∧ c'.freeNodes = c.freeNodes)
    (fun h _ ht => ⟨h.1.trans ht.shrunk, ht.free.trans h.2⟩) (fun h _ _ => h) ⟨.refl c, rfl⟩

theorem evictBy_shrunk : Shrunk c (c.evictBy victim n).2 := by
  by_cases hn : n = 0
  · rw [hn, evictBy_zero]
    exact .refl c
  · rw [evictBy_eq hn]
    exact (taken_shrunk.1.trans detach_shrunk).trans gc_shrunk

/-- Every eviction keeps the tree sound. -/
theorem evictBy_sound (hs : c.Sound) : (c.evictBy victim n).2.Sound := by
  by_cases hn : n = 0
  · rw [hn, evictBy_zero]
    exact hs
  · rw [evictBy_eq hn]
    refine gc_sound ((taken_shrunk.1.trans detach_shrunk).sound hs fun f hf => Or.inl ?_)
    exact taken_shrunk.2 ▸ hf

/-- The reclaimed slots go on top of the free stack. -/
theorem evictBy_freeNodes (hn : n ≠ 0) : (c.evictBy victim n).2.freeNodes = c.freeNodes ++
    ((c.taken victim n).1.detach (c.taken victim n).2.1).gcReclaimable := by
  rw [evictBy_eq hn, gc_freeNodes]
  exact congrArg (· ++ _) taken_shrunk.2

end Evict

end Arle.PrefixCache.RadixCache
