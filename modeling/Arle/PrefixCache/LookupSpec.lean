import Arle.PrefixCache.Sound

/-!
# What a lookup does

A lookup follows the walk of the tokens from the root. It returns the blocks on the walk
and pins them; the shape of the tree stays as it is. `lookup_spec` is the result of
`lookup` on a sound cache, whatever the nodes on the walk hold, `lookupOrStage_spec` that
of `lookup_or_stage`, which ends at the first tombstone.
-/

namespace Arle.PrefixCache.RadixCache

open KvTier

/-! ## One step down -/

/-- The step takes the child whose edge the remaining tokens start with, if there is one. -/
theorem descend_spec {c : RadixCache} (hs : c.Sound) {a : Nat} (ha : a < c.nodes.length)
    (remaining : List Token) :
    (∃ t j, c.child a t = some j ∧ c.edge j <+: remaining ∧
      c.descend a remaining = some (some (j, (c.edge j).length))) ∨
    ((∀ t j, remaining.head? = some t → c.child a t = some j → ¬ c.edge j <+: remaining) ∧
      c.descend a remaining = some none) := by
  obtain ⟨na, hna⟩ : ∃ na, c.nodes[a]? = some na := ⟨_, List.getElem?_eq_getElem ha⟩
  cases remaining with
  | nil => exact Or.inr ⟨fun t j h => (by cases h), rfl⟩
  | cons t rest =>
    have hread : ∀ s, c.child a s = na.children.lookup s := by
      intro s
      simp [RadixCache.child, hna]
    cases hchild : na.children.lookup t with
    | none =>
      refine Or.inr ⟨fun s j hs' hj => ?_, by simp [descend, hna, hchild]⟩
      obtain rfl : t = s := Option.some.inj hs'
      rw [hread, hchild] at hj
      cases hj
    | some j =>
      have haj : c.child a t = some j := (hread t).trans hchild
      have hj := hs.child_lt haj
      have hnj : c.nodes[j]? = some c.nodes[j] := List.getElem?_eq_getElem hj
      have hedge : c.edge j = c.nodes[j].tokens := by simp [RadixCache.edge, hnj]
      by_cases hstart : c.edge j <+: t :: rest
      · refine Or.inl ⟨t, j, haj, hstart, ?_⟩
        have hlen := edgeMatchLen_eq_length_iff.mpr hstart
        rw [hedge] at hlen
        simp [descend, hna, hchild, childEdgeMatch, hnj, hlen, hedge]
      · refine Or.inr ⟨fun s j' hs' hj' => ?_, ?_⟩
        · obtain rfl : t = s := Option.some.inj hs'
          obtain rfl : j = j' := Option.some.inj (haj.symm.trans hj')
          exact hstart
        · have hlt := edgeMatchLen_lt_iff.mpr hstart
          rw [hedge] at hlt
          simp [descend, hna, hchild, childEdgeMatch, hnj, hlt]

/-- The step follows the walk. -/
theorem descend_walk_nil {c : RadixCache} (hs : c.Sound) {a : Nat} (ha : a < c.nodes.length)
    {remaining : List Token} (hw : c.trie.Walk a remaining []) :
    c.descend a remaining = some none := by
  rcases descend_spec hs ha remaining with ⟨t, j, haj, hstart, -⟩ | ⟨-, hnone⟩
  · cases hw with
    | stop hstop =>
      obtain ⟨e, he⟩ := hs.tree.edge_head haj
      obtain ⟨rest, rfl⟩ := hstart
      refine absurd (List.prefix_append (c.edge j) rest) (hstop t j ?_ haj)
      rw [show c.edge j = t :: e from he]
      rfl
  · exact hnone

theorem descend_walk_cons {c : RadixCache} (hs : c.Sound) {a j : Nat}
    (ha : a < c.nodes.length) {remaining : List Token} {js : List Nat}
    (hw : c.trie.Walk a remaining (j :: js)) :
    ∃ t rest, c.child a t = some j ∧ remaining = c.edge j ++ rest ∧ c.trie.Walk j rest js ∧
      c.descend a remaining = some (some (j, (c.edge j).length)) := by
  cases hw with
  | @next _ _ t rest _ haj hrest =>
    refine ⟨t, rest, haj, rfl, hrest, ?_⟩
    obtain ⟨e, he⟩ := hs.tree.edge_head haj
    rcases descend_spec hs ha (c.edge j ++ rest) with ⟨s, j', hj', hstart, hdesc⟩ | ⟨hstop, -⟩
    · obtain ⟨e', he'⟩ := hs.tree.edge_head hj'
      have hst : s = t := by
        rw [show c.edge j' = s :: e' from he', show c.edge j = t :: e from he] at hstart
        exact (List.cons_prefix_cons.mp hstart).1
      subst hst
      obtain rfl : j = j' := Option.some.inj (haj.symm.trans hj')
      exact hdesc
    · refine absurd (List.prefix_append (c.edge j) rest) (hstop t j ?_ haj)
      rw [show c.edge j = t :: e from he]
      rfl

/-! ## Pins -/

/-- `c'` is `c` with one more pin on every node of `js` that holds a block. -/
structure Pinned (js : List Nat) (c c' : RadixCache) : Prop extends SameShape c c' where
  refs : ∀ i, c'.refs i =
    if i ∈ js ∧ c.block i ≠ none then Word.wrappingAdd 32 (c.refs i) 1 else c.refs i

section Pinned

variable {c c' c'' : RadixCache}

theorem Pinned.of_touch {a now : Nat} (h : c.modifyNode a (Node.touch now) = some c') :
    Pinned [] c c' where
  toSameShape := touch_sameShape h
  refs i := by simp [touch_refs h]

theorem Pinned.trans {js ks : List Nat} (h : Pinned js c c') (h' : Pinned ks c' c'')
    (hdisj : ∀ i ∈ js, i ∉ ks) : Pinned (js ++ ks) c c'' where
  toSameShape := h.toSameShape.trans h'.toSameShape
  refs i := by
    rw [h'.refs, h.refs, h.block]
    by_cases hb : c.block i = none
    · simp [hb]
    · by_cases hi : i ∈ js
      · simp [hi, hdisj i hi, hb]
      · simp [hi, hb]

theorem Pinned.sound {js : List Nat} (h : Pinned js c c') (hs : c.Sound) : c'.Sound := by
  refine h.toSameShape.sound hs fun f hf => ?_
  rw [h.refs, if_neg fun hn => hn.2 (hs.free_block hf)]
  exact hs.free_refs hf

theorem hit_sameShape {j now : Nat} {keepalive : Option Nat}
    (h : c.modifyNode j (Node.hit now keepalive) = some c') : SameShape c c' :=
  modifyNode_sameShape (fun node => Node.shape_hit now keepalive node) h

theorem Pinned.of_hit {j now : Nat} {keepalive : Option Nat} (hj : c.block j ≠ none)
    (h : c.modifyNode j (Node.hit now keepalive) = some c') : Pinned [j] c c' where
  toSameShape := hit_sameShape h
  refs i := by
    rw [modifyNode_refs h]
    by_cases hi : i = j
    · subst hi
      have hlt := lt_length_of_block hj
      simp [hj, RadixCache.refs, hlt]
    · simp [hi]

theorem Pinned.of_blockless {j : Nat} (hj : c.block j = none) : Pinned [j] c c where
  toSameShape := .refl c
  refs i := by
    by_cases hi : i = j
    · simp [hi, hj]
    · simp [hi]

/-- The visit of a child: it is touched, and pinned when it holds a block. -/
theorem visit_spec {j : Nat} (now : Nat) (hj : j < c.nodes.length) :
    ∃ c₁, c.modifyNode j (Node.touch now) = some c₁ ∧ Pinned [] c c₁ ∧
      ∀ b, c₁.block j = some b → ∃ c₂,
        c₁.modifyNode j (Node.hit now c₁.softPinKeepaliveTicks) = some c₂ ∧ Pinned [j] c c₂ := by
  obtain ⟨c₁, hc₁⟩ := modifyNode_isSome (Node.touch now) hj
  have hpin := Pinned.of_touch hc₁
  refine ⟨c₁, hc₁, hpin, fun b hb => ?_⟩
  have hj₁ : j < c₁.nodes.length := by rw [hpin.length]; exact hj
  obtain ⟨c₂, hc₂⟩ := modifyNode_isSome (Node.hit now c₁.softPinKeepaliveTicks) hj₁
  exact ⟨c₂, hc₂, hpin.trans (Pinned.of_hit (by rw [hb]; simp) hc₂) (by simp)⟩

end Pinned

/-! ## The loop of a lookup -/

/-- A step of a walk: the child is found and visited, and the walk goes on from any cache that has
pinned it. -/
theorem walk_step {tokens : List Token} (now : Nat) {c : RadixCache} {a pos j : Nat}
    {js : List Nat} (hs : c.Sound) (ha : a < c.nodes.length)
    (hw : c.trie.Walk a (tokens.drop pos) (j :: js)) : ∃ c₁ c₂,
    c.modifyNode a (Node.touch now) = some c₁ ∧
    c₁.descend a (tokens.drop pos) = some (some (j, (c.edge j).length)) ∧
    c₁.modifyNode j (Node.touch now) = some c₂ ∧ Pinned [] c c₂ ∧ j < c.nodes.length ∧
    (∀ b, c₂.block j = some b → ∃ c₃,
      c₂.modifyNode j (Node.hit now c₂.softPinKeepaliveTicks) = some c₃ ∧ Pinned [j] c c₃) ∧
    ∀ c₃, Pinned [j] c c₃ → c₃.Sound ∧ j < c₃.nodes.length ∧
      c₃.trie.Walk j (tokens.drop (pos + (c.edge j).length)) js := by
  obtain ⟨c₁, hc₁⟩ := modifyNode_isSome (Node.touch now) ha
  have hpin₁ := Pinned.of_touch hc₁
  have hs₁ := hpin₁.sound hs
  obtain ⟨t, rest, haj, hrest, hwj, hdesc⟩ :=
    descend_walk_cons hs₁ (by rw [hpin₁.length]; exact ha) (hpin₁.trie ▸ hw)
  have hj : j < c.nodes.length := hpin₁.length ▸ hs₁.child_lt haj
  obtain ⟨c₂, hc₂, hpin₂, hhit⟩ := visit_spec now (hs₁.child_lt haj)
  rw [hpin₁.edge] at hdesc hrest
  have hdrop : tokens.drop (pos + (c.edge j).length) = rest := by
    rw [← List.drop_drop, hrest, List.drop_left]
  refine ⟨c₁, c₂, hc₁, hdesc, hc₂, hpin₁.trans hpin₂ (by simp), hj, fun b hb => ?_,
    fun c₃ hpin₃ => ⟨hpin₃.sound hs, hpin₃.length ▸ hj, ?_⟩⟩
  · obtain ⟨c₃, hc₃, hpin₃⟩ := hhit b hb
    exact ⟨c₃, hc₃, hpin₁.trans hpin₃ (by simp)⟩
  · rw [hdrop, hpin₃.trie, ← hpin₁.trie]
    exact hwj

theorem spell_cons_length (c : RadixCache) (j : Nat) (js : List Nat) :
    (c.trie.spell (j :: js)).length = (c.edge j).length + (c.trie.spell js).length := by
  rw [RadixTree.spell_cons, List.length_append, show c.trie.edge j = c.edge j from rfl]

theorem lookupLoop_spec (tokens : List Token) (now : Nat) {js : List Nat} {fuel a : Nat}
    (pos : Nat) {c : RadixCache} (acc : List BlockId) (hs : c.Sound) (ha : a < c.nodes.length)
    (hw : c.trie.Walk a (tokens.drop pos) js) (hfuel : js.length < fuel) :
    ∃ c', lookupLoop tokens now fuel c a pos acc =
      some (pos + (c.trie.spell js).length, acc ++ js.filterMap c.block, c') ∧
      Pinned js c c' := by
  induction js generalizing fuel c a pos acc with
  | nil =>
    obtain ⟨fuel, rfl⟩ : ∃ n, fuel = n + 1 := ⟨fuel - 1, by omega⟩
    obtain ⟨c₁, hc₁⟩ := modifyNode_isSome (Node.touch now) ha
    have hpin := Pinned.of_touch hc₁
    have hdesc : c₁.descend a (tokens.drop pos) = some none :=
      descend_walk_nil (hpin.sound hs) (by rw [hpin.length]; exact ha) (hpin.trie ▸ hw)
    exact ⟨c₁, by simp [lookupLoop, hc₁, hdesc], hpin⟩
  | cons j js ih =>
    obtain ⟨fuel, rfl⟩ : ∃ n, fuel = n + 1 := ⟨fuel - 1, by omega⟩
    obtain ⟨c₁, c₂, hc₁, hdesc, hc₂, hpin₂, hj, hhit, hgo⟩ := walk_step now hs ha hw
    have hnodup := RadixTree.Chain.nodup hs.tree hw.chain
    -- the rest of the walk, from a cache that has pinned `j`
    have rest_spec : ∀ (c₃ : RadixCache) (acc : List BlockId), Pinned [j] c c₃ →
        ∃ c', lookupLoop tokens now fuel c₃ j (pos + (c.edge j).length) acc =
          some (pos + (c.trie.spell (j :: js)).length, acc ++ js.filterMap c.block, c') ∧
          Pinned (j :: js) c c' := by
      intro c₃ acc hpin₃
      obtain ⟨hs₃, hj₃, hw₃⟩ := hgo c₃ hpin₃
      obtain ⟨c', hc', hpin'⟩ := ih _ acc hs₃ hj₃ hw₃ (by simpa using hfuel)
      refine ⟨c', ?_, ?_⟩
      · rw [hc', spell_cons_length, hpin₃.trie, hpin₃.block, Nat.add_assoc]
      · exact hpin₃.trans hpin' fun i hi => by
          rw [List.mem_singleton.mp hi]
          exact (List.nodup_cons.mp hnodup).1
    cases hblock : c₂.block j with
    | none =>
      have hcj : c.block j = none := by rw [← hpin₂.block, hblock]
      obtain ⟨c', hc', hpin'⟩ := rest_spec c₂ acc
        ((Pinned.of_blockless hcj).trans hpin₂ (by simp))
      exact ⟨c', by simp [lookupLoop, hc₁, hdesc, hc₂, hblock, hc', hcj], hpin'⟩
    | some b =>
      have hcj : c.block j = some b := by rw [← hpin₂.block, hblock]
      obtain ⟨c₃, hc₃, hpin₃⟩ := hhit b hblock
      obtain ⟨c', hc', hpin'⟩ := rest_spec c₃ (acc ++ [b]) hpin₃
      exact ⟨c', by simp [lookupLoop, hc₁, hdesc, hc₂, hblock, hc₃, hc', hcj], hpin'⟩

/-- A walk has no more nodes than the word has tokens. -/
theorem walk_length_le {c : RadixCache} (hs : c.Sound) {a : Nat} {w : List Token}
    {js : List Nat} (hw : c.trie.Walk a w js) : js.length ≤ w.length := by
  induction hw with
  | stop => exact Nat.zero_le _
  | @next _ j _ _ _ haj _ ih =>
    have := List.length_pos_of_ne_nil (hs.tree.edge_ne_nil haj)
    rw [List.length_cons, List.length_append]
    omega

theorem walk_length_lt_fuel {c : RadixCache} (hs : c.Sound) {a : Nat} {w : List Token}
    {js : List Nat} (hw : c.trie.Walk a w js) : js.length < c.walkFuel w := by
  have hle := walk_length_le hs hw
  have := Nat.le_mul_of_pos_right (w.length + 1) (show 0 < c.nodes.length + 3 by omega)
  exact Nat.lt_of_lt_of_le (by omega) this

/-- The blocks on a chain are at most the block windows it ends. -/
theorem chain_blocks_le {c : RadixCache} (hs : c.Sound) {a : Nat} {p : List Token}
    {js : List Nat} (ha : c.trie.Reaches a p) (hjs : c.trie.Chain a js) :
    p.length / c.blockSize + (js.filterMap c.block).length ≤
      (p ++ c.trie.spell js).length / c.blockSize := by
  induction hjs generalizing p with
  | nil => simp
  | @cons a j t js haj _ ih =>
    have hj := ha.step haj
    have hrest := ih hj
    have hpos := List.length_pos_of_ne_nil (hs.tree.edge_ne_nil haj)
    have hmono : p.length / c.blockSize ≤ (p ++ c.trie.edge j).length / c.blockSize :=
      Nat.div_le_div_right (by simp)
    rw [RadixTree.spell_cons, ← List.append_assoc]
    cases hblock : c.block j with
    | none =>
      rw [List.filterMap_cons_none hblock]
      omega
    | some b =>
      -- a block ends a window that the path above does not end
      obtain ⟨m, hm⟩ := hs.block_aligned hj (by rw [hblock]; simp)
      have hlt : p.length / c.blockSize < (p ++ c.trie.edge j).length / c.blockSize := by
        rw [Nat.div_lt_iff_lt_mul hs.blockSize_pos, hm,
          Nat.mul_div_cancel_left _ hs.blockSize_pos, Nat.mul_comm, ← hm, List.length_append]
        omega
      rw [List.filterMap_cons_some hblock, List.length_cons]
      omega

/-- `lookup` on a sound cache: it returns the blocks on the walk, and pins them. -/
theorem lookup_spec {c : RadixCache} (hs : c.Sound) {tokens : List Token} {js : List Nat}
    (hw : c.trie.Walk root tokens js) :
    ∃ c', c.lookup tokens =
      some (((js.filterMap c.block).length * c.blockSize, js.filterMap c.block), c') ∧
      Pinned js c c' := by
  have hs' : c.tick.2.Sound := (tick_sameShape c).sound hs fun f hf => hs.free_refs hf
  obtain ⟨c', hc', hpin⟩ := lookupLoop_spec tokens c.tick.1 0 [] hs' hs'.root_lt hw
    (walk_length_lt_fuel hs hw)
  have hbs := hs.blockSize_pos
  have hsize : c'.blockSize = c.blockSize := hpin.blockSize
  have hle := chain_blocks_le hs RadixTree.Reaches.root hw.chain
  rw [List.nil_append, List.length_nil, Nat.zero_div, Nat.zero_add,
    Nat.le_div_iff_mul_le hbs] at hle
  have hrounded : c'.roundedPrefixLen (c.trie.spell js).length (js.filterMap c.block).length =
      some ((js.filterMap c.block).length * c.blockSize) := by
    rw [roundedPrefixLen, hsize, if_neg (by omega), Nat.min_eq_left hle,
      Nat.mul_div_cancel _ hbs]
  have hloop : lookupLoop tokens c.tick.1 (c.tick.2.walkFuel tokens) c.tick.2 root 0 [] =
      some ((c.trie.spell js).length, js.filterMap c.block, c') := by
    refine hc'.trans ?_
    rw [Nat.zero_add, List.nil_append]
    rfl
  refine ⟨c', ?_, ?_⟩
  · unfold lookup
    rw [show c.tick = (c.tick.1, c.tick.2) from rfl]
    simp only [hloop, Option.bind_eq_bind, Option.bind_some, hrounded, hsize,
      Nat.mul_div_cancel _ hbs, Nat.lt_irrefl, if_false]
  · exact { (tick_sameShape c).trans hpin.toSameShape with refs := hpin.refs }

/-! ## Staged lookups -/

/-- What a staged lookup reports of a node: its block with the kind of the hit, or that only
a tombstone is left of it. -/
def nodeReport (node : Node) : Option LookupBlock :=
  match node.blockId with
  | some b => some ⟨some b, classifyHit node.tierLocation node.entryState⟩
  | none => if node.isTombstone then some ⟨none, .miss⟩ else none

/-- The report of slot `i`. -/
def report (c : RadixCache) (i : Nat) : Option LookupBlock := (c.nodes[i]?).bind nodeReport

/-- Slot `i` is a tombstone. -/
def tombstone (c : RadixCache) (i : Nat) : Bool :=
  ((c.nodes[i]?).map Node.isTombstone).getD false

/-- The part of a walk that a staged lookup follows: it ends at the first tombstone. -/
def upToTombstone (c : RadixCache) : List Nat → List Nat
  | [] => []
  | j :: js => if c.tombstone j then [j] else j :: c.upToTombstone js

/-- Both caches have the same reports and tombstones. -/
structure SameReport (c c' : RadixCache) : Prop where
  report : c'.report = c.report
  tombstone : c'.tombstone = c.tombstone

section SameReport

variable {c c' c'' : RadixCache}

theorem SameReport.trans (h : SameReport c c') (h' : SameReport c' c'') : SameReport c c'' :=
  ⟨h'.report.trans h.report, h'.tombstone.trans h.tombstone⟩

theorem SameReport.upToTombstone (h : SameReport c c') (js : List Nat) :
    c'.upToTombstone js = c.upToTombstone js := by
  induction js with
  | nil => rfl
  | cons j js ih => simp only [RadixCache.upToTombstone, h.tombstone, ih]

theorem modifyNode_sameReport {idx : Nat} {f : Node → Node}
    (hreport : ∀ node, nodeReport (f node) = nodeReport node)
    (htomb : ∀ node, (f node).isTombstone = node.isTombstone)
    (h : c.modifyNode idx f = some c') : SameReport c c' := by
  obtain ⟨node, hnode, rfl⟩ := modifyNode_eq_some.mp h
  refine ⟨funext fun i => ?_, funext fun i => ?_⟩
  · simp only [RadixCache.report]
    rw [getElem?_set_nodes hnode]
    split
    · rename_i hi
      rw [hi, hnode, Option.bind_some, Option.bind_some, hreport]
    · rfl
  · simp only [RadixCache.tombstone]
    rw [getElem?_set_nodes hnode]
    split
    · rename_i hi
      rw [hi, hnode, Option.map_some, Option.map_some, htomb]
    · rfl

theorem touch_sameReport {idx now : Nat} (h : c.modifyNode idx (Node.touch now) = some c') :
    SameReport c c' :=
  modifyNode_sameReport (f := Node.touch now) (fun _ => rfl) (fun _ => rfl) h

/-- A refreshed soft pin was there before. -/
theorem maybeRefreshSoftPin_isTombstone (now : Nat) (keepalive : Option Nat) (node : Node) :
    (node.maybeRefreshSoftPin now keepalive).isTombstone = node.isTombstone := by
  cases hpin : node.softPinUntil <;> cases keepalive <;>
    simp [Node.maybeRefreshSoftPin, Node.isTombstone, hpin]

theorem maybeRefreshSoftPin_report (now : Nat) (keepalive : Option Nat) (node : Node) :
    nodeReport (node.maybeRefreshSoftPin now keepalive) = nodeReport node := by
  unfold nodeReport
  rw [maybeRefreshSoftPin_isTombstone]
  cases hpin : node.softPinUntil <;> cases keepalive <;>
    simp only [Node.maybeRefreshSoftPin, hpin]

theorem hit_isTombstone (now : Nat) (keepalive : Option Nat) (node : Node) :
    (node.hit now keepalive).isTombstone = node.isTombstone := by
  unfold Node.hit
  rw [maybeRefreshSoftPin_isTombstone]
  rfl

theorem hit_report (now : Nat) (keepalive : Option Nat) (node : Node) :
    nodeReport (node.hit now keepalive) = nodeReport node := by
  unfold Node.hit
  rw [maybeRefreshSoftPin_report]
  rfl

theorem hit_sameReport {idx now : Nat} {keepalive : Option Nat}
    (h : c.modifyNode idx (Node.hit now keepalive) = some c') : SameReport c c' :=
  modifyNode_sameReport (hit_report now keepalive) (hit_isTombstone now keepalive) h

end SameReport

theorem upToTombstone_isPrefix (c : RadixCache) (js : List Nat) : c.upToTombstone js <+: js := by
  induction js with
  | nil => exact List.prefix_rfl
  | cons j js ih =>
    unfold upToTombstone
    split
    · exact List.cons_prefix_cons.mpr ⟨rfl, List.nil_prefix⟩
    · exact List.cons_prefix_cons.mpr ⟨rfl, ih⟩

theorem report_blockId (c : RadixCache) (i : Nat) :
    (c.report i).bind LookupBlock.blockId = c.block i := by
  unfold report block
  cases hnode : c.nodes[i]? with
  | none => rfl
  | some node =>
    cases hb : node.blockId with
    | none =>
      simp only [Option.bind_some, nodeReport, hb]
      split <;> rfl
    | some b => simp [nodeReport, hb]

/-- The loop of a staged lookup reports the nodes of the walk up to the first tombstone, and
pins them. -/
theorem lookupOrStageLoop_spec (tokens : List Token) (heuristics : LookupHeuristics) (now : Nat)
    {js : List Nat} {fuel a : Nat} (pos : Nat) {c : RadixCache} (acc : List LookupBlock)
    (advised : Bool) (hs : c.Sound) (ha : a < c.nodes.length)
    (hw : c.trie.Walk a (tokens.drop pos) js)
    (hfuel : js.length < fuel) :
    ∃ advised' c', lookupOrStageLoop tokens heuristics now fuel c a pos acc advised =
        some (pos + (c.trie.spell (c.upToTombstone js)).length,
          acc ++ (c.upToTombstone js).filterMap c.report, advised', c') ∧
      Pinned (c.upToTombstone js) c c' := by
  induction js generalizing fuel c a pos acc advised with
  | nil =>
    obtain ⟨fuel, rfl⟩ : ∃ n, fuel = n + 1 := ⟨fuel - 1, by omega⟩
    obtain ⟨c₁, hc₁⟩ := modifyNode_isSome (Node.touch now) ha
    have hpin := Pinned.of_touch hc₁
    have hdesc : c₁.descend a (tokens.drop pos) = some none :=
      descend_walk_nil (hpin.sound hs) (by rw [hpin.length]; exact ha) (hpin.trie ▸ hw)
    exact ⟨advised, c₁, by simp [lookupOrStageLoop, hc₁, hdesc, upToTombstone], hpin⟩
  | cons j js ih =>
    obtain ⟨fuel, rfl⟩ : ∃ n, fuel = n + 1 := ⟨fuel - 1, by omega⟩
    obtain ⟨c₁, c₂, hc₁, hdesc, hc₂, hpin₂, hj, hhit, hgo⟩ := walk_step now hs ha hw
    have hsame : SameReport c c₂ := (touch_sameReport hc₁).trans (touch_sameReport hc₂)
    have hnodup := RadixTree.Chain.nodup hs.tree hw.chain
    obtain ⟨child, hchild⟩ : ∃ child, c₂.nodes[j]? = some child :=
      ⟨_, List.getElem?_eq_getElem (by rw [hpin₂.length]; exact hj)⟩
    have hblock : c.block j = child.blockId := by
      rw [← hpin₂.block]
      simp [RadixCache.block, hchild]
    have hreport : c.report j = nodeReport child := by
      rw [← hsame.report]
      simp [report, hchild]
    have htomb : c.tombstone j = child.isTombstone := by
      rw [← hsame.tombstone]
      simp [tombstone, hchild]
    -- the rest of the walk, from a cache that has pinned `j`
    have rest_spec : ∀ (c₃ : RadixCache) (acc : List LookupBlock) (advised : Bool),
        Pinned [j] c c₃ → SameReport c c₃ → ∃ advised' c',
          lookupOrStageLoop tokens heuristics now fuel c₃ j (pos + (c.edge j).length) acc
            advised = some (pos + (c.trie.spell (j :: c.upToTombstone js)).length,
              acc ++ (c.upToTombstone js).filterMap c.report, advised', c') ∧
          Pinned (j :: c.upToTombstone js) c c' := by
      intro c₃ acc advised hpin₃ hsame₃
      obtain ⟨hs₃, hj₃, hw₃⟩ := hgo c₃ hpin₃
      obtain ⟨advised', c', hc', hpin'⟩ := ih _ acc advised hs₃ hj₃ hw₃ (by simpa using hfuel)
      rw [hsame₃.upToTombstone] at hc' hpin'
      refine ⟨advised', c', ?_, ?_⟩
      · rw [hc', spell_cons_length, hpin₃.trie, hsame₃.report, Nat.add_assoc]
      · refine hpin₃.trans hpin' fun i hi => ?_
        rw [List.mem_singleton.mp hi]
        exact fun h => (List.nodup_cons.mp hnodup).1 ((c.upToTombstone_isPrefix js).subset h)
    cases hb : child.blockId with
    | some b =>
      have hcj : c.block j = some b := hblock.trans hb
      have hnot : c.tombstone j = false := by
        rw [htomb]
        simp [Node.isTombstone, hb]
      obtain ⟨c₃, hc₃, hpin₃⟩ := hhit b ((congrFun hpin₂.block j).trans hcj)
      obtain ⟨advised', c', hc', hpin'⟩ := rest_spec c₃
        (acc ++ [⟨some b, classifyHit child.tierLocation child.entryState⟩])
        (advised || heuristics.adviseRecompute
          (classifyHit child.tierLocation child.entryState) c₃.blockSize
          (max child.byteLen (c₃.blockSize % 2 ^ 32))) hpin₃
        (hsame.trans (hit_sameReport hc₃))
      have hrep : c.report j =
          some ⟨some b, classifyHit child.tierLocation child.entryState⟩ := by
        rw [hreport]
        simp [nodeReport, hb]
      refine ⟨advised', c', ?_, ?_⟩
      · simp only [lookupOrStageLoop, hc₁, hdesc, hc₂, hchild, hb, hc₃, hc', Option.bind_eq_bind,
          Option.bind_some, upToTombstone, hnot, Bool.false_eq_true, if_false,
          List.filterMap_cons_some hrep, List.append_assoc, List.singleton_append]
      · simp only [upToTombstone, hnot, Bool.false_eq_true, if_false]
        exact hpin'
    | none =>
      have hcj : c.block j = none := hblock.trans hb
      have hpin : Pinned [j] c c₂ := (Pinned.of_blockless hcj).trans hpin₂ (by simp)
      by_cases hdead : child.isTombstone = true
      · -- a tombstone ends the walk
        have hrep : c.report j = some ⟨none, .miss⟩ := by
          rw [hreport]
          simp [nodeReport, hb, hdead]
        refine ⟨advised, c₂, ?_, ?_⟩
        · simp [lookupOrStageLoop, hc₁, hdesc, hc₂, hchild, hb, hdead, upToTombstone, htomb,
            hrep, show c.trie.edge j = c.edge j from rfl]
        · simp only [upToTombstone, htomb, hdead, if_true]
          exact hpin
      · have hrep : c.report j = none := by
          rw [hreport]
          simp [nodeReport, hb, hdead]
        obtain ⟨advised', c', hc', hpin'⟩ := rest_spec c₂ acc advised hpin hsame
        refine ⟨advised', c', ?_, ?_⟩
        · simp only [lookupOrStageLoop, hc₁, hdesc, hc₂, hchild, hb, hdead, hc',
            Option.bind_eq_bind, Option.bind_some, upToTombstone, htomb, Bool.false_eq_true,
            if_false, List.filterMap_cons_none hrep]
        · simp only [upToTombstone, htomb, hdead, Bool.false_eq_true, if_false]
          exact hpin'

/-- The number of reports that are no miss. -/
def hitCount (blocks : List LookupBlock) : Nat :=
  (blocks.filter fun block => decide (block.hitKind ≠ .miss)).length

/-- A node whose report is no miss holds a block. -/
theorem hitCount_report_le (c : RadixCache) (js : List Nat) :
    hitCount (js.filterMap c.report) ≤ (js.filterMap c.block).length := by
  induction js with
  | nil => exact Nat.le_refl 0
  | cons j js ih =>
    have hblock := c.report_blockId j
    cases hreport : c.report j with
    | none =>
      rw [hreport, Option.bind_none] at hblock
      rw [List.filterMap_cons_none hreport, List.filterMap_cons_none hblock.symm]
      exact ih
    | some r =>
      rw [List.filterMap_cons_some hreport]
      by_cases hmiss : r.hitKind = .miss
      · have hskip : hitCount (r :: js.filterMap c.report) = hitCount (js.filterMap c.report) := by
          simp [hitCount, hmiss]
        rw [hskip, List.filterMap_cons]
        split
        · exact ih
        · exact Nat.le_succ_of_le ih
      · have hcount : hitCount (r :: js.filterMap c.report) =
            hitCount (js.filterMap c.report) + 1 := by
          simp [hitCount, hmiss]
        obtain ⟨b, hb⟩ : ∃ b, c.block j = some b := by
          obtain ⟨node, hnode, hrep⟩ := Option.bind_eq_some_iff.mp hreport
          cases hbid : node.blockId with
          | none =>
            simp only [nodeReport, hbid] at hrep
            split at hrep
            · cases hrep
              exact absurd rfl hmiss
            · cases hrep
          | some b => exact ⟨b, block_eq_some.mpr ⟨node, hnode, hbid⟩⟩
        rw [hcount, List.filterMap_cons_some hb, List.length_cons]
        exact Nat.succ_le_succ ih

/-- `lookup_or_stage` on a sound cache: it reports, and pins, the walk up to its first
tombstone, and counts every block that is no miss. -/
theorem lookupOrStage_reports {c : RadixCache} (hs : c.Sound) {tokens : List Token}
    (heuristics : LookupHeuristics) {js : List Nat} (hw : c.trie.Walk root tokens js) :
    ∃ outcome c', c.lookupOrStage tokens heuristics = some (outcome, c') ∧
      outcome.blocks = (c.upToTombstone js).filterMap c.report ∧
      outcome.matchedLen = hitCount outcome.blocks * c.blockSize ∧
      Pinned (c.upToTombstone js) c c' := by
  have hs' : c.tick.2.Sound := (tick_sameShape c).sound hs fun f hf => hs.free_refs hf
  obtain ⟨advised, c', hc', hpin⟩ := lookupOrStageLoop_spec
    tokens heuristics c.tick.1 0 [] false hs' hs'.root_lt hw (walk_length_lt_fuel hs hw)
  have hsame : SameReport c c.tick.2 := ⟨rfl, rfl⟩
  rw [hsame.upToTombstone] at hpin
  have hbs := hs.blockSize_pos
  have hsize : c'.blockSize = c.blockSize := hpin.blockSize
  have hchain : c.trie.Chain root (c.upToTombstone js) := by
    obtain ⟨rest, hrest⟩ := c.upToTombstone_isPrefix js
    exact (hrest.symm ▸ hw.chain).left
  have hle := chain_blocks_le hs RadixTree.Reaches.root hchain
  rw [List.nil_append, List.length_nil, Nat.zero_div, Nat.zero_add] at hle
  have hcount := (Nat.le_div_iff_mul_le hbs).mp
    ((hitCount_report_le c (c.upToTombstone js)).trans hle)
  have hrounded : c'.roundedPrefixLen (c.trie.spell (c.upToTombstone js)).length
      (hitCount ((c.upToTombstone js).filterMap c.report)) =
        some (hitCount ((c.upToTombstone js).filterMap c.report) * c.blockSize) := by
    rw [roundedPrefixLen, hsize, if_neg (by omega), Nat.min_eq_left hcount,
      Nat.mul_div_cancel _ hbs]
  have hloop : lookupOrStageLoop tokens heuristics c.tick.1 (c.tick.2.walkFuel tokens) c.tick.2
      root 0 [] false = some ((c.trie.spell (c.upToTombstone js)).length,
        (c.upToTombstone js).filterMap c.report, advised, c') := by
    refine hc'.trans ?_
    rw [Nat.zero_add, List.nil_append, hsame.upToTombstone, hsame.report]
    rfl
  refine ⟨⟨hitCount ((c.upToTombstone js).filterMap c.report) * c.blockSize,
    (c.upToTombstone js).filterMap c.report, advised⟩, c', ?_, rfl, rfl, ?_⟩
  · unfold lookupOrStage
    rw [show c.tick = (c.tick.1, c.tick.2) from rfl]
    simp only [hloop, Option.bind_eq_bind, Option.bind_some, ← hitCount.eq_1, hrounded]
  · exact { (tick_sameShape c).trans hpin.toSameShape with refs := hpin.refs }

/-- `lookup_or_stage` on a sound cache: it returns, and pins, the blocks on a part of the
walk. -/
theorem lookupOrStage_spec {c : RadixCache} (hs : c.Sound) {tokens : List Token}
    (heuristics : LookupHeuristics) {js : List Nat} (hw : c.trie.Walk root tokens js) :
    ∃ js' outcome c', js' <+: js ∧ c.lookupOrStage tokens heuristics = some (outcome, c') ∧
      outcome.blockIds = js'.filterMap c.block ∧ Pinned js' c c' := by
  obtain ⟨outcome, c', hc', hblocks, -, hpin⟩ := lookupOrStage_reports hs heuristics hw
  refine ⟨c.upToTombstone js, outcome, c', c.upToTombstone_isPrefix js, hc', ?_, hpin⟩
  rw [LookupOutcome.blockIds, hblocks, List.filterMap_filterMap]
  exact congrArg (fun f => List.filterMap f _) (funext c.report_blockId)

/-! ## Releases -/

theorem release_sameShape (c : RadixCache) (blocks : List BlockId) :
    SameShape c (c.release blocks) := by
  refine .of_nodes (fun i => ?_) rfl rfl rfl
  simp only [release, decRefsByBlockId, List.getElem?_map, Option.map_map]
  congr 1
  funext node
  simp only [Function.comp_apply]
  split
  · split <;> rfl
  · rfl

/-- A release takes one pin from every pinned node whose block is released. -/
theorem release_refs_of_mem {c : RadixCache} {blocks : List BlockId} {i : Nat} {b : BlockId}
    (hi : c.block i = some b) (hb : b ∈ blocks) : (c.release blocks).refs i = c.refs i - 1 := by
  obtain ⟨node, hnode, hblock⟩ := block_eq_some.mp hi
  simp only [release, decRefsByBlockId, refs, List.getElem?_map, hnode, Option.map_some, hblock,
    hb, true_and]
  by_cases h : 0 < node.refCount
  · simp [h]
  · simp [h]
    omega

theorem release_refs_of_not_mem {c : RadixCache} {blocks : List BlockId} {i : Nat}
    (hi : ∀ b ∈ blocks, c.block i ≠ some b) : (c.release blocks).refs i = c.refs i := by
  simp only [release, decRefsByBlockId, refs, List.getElem?_map]
  cases hnode : c.nodes[i]? with
  | none => rfl
  | some node =>
    cases hblock : node.blockId with
    | none => simp [hblock]
    | some b =>
      have hb : b ∉ blocks := fun hb => hi b hb (block_eq_some.mpr ⟨node, hnode, hblock⟩)
      simp [hblock, hb]

theorem release_sound {c : RadixCache} (hs : c.Sound) (blocks : List BlockId) :
    (c.release blocks).Sound := by
  refine (release_sameShape c blocks).sound hs fun f hf => ?_
  rw [release_refs_of_not_mem fun b _ => by rw [hs.free_block hf]; simp]
  exact hs.free_refs hf

end Arle.PrefixCache.RadixCache
