import Mathlib
import Arle.PrefixCache.Refinement

/-!
# Gaps in a staged lookup

`lookup_or_stage` and `lookup_session_prefix_or_stage` count every block of the path that
is not a miss, also those below one that is. The length they report is that of the leading
run of hits exactly if no block that is ready lies below one that is not, along the part of
the path they follow (`staged_run_law`).
-/

namespace Arle.PrefixCache

/-! ## Counts and leading runs -/

section Runs

variable {α : Type} {p : α → Bool}

/-- All elements that satisfy `p` stand in front exactly if each of them has only such
elements before it. -/
theorem length_filter_eq_takeWhile_iff (l : List α) :
    (l.filter p).length = (l.takeWhile p).length ↔ l.Pairwise fun x y => p y → p x := by
  induction l with
  | nil => simp
  | cons a l ih =>
    rw [List.pairwise_cons]
    by_cases ha : p a = true
    · rw [List.filter_cons_of_pos ha, List.takeWhile_cons_of_pos ha, List.length_cons,
        List.length_cons, Nat.add_right_cancel_iff, ih]
      simp [ha]
    · rw [List.filter_cons_of_neg ha, List.takeWhile_cons_of_neg ha, List.length_nil,
        List.length_eq_zero_iff, List.filter_eq_nil_iff]
      constructor
      · intro hnone
        exact ⟨fun b hb hpb => absurd hpb (hnone b hb),
          List.pairwise_of_forall_mem_list fun x _ y hy hpy => absurd hpy (hnone y hy)⟩
      · rintro ⟨hall, -⟩ b hb hpb
        exact ha (hall b hb hpb)

theorem pairwise_iff_before {R : α → α → Prop} (l : List α) :
    l.Pairwise R ↔ ∀ ks j ls, l = ks ++ j :: ls → ∀ i ∈ ks, R i j := by
  constructor
  · rintro h ks j ls rfl i hi
    exact (List.pairwise_append.mp h).2.2 i hi j List.mem_cons_self
  · intro h
    induction l using List.reverseRecOn with
    | nil => exact .nil
    | append_singleton l a ih =>
      refine List.pairwise_append.mpr ⟨ih fun ks j ls hl => ?_, List.pairwise_singleton R a, ?_⟩
      · exact h ks j (ls ++ [a]) (by simp [hl])
      · intro i hi j hj
        rw [List.mem_singleton.mp hj]
        exact h l a [] rfl i hi

end Runs

namespace RadixCache

open KvTier

/-- The length of the longest leading run of reports that are no miss. -/
def leadingRun (blocks : List LookupBlock) : Nat :=
  (blocks.takeWhile fun block => decide (block.hitKind ≠ .miss)).length

/-! ## The path above the tombstones -/

/-- The readiness of slot `i`. -/
def entryState (c : RadixCache) (i : Nat) : Option IndexEntryState :=
  (c.nodes[i]?).map Node.entryState

/-- The session of slot `i`. -/
def session (c : RadixCache) (i : Nat) : Option SessionId := (c.nodes[i]?).bind Node.sessionId

/-- Slot `i` holds a block that is ready. -/
def ReadyBlock (c : RadixCache) (i : Nat) : Prop :=
  c.block i ≠ none ∧ c.entryState i = some .ready

/-- No node that a part of `w` leads to is a tombstone. -/
def Passes (c : RadixCache) (w : List Token) : Prop :=
  ∀ ⦃k q⦄, c.trie.Reaches k q → q ≠ [] → q <+: w → c.tombstone k = false

/-- Along `w`, down to the first tombstone, no ready block lies below a block that is not
ready. -/
def GapFree (c : RadixCache) (w : List Token) : Prop :=
  ∀ ⦃i p j r⦄, c.trie.Reaches j r → r <+: w → c.Passes r → c.ReadyBlock j →
    c.trie.Reaches i p → p <+: r → c.block i ≠ none → c.ReadyBlock i

/-- The path to each block of the session that `w` leads to is gap free. -/
def SessionGapFree (c : RadixCache) (sessionId : SessionId) (w : List Token) : Prop :=
  ∀ ⦃s r⦄, c.trie.Reaches s r → r <+: w → c.Passes r → c.block s ≠ none →
    c.session s = some sessionId → c.GapFree r

/-- The nodes of a walk above its first tombstone. -/
def live (c : RadixCache) (js : List Nat) : List Nat := js.takeWhile fun j => !c.tombstone j

section Path

variable {c : RadixCache} {w : List Token} {js : List Nat}

theorem GapFree.mono {r : List Token} (h : c.GapFree w) (hr : r <+: w) : c.GapFree r :=
  fun _ _ _ _ hj hjr => h hj (hjr.trans hr)

theorem live_not_tombstone (js : List Nat) {k : Nat} (hk : k ∈ c.live js) :
    c.tombstone k = false := by
  have := List.mem_takeWhile_imp hk
  simpa using this

theorem live_isPrefix (c : RadixCache) (js : List Nat) : c.live js <+: js :=
  List.takeWhile_prefix _

theorem upToTombstone_eq_self (h : ∀ k ∈ js, c.tombstone k = false) :
    c.upToTombstone js = js := by
  induction js with
  | nil => rfl
  | cons j js ih =>
    rw [upToTombstone, h j List.mem_cons_self, ih fun k hk => h k (List.mem_cons_of_mem j hk)]
    rfl

/-- A part of the walk without tombstones is live. -/
theorem isPrefix_live {ks : List Nat} (h : ∀ k ∈ ks, c.tombstone k = false) (ls : List Nat) :
    ks <+: c.live (ks ++ ls) := by
  unfold live
  rw [List.takeWhile_append_of_pos fun k hk => by simp [h k hk]]
  exact List.prefix_append _ _

theorem report_of_block {i : Nat} (hi : c.block i ≠ none) :
    ∃ r, c.report i = some r ∧ (r.hitKind ≠ .miss ↔ c.entryState i = some .ready) := by
  obtain ⟨b, hb⟩ := Option.ne_none_iff_exists'.mp hi
  obtain ⟨node, hnode, hblock⟩ := block_eq_some.mp hb
  refine ⟨⟨some b, classifyHit node.tierLocation node.entryState⟩, ?_, ?_⟩
  · simp [report, hnode, nodeReport, hblock]
  · rw [Ne, classifyHit_miss_iff, not_not, entryState, hnode, Option.map_some,
      Option.some.injEq]

theorem report_of_blockless {i : Nat} (hi : c.block i = none) (hdead : c.tombstone i = false) :
    c.report i = none := by
  unfold report
  cases hnode : c.nodes[i]? with
  | none => rfl
  | some node =>
    have hb : node.blockId = none := by simpa [block, hnode] using hi
    have hd : node.isTombstone = false := by simpa [tombstone, hnode] using hdead
    simp [nodeReport, hb, hd]

theorem report_of_tombstone {i : Nat} (hi : c.tombstone i = true) :
    c.report i = some ⟨none, .miss⟩ := by
  unfold tombstone at hi
  cases hnode : c.nodes[i]? with
  | none => simp [hnode] at hi
  | some node =>
    have hd : node.isTombstone = true := by simpa [hnode] using hi
    have hb : node.blockId = none := by
      simp only [Node.isTombstone, Bool.and_eq_true, Option.isNone_iff_eq_none] at hd
      exact hd.1
    simp [report, hnode, nodeReport, hb, hd]

/-- The reports of a walk: those of its live part, and a miss for a tombstone. -/
theorem reports_upToTombstone (c : RadixCache) (js : List Nat) :
    ∃ misses, (c.upToTombstone js).filterMap c.report = (c.live js).filterMap c.report ++ misses ∧
      ∀ block ∈ misses, block.hitKind = .miss := by
  induction js with
  | nil => exact ⟨[], rfl, by simp⟩
  | cons j js ih =>
    by_cases hdead : c.tombstone j = true
    · refine ⟨[⟨none, .miss⟩], ?_, by simp⟩
      simp [upToTombstone, live, hdead, report_of_tombstone hdead]
    · obtain ⟨misses, hmisses, hall⟩ := ih
      refine ⟨misses, ?_, hall⟩
      have hlive : c.live (j :: js) = j :: c.live js := by simp [live, hdead]
      rw [upToTombstone, if_neg hdead, hlive, List.filterMap_cons, List.filterMap_cons, hmisses]
      cases c.report j <;> rfl

theorem passes_iff (hs : c.Sound) (hw : c.trie.Walk root w js) :
    c.Passes w ↔ ∀ k ∈ js, c.tombstone k = false := by
  constructor
  · intro h k hk
    obtain ⟨hroot, p, hp, hpw⟩ := (hw.mem_iff hs.tree).mp hk
    refine h hp ?_ hpw
    rintro rfl
    exact hroot (RadixTree.reaches_node_unique hs.tree hp RadixTree.Reaches.root)
  · intro h k q hk hq hqw
    refine h k ((hw.mem_iff hs.tree).mpr ⟨?_, q, hk, hqw⟩)
    rintro rfl
    exact hq (RadixTree.reaches_path_unique hs.tree hk RadixTree.Reaches.root)

/-- A node with a block lies on the walk of every word that its own word starts. -/
theorem mem_walk_of_block (hs : c.Sound) (hw : c.trie.Walk root w js) {i : Nat} {p : List Token}
    (hi : c.trie.Reaches i p) (hp : p <+: w) (hblock : c.block i ≠ none) : i ∈ js := by
  refine (hw.mem_iff hs.tree).mpr ⟨?_, p, hi, hp⟩
  rintro rfl
  exact hblock hs.root_block

theorem gapFree_iff (hs : c.Sound) (hw : c.trie.Walk root w js) :
    c.GapFree w ↔ ((c.live js).filterMap c.report).Pairwise
      fun x y => decide (y.hitKind ≠ .miss) → decide (x.hitKind ≠ .miss) := by
  rw [List.pairwise_filterMap, pairwise_iff_before]
  simp only [decide_eq_true_eq]
  constructor
  · intro h ks j ls hlive i hi x hx y hy hyhit
    have hsplit : c.live js = (ks ++ [j]) ++ ls := by rw [hlive, List.append_assoc]; rfl
    have hmem : ∀ k ∈ ks ++ [j], c.tombstone k = false := fun k hk =>
      live_not_tombstone js (hsplit ▸ List.mem_append_left ls hk)
    obtain ⟨rest, hjs⟩ := (List.prefix_append _ ls).trans (hsplit ▸ c.live_isPrefix js)
    have hchain : c.trie.Chain root (ks ++ [j]) := (hjs ▸ hw.chain).left
    have hwalk := hchain.walk
    have hspell : c.trie.spell (ks ++ [j]) <+: w := by
      refine List.IsPrefix.trans ?_ hw.spell_prefix
      rw [← hjs, RadixTree.spell_append _ (ks ++ [j])]
      exact List.prefix_append _ _
    have hblock : ∀ k ∈ ks ++ [j], ∀ r, c.report k = some r → c.block k ≠ none := by
      intro k hk r hr hnone
      rw [report_of_blockless hnone (hmem k hk)] at hr
      cases hr
    have hblockj := hblock j (by simp) y hy
    have hblocki := hblock i (by simp [hi]) x hx
    -- the node of the hit is ready, so the block above it is
    have hready : c.ReadyBlock j := by
      obtain ⟨r, hr, hiff⟩ := report_of_block hblockj
      rw [hy, Option.some.injEq] at hr
      exact ⟨hblockj, hiff.mp (hr ▸ hyhit)⟩
    have hj : c.trie.Reaches j (c.trie.spell (ks ++ [j])) := by
      simpa using RadixTree.Reaches.root.chain hchain (by rw [List.getLast_cons (by simp)]; simp)
    obtain ⟨-, p, hip, hp⟩ := (hwalk.mem_iff hs.tree).mp (List.mem_append_left [j] hi)
    have hstate := (h hj hspell ((passes_iff hs hwalk).mpr hmem) hready hip hp hblocki).2
    obtain ⟨r, hr, hiff⟩ := report_of_block hblocki
    rw [hx, Option.some.injEq] at hr
    exact hr ▸ hiff.mpr hstate
  · intro h i p j r hj hjw hpass hready hi hpr hblock
    obtain ⟨ks, ls, rfl, hchain, rfl, hlast⟩ := hw.exists_split hs.tree hj hjw
    have hwalk := hchain.walk
    have hmem := (passes_iff hs hwalk).mp hpass
    obtain ⟨ks, rfl⟩ : ∃ ks', ks = ks' ++ [j] := by
      refine hlast.resolve_left fun hroot => hready.1 ?_
      rw [hroot.2]
      exact hs.root_block
    obtain ⟨ls', hls'⟩ := isPrefix_live hmem ls
    have himem := mem_walk_of_block hs hwalk hi hpr hblock
    rcases List.mem_append.mp himem with hik | hij
    · obtain ⟨x, hx, hxiff⟩ := report_of_block hblock
      obtain ⟨y, hy, hyiff⟩ := report_of_block hready.1
      refine ⟨hblock, hxiff.mp (h ks j ls' ?_ i hik x hx y hy (hyiff.mpr hready.2))⟩
      rw [← hls', List.append_assoc]
      rfl
    · rw [List.mem_singleton.mp hij]
      exact hready

/-- What a staged lookup counts along a walk is its leading run exactly if the walk is gap
free. -/
theorem hitCount_eq_leadingRun_iff (hs : c.Sound) (hw : c.trie.Walk root w js) :
    hitCount ((c.upToTombstone js).filterMap c.report) =
      leadingRun ((c.upToTombstone js).filterMap c.report) ↔ c.GapFree w := by
  obtain ⟨misses, hreports, hmiss⟩ := c.reports_upToTombstone js
  rw [gapFree_iff hs hw, hitCount, leadingRun, length_filter_eq_takeWhile_iff, hreports,
    List.pairwise_append]
  constructor
  · exact fun h => h.1
  · intro h
    refine ⟨h, List.pairwise_of_forall_mem_list fun x _ y hy => ?_, fun x _ y hy => ?_⟩ <;>
      simp [hmiss y hy]

end Path

/-! ## Lookups of a session -/

/-- Slot `i` holds a block of the session. -/
def SessionBlock (c : RadixCache) (sessionId : SessionId) (i : Nat) : Prop :=
  c.block i ≠ none ∧ c.session i = some sessionId

/-- The nodes of a list that hold a block. -/
def blockNodes (c : RadixCache) (js : List Nat) : List Nat :=
  js.filter fun j => (c.block j).isSome

section Session

variable {c : RadixCache} {sessionId : SessionId} {tokens : List Token}

theorem blockNodes_append (c : RadixCache) (js ks : List Nat) :
    c.blockNodes (js ++ ks) = c.blockNodes js ++ c.blockNodes ks := List.filter_append _ _

theorem length_blockNodes (c : RadixCache) (js : List Nat) :
    (c.blockNodes js).length = (js.filterMap c.block).length := by
  rw [List.length_filterMap_eq_countP, List.countP_eq_length_filter]
  rfl

/-- Where the walk has found the deepest block of the session: the number of blocks and of
tokens that lead to it, or the values from before if there is none. -/
def LastSession (c : RadixCache) (sessionId : SessionId) (path : List Nat)
    (count pos lastCount lastPos lastCount' lastPos' : Nat) : Prop :=
  ((∀ k ∈ path, ¬ c.SessionBlock sessionId k) ∧ lastCount' = lastCount ∧ lastPos' = lastPos) ∨
  ∃ ls s rs, path = ls ++ s :: rs ∧ c.SessionBlock sessionId s ∧
    (∀ k ∈ rs, ¬ c.SessionBlock sessionId k) ∧
    lastCount' = count + (c.blockNodes (ls ++ [s])).length ∧
    lastPos' = pos + (c.trie.spell (ls ++ [s])).length

theorem LastSession.cons_of_found {path : List Nat} {j count pos count' pos' : Nat}
    {lastCount lastPos : Nat}
    (h : ∃ ls s rs, path = ls ++ s :: rs ∧ c.SessionBlock sessionId s ∧
      (∀ k ∈ rs, ¬ c.SessionBlock sessionId k) ∧
      count' = count + (c.blockNodes [j]).length + (c.blockNodes (ls ++ [s])).length ∧
      pos' = pos + (c.edge j).length + (c.trie.spell (ls ++ [s])).length) :
    LastSession c sessionId (j :: path) count pos lastCount lastPos count' pos' := by
  obtain ⟨ls, s, rs, rfl, hs, hrs, rfl, rfl⟩ := h
  refine Or.inr ⟨j :: ls, s, rs, rfl, hs, hrs, ?_, ?_⟩
  · rw [Nat.add_assoc, ← List.length_append, ← blockNodes_append]
    rfl
  · rw [List.cons_append, RadixTree.spell_cons, List.length_append, Nat.add_assoc]
    rfl

/-- A node in front that the session does not own changes what leads to the deepest block. -/
theorem LastSession.cons {path : List Nat} {j count pos lastCount lastPos count' pos' : Nat}
    (hj : ¬ c.SessionBlock sessionId j)
    (h : LastSession c sessionId path (count + (c.blockNodes [j]).length)
      (pos + (c.edge j).length) lastCount lastPos count' pos') :
    LastSession c sessionId (j :: path) count pos lastCount lastPos count' pos' := by
  rcases h with ⟨hnone, hcount, hpos⟩ | hfound
  · refine Or.inl ⟨fun k hk => ?_, hcount, hpos⟩
    rcases List.mem_cons.mp hk with rfl | hk
    · exact hj
    · exact hnone k hk
  · exact .cons_of_found hfound

/-- A node in front that the session owns is the deepest one if there is none below. -/
theorem LastSession.cons_session {path : List Nat} {j count pos lastCount lastPos : Nat}
    {count' pos' : Nat} (hj : c.SessionBlock sessionId j)
    (h : LastSession c sessionId path (count + (c.blockNodes [j]).length)
      (pos + (c.edge j).length) (count + (c.blockNodes [j]).length) (pos + (c.edge j).length)
      count' pos') :
    LastSession c sessionId (j :: path) count pos lastCount lastPos count' pos' := by
  rcases h with ⟨hnone, rfl, rfl⟩ | hfound
  · refine Or.inr ⟨[], j, path, rfl, hj, hnone, rfl, ?_⟩
    rw [List.nil_append, RadixTree.spell_cons, RadixTree.spell_nil, List.append_nil]
    rfl
  · exact .cons_of_found hfound

variable (sessionId) in
theorem sessionLoop_spec (hs : c.Sound) {js : List Nat} {fuel a : Nat} (pos : Nat)
    (matched : List (Nat × Nat)) (lastCount lastPos : Nat) (ha : a < c.nodes.length)
    (hw : c.trie.Walk a (tokens.drop pos) js) (hfuel : js.length < fuel) :
    ∃ nodes lastCount' lastPos',
      c.sessionLoop sessionId tokens fuel a pos matched lastCount lastPos =
        some (matched ++ nodes, lastCount', lastPos') ∧
      nodes.map Prod.fst = c.blockNodes (c.live js) ∧
      LastSession c sessionId (c.live js) matched.length pos lastCount lastPos
        lastCount' lastPos' := by
  induction js generalizing fuel a pos matched lastCount lastPos with
  | nil =>
    obtain ⟨fuel, rfl⟩ : ∃ n, fuel = n + 1 := ⟨fuel - 1, by omega⟩
    have hdesc := descend_walk_nil hs ha hw
    exact ⟨[], lastCount, lastPos, by simp [sessionLoop, hdesc], rfl,
      Or.inl ⟨by simp [live], rfl, rfl⟩⟩
  | cons j js ih =>
    obtain ⟨fuel, rfl⟩ : ∃ n, fuel = n + 1 := ⟨fuel - 1, by omega⟩
    obtain ⟨t, rest, haj, hrest, hwj, hdesc⟩ := descend_walk_cons hs ha hw
    have hj := hs.child_lt haj
    have hdrop : tokens.drop (pos + (c.edge j).length) = rest := by
      rw [← List.drop_drop, hrest, List.drop_left]
    have hfuel' : js.length < fuel := by simpa using hfuel
    obtain ⟨child, hchild⟩ : ∃ child, c.nodes[j]? = some child :=
      ⟨_, List.getElem?_eq_getElem hj⟩
    have hblock : c.block j = child.blockId := by simp [block, hchild]
    have htomb : c.tombstone j = child.isTombstone := by simp [tombstone, hchild]
    have hsession : c.session j = child.sessionId := by simp [session, hchild]
    cases hb : child.blockId with
    | some b =>
      have hlive : c.live (j :: js) = j :: c.live js := by
        have hnot : c.tombstone j = false := by
          rw [htomb]
          simp [Node.isTombstone, hb]
        simp [live, hnot]
      have hone : (c.blockNodes [j]).length = 1 := by simp [blockNodes, hblock, hb]
      have hnodes : c.blockNodes (j :: c.live js) = j :: c.blockNodes (c.live js) := by
        simp [blockNodes, hblock, hb]
      by_cases hown : child.sessionId = some sessionId
      · obtain ⟨nodes, count', pos', hloop, hmap, hlast⟩ := ih (pos + (c.edge j).length)
          (matched ++ [(j, pos + (c.edge j).length)]) (matched.length + 1)
          (pos + (c.edge j).length) hj (hdrop ▸ hwj) hfuel'
        refine ⟨(j, pos + (c.edge j).length) :: nodes, count', pos', ?_, ?_, ?_⟩
        · simp [sessionLoop, hdesc, hchild, hb, hown, hloop]
        · rw [List.map_cons, hmap, hlive, hnodes]
        · rw [hlive]
          refine LastSession.cons_session ⟨by simp [hblock, hb], hsession.trans hown⟩ ?_
          rw [hone]
          rwa [List.length_append, List.length_singleton] at hlast
      · obtain ⟨nodes, count', pos', hloop, hmap, hlast⟩ := ih (pos + (c.edge j).length)
          (matched ++ [(j, pos + (c.edge j).length)]) lastCount lastPos hj (hdrop ▸ hwj) hfuel'
        refine ⟨(j, pos + (c.edge j).length) :: nodes, count', pos', ?_, ?_, ?_⟩
        · simp [sessionLoop, hdesc, hchild, hb, hown, hloop]
        · rw [List.map_cons, hmap, hlive, hnodes]
        · rw [hlive]
          refine LastSession.cons (fun hsb => hown (hsession ▸ hsb.2)) ?_
          rw [hone]
          rwa [List.length_append, List.length_singleton] at hlast
    | none =>
      have hcj : c.block j = none := hblock.trans hb
      by_cases hdead : child.isTombstone = true
      · have hlive : c.live (j :: js) = [] := by simp [live, htomb, hdead]
        refine ⟨[], lastCount, lastPos, ?_, by simp [hlive, blockNodes], ?_⟩
        · simp [sessionLoop, hdesc, hchild, hb, hdead]
        · rw [hlive]
          exact Or.inl ⟨by simp, rfl, rfl⟩
      · have hlive : c.live (j :: js) = j :: c.live js := by simp [live, htomb, hdead]
        obtain ⟨nodes, count', pos', hloop, hmap, hlast⟩ := ih (pos + (c.edge j).length)
          matched lastCount lastPos hj (hdrop ▸ hwj) hfuel'
        refine ⟨nodes, count', pos', ?_, ?_, ?_⟩
        · simp [sessionLoop, hdesc, hchild, hb, hdead, hloop]
        · rw [hmap, hlive]
          simp [blockNodes, hcj]
        · rw [hlive]
          refine LastSession.cons (fun hsb => hsb.1 hcj) ?_
          simpa [blockNodes, hcj] using hlast

/-- The loop over the matched nodes reports and pins each of them. -/
theorem stageNodesLoop_spec (heuristics : LookupHeuristics) (now : Nat)
    (nodes : List (Nat × Nat)) (c : RadixCache) (acc : List LookupBlock) (advised : Bool)
    (hblock : ∀ n ∈ nodes, c.block n.1 ≠ none) (hnodup : (nodes.map Prod.fst).Nodup) :
    ∃ advised' c', stageNodesLoop heuristics now nodes c acc advised =
        some (acc ++ (nodes.map Prod.fst).filterMap c.report, advised', c') ∧
      Pinned (nodes.map Prod.fst) c c' := by
  induction nodes generalizing c acc advised with
  | nil =>
    refine ⟨advised, c, by simp [stageNodesLoop], .refl c, fun i => ?_⟩
    simp
  | cons n nodes ih =>
    obtain ⟨j, depth⟩ := n
    rw [List.map_cons, List.nodup_cons] at hnodup
    have hj : c.block j ≠ none := hblock (j, depth) List.mem_cons_self
    obtain ⟨b, hb⟩ := Option.ne_none_iff_exists'.mp hj
    obtain ⟨c₁, hc₁, hpin₁, hhit⟩ := visit_spec now (lt_length_of_block hj)
    have hb₁ : c₁.block j = some b := (congrFun hpin₁.block j).trans hb
    obtain ⟨c₂, hc₂, hpin₂⟩ := hhit b hb₁
    obtain ⟨child, hchild, hbid⟩ := block_eq_some.mp hb₁
    have hsame : SameReport c c₁ := touch_sameReport hc₁
    have hsame₂ : SameReport c c₂ := hsame.trans (hit_sameReport hc₂)
    have hreport : c.report j =
        some ⟨some b, classifyHit child.tierLocation child.entryState⟩ := by
      rw [← hsame.report]
      simp [report, hchild, nodeReport, hbid]
    obtain ⟨advised', c', hc', hpin'⟩ := ih c₂
      (acc ++ [⟨some b, classifyHit child.tierLocation child.entryState⟩])
      (advised || heuristics.adviseRecompute
        (classifyHit child.tierLocation child.entryState) c₂.blockSize
        (max child.byteLen (c₂.blockSize % 2 ^ 32)))
      (fun m hm => by rw [hpin₂.block]; exact hblock m (List.mem_cons_of_mem _ hm)) hnodup.2
    refine ⟨advised', c', ?_, hpin₂.trans hpin' fun i hi => ?_⟩
    · simp only [stageNodesLoop, hc₁, hchild, hbid, hc₂, hc', Option.bind_eq_bind,
        Option.bind_some, List.map_cons, List.filterMap_cons_some hreport, hsame₂.report,
        List.append_assoc, List.singleton_append]
    · rw [List.mem_singleton.mp hi]
      exact hnodup.1

/-- The reports of a list of live nodes are those of its nodes with a block. -/
theorem reports_blockNodes {js : List Nat} (h : ∀ k ∈ js, c.tombstone k = false) :
    (c.blockNodes js).filterMap c.report = js.filterMap c.report := by
  induction js with
  | nil => rfl
  | cons j js ih =>
    have htail := ih fun k hk => h k (List.mem_cons_of_mem j hk)
    cases hb : c.block j with
    | none =>
      rw [List.filterMap_cons_none (report_of_blockless hb (h j List.mem_cons_self)), ← htail]
      simp [blockNodes, hb]
    | some b =>
      have hcons : c.blockNodes (j :: js) = j :: c.blockNodes js := by simp [blockNodes, hb]
      rw [hcons, List.filterMap_cons, List.filterMap_cons, htail]

variable (sessionId) in
/-- `lookup_session_prefix_or_stage` on a sound cache: it reports the walk down to the deepest
block of the session, and counts every block that is no miss. -/
theorem lookupSessionPrefixOrStage_spec (hs : c.Sound) (heuristics : LookupHeuristics)
    {js : List Nat} (hw : c.trie.Walk root tokens js) :
    ∃ outcome c', c.lookupSessionPrefixOrStage sessionId tokens heuristics =
        some (outcome, c') ∧
      outcome.matchedLen = hitCount outcome.blocks * c.blockSize ∧
      (((∀ k ∈ c.live js, ¬ c.SessionBlock sessionId k) ∧ outcome.blocks = []) ∨
        ∃ ls s rs, c.live js = ls ++ s :: rs ∧ c.SessionBlock sessionId s ∧
          (∀ k ∈ rs, ¬ c.SessionBlock sessionId k) ∧
          outcome.blocks = (ls ++ [s]).filterMap c.report) := by
  have hbs := hs.blockSize_pos
  obtain ⟨nodes, count, pos, hloop, hmap, hlast⟩ := sessionLoop_spec sessionId hs 0 []
    0 0 hs.root_lt hw (walk_length_lt_fuel hs hw)
  rcases hlast with ⟨hnone, rfl, -⟩ | ⟨ls, s, rs, hlive, hown, hrs, rfl, rfl⟩
  · refine ⟨⟨0, [], false⟩, c, ?_, by simp [hitCount], Or.inl ⟨hnone, rfl⟩⟩
    simp [lookupSessionPrefixOrStage, hloop]
  · have hsplit : c.live js = (ls ++ [s]) ++ rs := by rw [hlive, List.append_assoc]; rfl
    have hchain : c.trie.Chain root (ls ++ [s]) := by
      obtain ⟨rest, hjs⟩ := (List.prefix_append _ rs).trans (hsplit ▸ c.live_isPrefix js)
      exact (hjs ▸ hw.chain).left
    have hdead : ∀ k ∈ ls ++ [s], c.tombstone k = false := fun k hk =>
      live_not_tombstone js (hsplit ▸ List.mem_append_left rs hk)
    rw [List.length_nil, Nat.zero_add, Nat.zero_add, List.nil_append] at hloop
    -- the first rounding keeps every block that leads to the deepest one
    have hn : 0 < (c.blockNodes (ls ++ [s])).length :=
      List.length_pos_of_mem (a := s) (List.mem_filter.mpr
        ⟨by simp, Option.isSome_iff_ne_none.mpr hown.1⟩)
    have hle := chain_blocks_le hs RadixTree.Reaches.root hchain
    rw [List.nil_append, List.length_nil, Nat.zero_div, Nat.zero_add, ← length_blockNodes,
      Nat.le_div_iff_mul_le hbs] at hle
    have hround : c.roundedPrefixLen (c.trie.spell (ls ++ [s])).length
        (c.blockNodes (ls ++ [s])).length =
          some ((c.blockNodes (ls ++ [s])).length * c.blockSize) := by
      rw [roundedPrefixLen, if_neg (by omega), Nat.min_eq_left hle, Nat.mul_div_cancel _ hbs]
    have htake : (nodes.take (c.blockNodes (ls ++ [s])).length).map Prod.fst =
        c.blockNodes (ls ++ [s]) := by
      rw [List.map_take, hmap, hsplit, blockNodes_append c (ls ++ [s]), List.take_left]
    -- the loop over them
    obtain ⟨advised, c', hc', hpin⟩ := stageNodesLoop_spec heuristics c.tick.1
      (nodes.take (c.blockNodes (ls ++ [s])).length) c.tick.2 [] false (by
        intro n hn
        have hmem := List.mem_map_of_mem (f := Prod.fst) hn
        rw [htake] at hmem
        exact Option.isSome_iff_ne_none.mp (List.mem_filter.mp hmem).2) (by
        rw [htake]
        exact (RadixTree.Chain.nodup hs.tree hchain).filter _)
    have hsame : SameReport c c.tick.2 := ⟨rfl, rfl⟩
    rw [htake, List.nil_append, hsame.report, reports_blockNodes hdead] at hc'
    have hhits : hitCount ((ls ++ [s]).filterMap c.report) ≤ (c.blockNodes (ls ++ [s])).length :=
      (hitCount_report_le c _).trans_eq (length_blockNodes c _).symm
    have hround' : c'.roundedPrefixLen ((c.blockNodes (ls ++ [s])).length * c.blockSize)
        (hitCount ((ls ++ [s]).filterMap c.report)) =
          some (hitCount ((ls ++ [s]).filterMap c.report) * c.blockSize) := by
      rw [roundedPrefixLen, show c'.blockSize = c.blockSize from hpin.blockSize,
        if_neg (by omega), Nat.min_eq_left (Nat.mul_le_mul_right _ hhits),
        Nat.mul_div_cancel _ hbs]
    refine ⟨⟨hitCount ((ls ++ [s]).filterMap c.report) * c.blockSize,
      (ls ++ [s]).filterMap c.report, advised⟩, c', ?_, rfl,
      Or.inr ⟨ls, s, rs, hlive, hown, hrs, rfl⟩⟩
    unfold lookupSessionPrefixOrStage
    simp only [hloop, Option.bind_eq_bind, Option.bind_some, hround, if_neg (Nat.ne_of_gt hn),
      Nat.mul_div_cancel _ hbs]
    simp only [hc', Option.bind_some, ← hitCount.eq_1, hround']

end Session

/-! ## The reported length -/

section Law

variable {c : RadixCache} {tokens : List Token}

theorem staged_run (hs : c.Sound) (heuristics : LookupHeuristics) :
    ∃ outcome c', c.lookupOrStage tokens heuristics = some (outcome, c') ∧
      (outcome.matchedLen = c.blockSize * leadingRun outcome.blocks ↔ c.GapFree tokens) := by
  obtain ⟨js, hw⟩ := RadixTree.exists_walk hs.tree root tokens
  obtain ⟨outcome, c', hc', hblocks, hlen, -⟩ := lookupOrStage_reports hs heuristics hw
  refine ⟨outcome, c', hc', ?_⟩
  rw [hlen, Nat.mul_comm, Nat.mul_left_cancel_iff hs.blockSize_pos, hblocks]
  exact hitCount_eq_leadingRun_iff hs hw

theorem session_run (hs : c.Sound) (sessionId : SessionId) (heuristics : LookupHeuristics) :
    ∃ outcome c', c.lookupSessionPrefixOrStage sessionId tokens heuristics =
        some (outcome, c') ∧
      (outcome.matchedLen = c.blockSize * leadingRun outcome.blocks ↔
        c.SessionGapFree sessionId tokens) := by
  obtain ⟨js, hw⟩ := RadixTree.exists_walk hs.tree root tokens
  obtain ⟨outcome, c', hc', hlen, hblocks⟩ :=
    lookupSessionPrefixOrStage_spec sessionId hs heuristics hw
  refine ⟨outcome, c', hc', ?_⟩
  rw [hlen, Nat.mul_comm, Nat.mul_left_cancel_iff hs.blockSize_pos]
  -- a block of the session that the lookup can see lies on the live part of the walk
  have hseen : ∀ s r, c.trie.Reaches s r → r <+: tokens → c.Passes r → c.block s ≠ none →
      ∃ ks ls, c.live js = ks ++ s :: ls ∧ c.trie.spell (ks ++ [s]) = r := by
    intro s r hreach hr hpass hblock
    obtain ⟨ks, ls, rfl, hchain, rfl, hlast⟩ := hw.exists_split hs.tree hreach hr
    obtain ⟨ks, rfl⟩ := hlast.resolve_left fun hroot =>
      hblock (by rw [hroot.2]; exact hs.root_block)
    obtain ⟨ls', hls'⟩ := isPrefix_live ((passes_iff hs hchain.walk).mp hpass) ls
    exact ⟨ks, ls', by rw [← hls', List.append_assoc]; rfl, rfl⟩
  rcases hblocks with ⟨hnone, hnil⟩ | ⟨ls, s, rs, hlive, hown, hrs, hreports⟩
  · rw [hnil]
    refine ⟨fun _ s r hreach hr hpass hblock hsession => ?_, fun _ => rfl⟩
    obtain ⟨ks, ls, hks, -⟩ := hseen s r hreach hr hpass hblock
    exact absurd ⟨hblock, hsession⟩ (hnone s (by simp [hks]))
  · -- gaps above the deepest block are the only ones that count
    have hsplit : c.live js = (ls ++ [s]) ++ rs := by rw [hlive, List.append_assoc]; rfl
    obtain ⟨rest, hjs⟩ := (List.prefix_append _ rs).trans (hsplit ▸ c.live_isPrefix js)
    have hchain : c.trie.Chain root (ls ++ [s]) := (hjs ▸ hw.chain).left
    have hdead : ∀ k ∈ ls ++ [s], c.tombstone k = false := fun k hk =>
      live_not_tombstone js (hsplit ▸ List.mem_append_left rs hk)
    have hword : c.trie.spell (ls ++ [s]) <+: tokens := by
      refine List.IsPrefix.trans ?_ hw.spell_prefix
      rw [← hjs, RadixTree.spell_append _ (ls ++ [s])]
      exact List.prefix_append _ _
    have hreach : c.trie.Reaches s (c.trie.spell (ls ++ [s])) := by
      simpa using RadixTree.Reaches.root.chain hchain (by rw [List.getLast_cons (by simp)]; simp)
    have hall := hitCount_eq_leadingRun_iff hs hchain.walk
    rw [upToTombstone_eq_self hdead, ← hreports] at hall
    rw [hall]
    constructor
    · intro hfree s' r hs' hr hpass hblock hsession
      obtain ⟨ks, ks', hks, hspell⟩ := hseen s' r hs' hr hpass hblock
      refine hfree.mono ?_
      rw [← hspell]
      have hwhole : (ks ++ [s']) ++ ks' = (ls ++ [s]) ++ rs := by
        rw [← hsplit, hks, List.append_assoc]
        rfl
      rcases List.append_eq_append_iff.mp hwhole with ⟨ms, hms, -⟩ | ⟨ms, hms, hrest⟩
      · rw [hms, RadixTree.spell_append _ (ks ++ [s'])]
        exact List.prefix_append _ _
      · rcases List.eq_nil_or_concat ms with rfl | ⟨ms, m, rfl⟩
        · rw [hms, List.append_nil]
        · -- the deepest block of the session has none below it
          rw [List.concat_eq_append, ← List.append_assoc] at hms
          obtain rfl : s' = m := by simpa using List.append_inj_right' hms rfl
          exact absurd ⟨hblock, hsession⟩ (hrs s' (by simp [hrest]))
    · intro hfree
      exact hfree hreach hword ((passes_iff hs hchain.walk).mpr hdead) hown.1 hown.2

/-- Both staged lookups report the length of the leading run of hits if and only if the path
they follow is gap free. -/
theorem staged_run_law (hs : c.Sound) (sessionId : SessionId) (tokens : List Token)
    (heuristics : LookupHeuristics) :
    (∃ outcome c', c.lookupOrStage tokens heuristics = some (outcome, c') ∧
      (outcome.matchedLen = c.blockSize * leadingRun outcome.blocks ↔ c.GapFree tokens)) ∧
    ∃ outcome c', c.lookupSessionPrefixOrStage sessionId tokens heuristics =
        some (outcome, c') ∧
      (outcome.matchedLen = c.blockSize * leadingRun outcome.blocks ↔
        c.SessionGapFree sessionId tokens) :=
  ⟨staged_run hs heuristics, session_run hs sessionId heuristics⟩

end Law

/-- Three blocks of one token each. -/
def threeBlocks : Option RadixCache :=
  (new 1).bind fun c =>
    (c.insertWithFingerprints [1, 2, 3] [⟨7⟩, ⟨8⟩, ⟨9⟩] [⟨0⟩, ⟨1⟩, ⟨2⟩]).map Prod.snd

theorem staged_run_law_threeBlocks : ∃ c, threeBlocks = some c ∧
    (∃ outcome c', c.lookupOrStage [1, 2, 3] ⟨fun _ _ _ => false⟩ = some (outcome, c') ∧
      (outcome.matchedLen = c.blockSize * leadingRun outcome.blocks ↔ c.GapFree [1, 2, 3])) ∧
    ∃ outcome c', c.lookupSessionPrefixOrStage ⟨"s"⟩ [1, 2, 3] ⟨fun _ _ _ => false⟩ =
        some (outcome, c') ∧
      (outcome.matchedLen = c.blockSize * leadingRun outcome.blocks ↔
        c.SessionGapFree ⟨"s"⟩ [1, 2, 3]) := by
  obtain ⟨c₀, hc₀⟩ : ∃ c, new 1 = some c := ⟨_, rfl⟩
  obtain ⟨c, hc⟩ : ∃ c, c₀.insertWithFingerprints [1, 2, 3] [⟨7⟩, ⟨8⟩, ⟨9⟩] [⟨0⟩, ⟨1⟩, ⟨2⟩] =
      some (3, c) := by
    cases hc₀
    exact ⟨_, rfl⟩
  refine ⟨c, by rw [threeBlocks, hc₀, Option.bind_some, hc]; rfl, ?_⟩
  exact staged_run_law ((unevicted_new hc₀).insert hc).1 ⟨"s"⟩ [1, 2, 3] ⟨fun _ _ _ => false⟩

/-- The second of three blocks is pending: both lookups report two blocks, and the leading
run is one. -/
theorem staged_run_gap : ∃ c₀, threeBlocks = some c₀ ∧
    let c := ((c₀.setBlockIndexState ⟨8⟩ .pending).2.setBlockSessionId ⟨9⟩ (some ⟨"s"⟩)).2
    (∃ outcome c', c.lookupOrStage [1, 2, 3] ⟨fun _ _ _ => false⟩ = some (outcome, c') ∧
      outcome.matchedLen = 2 ∧ c.blockSize * leadingRun outcome.blocks = 1) ∧
    ∃ outcome c', c.lookupSessionPrefixOrStage ⟨"s"⟩ [1, 2, 3] ⟨fun _ _ _ => false⟩ =
        some (outcome, c') ∧
      outcome.matchedLen = 2 ∧ c.blockSize * leadingRun outcome.blocks = 1 :=
  ⟨_, rfl, ⟨_, _, rfl, rfl, rfl⟩, ⟨_, _, rfl, rfl, rfl⟩⟩

end RadixCache

end Arle.PrefixCache
