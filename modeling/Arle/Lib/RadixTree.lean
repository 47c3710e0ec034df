import Mathlib

/-!
# Compressed tries as pointer structures

A `RadixTree ι τ` is a compressed trie over the alphabet `τ` whose nodes are named by
`ι`: a root, the child of a node for a first letter, and the edge label into a node. The
names carry no structure, and names that the root does not lead to are allowed: this is
the picture of a trie that lives in an arena.

* `Reaches T i p`: the path from the root to the node `i` spells the word `p`.
* `WellFormed T`: the label into a child starts with the letter it is filed under, a node
  has at most one parent, the root has none, and the pointers are ranked (no cycles).
* `reaches_node_unique`, `reaches_path_unique`: in a well-formed tree a word leads to at
  most one node, and a node is led to by at most one word.
* `addLeaf`, `splitEdge`, `Prunes`: the three ways a trie changes, each with the words it
  leads to afterwards and the fact that it keeps a tree well formed.
-/

universe u v

/-- A compressed trie with nodes named by `ι` and labels over `τ`. -/
@[ext] structure RadixTree (ι : Type u) (τ : Type v) where
  root : ι
  child : ι → τ → Option ι
  edge : ι → List τ

namespace RadixTree

variable {ι : Type u} {τ : Type v}

/-- The path from the root to `i` spells `p`. -/
inductive Reaches (T : RadixTree ι τ) : ι → List τ → Prop
  | root : Reaches T T.root []
  | step {i j : ι} {t : τ} {p : List τ} (parent : Reaches T i p) (h : T.child i t = some j) :
      Reaches T j (p ++ T.edge j)

/-- A downward chain of nodes below `i`. -/
inductive Chain (T : RadixTree ι τ) : ι → List ι → Prop
  | nil (i : ι) : Chain T i []
  | cons {i j : ι} {t : τ} {js : List ι} (h : T.child i t = some j) (rest : Chain T j js) :
      Chain T i (j :: js)

/-- `j` is `i`, or lies in the subtree below it. -/
inductive Below (T : RadixTree ι τ) : ι → ι → Prop
  | refl (i : ι) : Below T i i
  | step {i j k : ι} {t : τ} (h : T.child i t = some j) (rest : Below T j k) : Below T i k

/-- The word a chain of nodes spells. -/
def spell (T : RadixTree ι τ) (js : List ι) : List τ := js.flatMap T.edge

structure WellFormed (T : RadixTree ι τ) : Prop where
  edge_head : ∀ {i j : ι} {t : τ}, T.child i t = some j → ∃ rest, T.edge j = t :: rest
  parent_unique : ∀ {i i' j : ι} {t t' : τ},
    T.child i t = some j → T.child i' t' = some j → i = i'
  root_orphan : ∀ (i : ι) (t : τ), T.child i t ≠ some T.root
  ranked : ∃ rank : ι → Nat, ∀ i t j, T.child i t = some j → rank i < rank j

/-- No node points at `n`, and `n` is not the root. -/
def Fresh (T : RadixTree ι τ) (n : ι) : Prop := n ≠ T.root ∧ ∀ i t, T.child i t ≠ some n

@[simp] theorem spell_nil (T : RadixTree ι τ) : T.spell [] = [] := rfl

@[simp] theorem spell_cons (T : RadixTree ι τ) (j : ι) (js : List ι) :
    T.spell (j :: js) = T.edge j ++ T.spell js := rfl

@[simp] theorem spell_append (T : RadixTree ι τ) (js ks : List ι) :
    T.spell (js ++ ks) = T.spell js ++ T.spell ks := by
  simp [spell]

/-! ## Words and nodes -/

section WellFormed

variable {T : RadixTree ι τ}

theorem WellFormed.edge_ne_nil (hT : T.WellFormed) {i j : ι} {t : τ}
    (h : T.child i t = some j) : T.edge j ≠ [] := by
  obtain ⟨rest, hrest⟩ := hT.edge_head h
  simp [hrest]

theorem WellFormed.letter_unique (hT : T.WellFormed) {i i' j : ι} {t t' : τ}
    (h : T.child i t = some j) (h' : T.child i' t' = some j) : t = t' := by
  obtain ⟨rest, hrest⟩ := hT.edge_head h
  obtain ⟨rest', hrest'⟩ := hT.edge_head h'
  rw [hrest] at hrest'
  exact (List.cons.inj hrest').1

theorem Reaches.chain {i j : ι} {p : List τ} {js : List ι} (hi : T.Reaches i p)
    (h : T.Chain i js) (hj : (i :: js).getLast (List.cons_ne_nil i js) = j) :
    T.Reaches j (p ++ T.spell js) := by
  induction h generalizing p with
  | nil i =>
    simp only [List.getLast_singleton] at hj
    subst hj
    simpa using hi
  | @cons i k t js hk _ ih =>
    rw [List.getLast_cons (List.cons_ne_nil k js)] at hj
    have := ih (hi.step hk) hj
    simpa [List.append_assoc] using this

theorem Chain.snoc {i j : ι} {js : List ι} (h : T.Chain i js) {t : τ}
    (hj : T.child ((i :: js).getLast (List.cons_ne_nil i js)) t = some j) :
    T.Chain i (js ++ [j]) := by
  induction h with
  | nil i => exact .cons (by simpa using hj) (.nil j)
  | @cons i k t' js hk _ ih =>
    rw [List.getLast_cons (List.cons_ne_nil k js)] at hj
    exact .cons hk (ih hj)

theorem Below.trans {i j k : ι} (h : T.Below i j) (h' : T.Below j k) : T.Below i k := by
  induction h with
  | refl => exact h'
  | step hj _ ih => exact .step hj (ih h')

/-- What lies below a node is the node, or lies below one of its children. -/
theorem Below.cases_child {i k : ι} (h : T.Below i k) :
    k = i ∨ ∃ t j, T.child i t = some j ∧ T.Below j k := by
  cases h with
  | refl => exact Or.inl rfl
  | step hj rest => exact Or.inr ⟨_, _, hj, rest⟩

/-- The end of a chain lies below its start. -/
theorem Chain.below_last {i : ι} {js : List ι} (h : T.Chain i js) :
    T.Below i ((i :: js).getLast (List.cons_ne_nil i js)) := by
  induction h with
  | nil i => exact .refl i
  | cons hj _ ih => exact .step hj ih

/-- Every reached node is the end of a chain from the root. -/
theorem Reaches.exists_chain {i : ι} {p : List τ} (h : T.Reaches i p) :
    ∃ js, T.Chain T.root js ∧
      (T.root :: js).getLast (List.cons_ne_nil _ _) = i ∧ T.spell js = p := by
  induction h with
  | root => exact ⟨[], .nil _, rfl, rfl⟩
  | @step i j t p _ hj ih =>
    obtain ⟨js, hjs, hlast, hspell⟩ := ih
    refine ⟨js ++ [j], hjs.snoc (hlast ▸ hj), ?_, ?_⟩
    · rw [List.getLast_cons (by simp)]
      simp
    · simp [hspell]

theorem Below.reaches {i j : ι} {p : List τ} (h : T.Below i j) (hi : T.Reaches i p) :
    ∃ q, T.Reaches j q := by
  induction h generalizing p with
  | refl => exact ⟨p, hi⟩
  | step hj _ ih => exact ih (hi.step hj)

/-- The nodes with a word are the nodes below the root. -/
theorem reaches_iff_below {i : ι} : (∃ p, T.Reaches i p) ↔ T.Below T.root i := by
  constructor
  · rintro ⟨p, hp⟩
    obtain ⟨js, hjs, hlast, -⟩ := hp.exists_chain
    exact hlast ▸ hjs.below_last
  · exact fun h => h.reaches .root

/-- Two chains from one node that spell comparable words are comparable. -/
theorem Chain.prefix_of_spell (hT : T.WellFormed) {i : ι} {js ks : List ι}
    (hjs : T.Chain i js) (hks : T.Chain i ks) (h : T.spell js <+: T.spell ks) : js <+: ks := by
  induction hjs generalizing ks with
  | nil i => exact List.nil_prefix
  | @cons i j t js hj _ ih =>
    obtain ⟨e, he⟩ := hT.edge_head hj
    cases hks with
    | nil => simp [he] at h
    | @cons _ k t' ks hk hks =>
      obtain ⟨e', he'⟩ := hT.edge_head hk
      have htt : t = t' := by
        simp only [spell_cons, he, he', List.cons_append, List.cons_prefix_cons] at h
        exact h.1
      subst htt
      have hjk : j = k := Option.some.inj (hj.symm.trans hk)
      subst hjk
      simp only [spell_cons, List.prefix_append_right_inj] at h
      exact List.cons_prefix_cons.mpr ⟨rfl, ih hks h⟩

/-- A node whose word is a prefix of the word of another lies above it. -/
theorem Reaches.chain_of_prefix (hT : T.WellFormed) {i j : ι} {p q : List τ}
    (hi : T.Reaches i p) (hj : T.Reaches j q) (hpq : p <+: q) :
    ∃ js, T.Chain i js ∧ (i :: js).getLast (List.cons_ne_nil i js) = j ∧
      q = p ++ T.spell js := by
  obtain ⟨js, hjs, hjlast, hjspell⟩ := hi.exists_chain
  obtain ⟨ks, hks, hklast, hkspell⟩ := hj.exists_chain
  obtain ⟨ls, rfl⟩ := hjs.prefix_of_spell hT hks (by rw [hjspell, hkspell]; exact hpq)
  refine ⟨ls, ?_, ?_, ?_⟩
  · clear hjspell hkspell hj hi hklast hpq hT
    subst hjlast
    generalize T.root = r at hjs hks
    induction hjs with
    | nil r => simpa using hks
    | @cons r k t js hk _ ih =>
      cases hks with
      | cons hk' hks =>
        rw [List.getLast_cons (List.cons_ne_nil k js)]
        exact ih hks
  · rw [← hklast, ← hjlast]
    cases ls with
    | nil => simp
    | cons l ls => simp
  · rw [← hkspell, ← hjspell]
    simp

/-- Nothing is reached through a missing child. -/
theorem Reaches.not_through (hT : T.WellFormed) {i j : ι} {t : τ} {p w : List τ}
    (hi : T.Reaches i p) (hfree : T.child i t = none) : ¬ T.Reaches j (p ++ t :: w) := by
  intro hj
  obtain ⟨js, hjs, -, hspell⟩ := hi.chain_of_prefix hT hj (List.prefix_append _ _)
  rw [List.append_cancel_left_eq] at hspell
  cases hjs with
  | nil => cases hspell
  | @cons _ k s js hk _ =>
    obtain ⟨e, he⟩ := hT.edge_head hk
    rw [spell_cons, he, List.cons_append, List.cons.injEq] at hspell
    rw [← hspell.1, hfree] at hk
    cases hk

theorem reaches_node_unique (hT : T.WellFormed) {i j : ι} {p : List τ}
    (hi : T.Reaches i p) (hj : T.Reaches j p) : i = j := by
  obtain ⟨js, hjs, hjlast, hjspell⟩ := hi.exists_chain
  obtain ⟨ks, hks, hklast, hkspell⟩ := hj.exists_chain
  have hspell : T.spell js = T.spell ks := hjspell.trans hkspell.symm
  have h1 := hjs.prefix_of_spell hT hks (hspell ▸ List.prefix_rfl)
  have h2 := hks.prefix_of_spell hT hjs (hspell ▸ List.prefix_rfl)
  have : js = ks := List.IsPrefix.eq_of_length h1 (Nat.le_antisymm h1.length_le h2.length_le)
  subst this
  rw [← hjlast, ← hklast]

theorem reaches_path_unique (hT : T.WellFormed) {i : ι} {p q : List τ}
    (hp : T.Reaches i p) (hq : T.Reaches i q) : p = q := by
  induction hp generalizing q with
  | root =>
    cases hq with
    | root => rfl
    | step _ h => exact absurd h (hT.root_orphan _ _)
  | @step i j t p _ hj ih =>
    cases hq with
    | root => exact absurd hj (hT.root_orphan _ _)
    | @step i' _ t' q hi' hj' =>
      obtain rfl := hT.parent_unique hj hj'
      rw [ih hi']

/-- The parent of a reached node is reached. -/
theorem Reaches.parent (hT : T.WellFormed) {i j : ι} {t : τ} {q : List τ}
    (hj : T.Reaches j q) (h : T.child i t = some j) :
    ∃ p, T.Reaches i p ∧ q = p ++ T.edge j := by
  cases hj with
  | root => exact absurd h (hT.root_orphan _ _)
  | @step i' _ t' p hi' h' =>
    obtain rfl := hT.parent_unique h h'
    exact ⟨p, hi', rfl⟩

theorem Fresh.not_reached {n : ι} (hn : T.Fresh n) {p : List τ} : ¬ T.Reaches n p := by
  intro h
  cases h with
  | root => exact hn.1 rfl
  | step _ h => exact hn.2 _ _ h

/-- The nodes of a chain have increasing ranks. -/
theorem Chain.rank_lt {rank : ι → Nat} (hr : ∀ i t j, T.child i t = some j → rank i < rank j)
    {i j : ι} {js : List ι} (h : T.Chain i js) (hj : j ∈ js) : rank i < rank j := by
  induction h with
  | nil i => cases hj
  | @cons i k t js hk _ ih =>
    rcases List.mem_cons.mp hj with rfl | hj
    · exact hr _ _ _ hk
    · exact Nat.lt_trans (hr _ _ _ hk) (ih hj)

/-- The parent of a node on a chain is on the chain, or starts it. -/
theorem Chain.exists_parent_mem {i j : ι} {js : List ι} (h : T.Chain i js) (hj : j ∈ js) :
    ∃ i' t, T.child i' t = some j ∧ (i' = i ∨ i' ∈ js) := by
  induction h with
  | nil i => cases hj
  | @cons i k t js hk _ ih =>
    rcases List.mem_cons.mp hj with rfl | hj
    · exact ⟨i, t, hk, Or.inl rfl⟩
    · obtain ⟨i', t', hi', hmem⟩ := ih hj
      refine ⟨i', t', hi', Or.inr ?_⟩
      rcases hmem with rfl | hmem
      · exact List.mem_cons_self
      · exact List.mem_cons_of_mem k hmem

theorem Chain.exists_parent {i j : ι} {js : List ι} (h : T.Chain i js) (hj : j ∈ js) :
    ∃ i' t, T.child i' t = some j := by
  obtain ⟨i', t, hi', -⟩ := h.exists_parent_mem hj
  exact ⟨i', t, hi'⟩

/-- The part of a chain that ends in one of its nodes. -/
theorem Chain.take_to {i j : ι} {rs : List ι} (ls : List ι) (h : T.Chain i (ls ++ j :: rs)) :
    T.Chain i (ls ++ [j]) := by
  induction ls generalizing i with
  | nil =>
    cases h with
    | cons hj _ => exact .cons hj (.nil _)
  | cons l ls ih =>
    cases h with
    | cons hl hrest => exact .cons hl (ih hrest)

theorem Chain.left {i : ι} {ls rs : List ι} (h : T.Chain i (ls ++ rs)) : T.Chain i ls := by
  induction ls generalizing i with
  | nil => exact .nil i
  | cons l ls ih =>
    cases h with
    | cons hl hrest => exact .cons hl (ih hrest)

theorem Chain.nodup (hT : T.WellFormed) {i : ι} {js : List ι} (h : T.Chain i js) :
    js.Nodup := by
  obtain ⟨rank, hr⟩ := hT.ranked
  induction h with
  | nil i => exact List.nodup_nil
  | @cons i k t js _ hrest ih =>
    refine List.nodup_cons.mpr ⟨fun hk => ?_, ih⟩
    exact absurd (hrest.rank_lt hr hk) (Nat.lt_irrefl _)

/-- Whatever lies above a node of a chain from the root is the root or on the chain. -/
theorem Chain.mem_of_below (hT : T.WellFormed) {js : List ι} (h : T.Chain T.root js) {i j : ι}
    (hij : T.Below i j) (hj : j ∈ js) : i = T.root ∨ i ∈ js := by
  induction hij with
  | refl => exact Or.inr hj
  | @step i k j t hk _ ih =>
    rcases ih hj with rfl | hkjs
    · exact absurd hk (hT.root_orphan _ _)
    · obtain ⟨i', t', hi', hmem⟩ := h.exists_parent_mem hkjs
      rw [hT.parent_unique hk hi']
      exact hmem

end WellFormed

/-! ## A new leaf -/

section Update

variable [DecidableEq ι] [DecidableEq τ]

/-- Hang the node `n` with the edge `e` below `a`, filed under `t`. -/
def addLeaf (T : RadixTree ι τ) (a : ι) (t : τ) (n : ι) (e : List τ) : RadixTree ι τ where
  root := T.root
  child i s := if i = n then none else if i = a ∧ s = t then some n else T.child i s
  edge i := if i = n then e else T.edge i

/-- Put the fresh node `d` on the edge from `a` to `j` (filed under `t`), after `k` letters. -/
def splitEdge (T : RadixTree ι τ) (a : ι) (t : τ) (j d : ι) (k : Nat) : RadixTree ι τ where
  root := T.root
  child i s :=
    if i = d then (if ((T.edge j).drop k).head? = some s then some j else none)
    else if i = a ∧ s = t then some d else T.child i s
  edge i := if i = d then (T.edge j).take k else if i = j then (T.edge j).drop k else T.edge i

variable {T : RadixTree ι τ}

theorem addLeaf_child_of_ne {a n i : ι} {t s : τ} {e : List τ} (hi : i ≠ n)
    (h : ¬ (i = a ∧ s = t)) : (T.addLeaf a t n e).child i s = T.child i s := by
  simp [addLeaf, hi, h]

theorem addLeaf_edge_of_ne {a n i : ι} {t : τ} {e : List τ} (hi : i ≠ n) :
    (T.addLeaf a t n e).edge i = T.edge i := by
  simp [addLeaf, hi]

theorem addLeaf_child_eq_some {a n : ι} {t : τ} {e : List τ} {i j : ι} {s : τ} :
    (T.addLeaf a t n e).child i s = some j ↔
      i ≠ n ∧ ((i = a ∧ s = t ∧ j = n) ∨ (¬ (i = a ∧ s = t) ∧ T.child i s = some j)) := by
  simp only [addLeaf]
  by_cases hi : i = n
  · simp [hi]
  · by_cases h : i = a ∧ s = t
    · rw [if_neg hi, if_pos h]
      constructor
      · intro hj
        exact ⟨hi, Or.inl ⟨h.1, h.2, (Option.some.inj hj).symm⟩⟩
      · rintro ⟨-, ⟨-, -, rfl⟩ | ⟨hne, -⟩⟩
        · rfl
        · exact absurd h hne
    · rw [if_neg hi, if_neg h]
      constructor
      · intro hj
        exact ⟨hi, Or.inr ⟨h, hj⟩⟩
      · rintro ⟨-, ⟨h1, h2, -⟩ | ⟨-, hj⟩⟩
        · exact absurd ⟨h1, h2⟩ h
        · exact hj

theorem addLeaf_reaches (hn : T.Fresh n) {a : ι} (ha : a ≠ n) {t : τ} {e : List τ}
    (hfree : T.child a t = none) {i : ι} {p : List τ} :
    (T.addLeaf a t n e).Reaches i p ↔
      T.Reaches i p ∨ (i = n ∧ ∃ q, T.Reaches a q ∧ p = q ++ e) := by
  have old : ∀ {i p}, T.Reaches i p → (T.addLeaf a t n e).Reaches i p := by
    intro i p h
    induction h with
    | root => exact .root
    | @step i j s p hi hj ih =>
      have hin : i ≠ n := fun h => hn.not_reached (h ▸ hi)
      have hjn : j ≠ n := fun h => hn.2 _ _ (h ▸ hj)
      have hne : ¬ (i = a ∧ s = t) := by
        rintro ⟨rfl, rfl⟩
        rw [hfree] at hj
        cases hj
      have hj' : (T.addLeaf a t n e).child i s = some j := by
        rw [addLeaf_child_of_ne hin hne, hj]
      have := ih.step hj'
      rwa [addLeaf_edge_of_ne hjn] at this
  constructor
  · intro h
    induction h with
    | root => exact Or.inl .root
    | @step i j s p _ hj ih =>
      obtain ⟨hin, ⟨rfl, rfl, rfl⟩ | ⟨-, hc⟩⟩ := addLeaf_child_eq_some.mp hj
      · right
        rcases ih with hi | ⟨rfl, -⟩
        · exact ⟨rfl, p, hi, by simp [addLeaf]⟩
        · exact absurd rfl hin
      · rcases ih with hi | ⟨rfl, -⟩
        · left
          rw [addLeaf_edge_of_ne (fun h => hn.2 _ _ (h ▸ hc))]
          exact hi.step hc
        · exact absurd rfl hin
  · rintro (h | ⟨rfl, q, hq, rfl⟩)
    · exact old h
    · have hc : (T.addLeaf a t i e).child a t = some i := by simp [addLeaf, ha]
      have := (old hq).step hc
      simpa [addLeaf] using this

theorem WellFormed.addLeaf (hT : T.WellFormed) {n : ι} (hn : T.Fresh n) {a : ι} (ha : a ≠ n)
    {t : τ} {e rest : List τ} (he : e = t :: rest) :
    (T.addLeaf a t n e).WellFormed where
  edge_head := by
    intro i j s h
    obtain ⟨-, ⟨rfl, rfl, rfl⟩ | ⟨-, hc⟩⟩ := addLeaf_child_eq_some.mp h
    · exact ⟨rest, by simp [RadixTree.addLeaf, he]⟩
    · rw [addLeaf_edge_of_ne (fun h => hn.2 _ _ (h ▸ hc))]
      exact hT.edge_head hc
  parent_unique := by
    intro i i' j s s' h h'
    obtain ⟨-, ⟨rfl, rfl, rfl⟩ | ⟨-, hc⟩⟩ := addLeaf_child_eq_some.mp h
    · obtain ⟨-, ⟨rfl, -, -⟩ | ⟨-, hc'⟩⟩ := addLeaf_child_eq_some.mp h'
      · rfl
      · exact absurd hc' (hn.2 _ _)
    · obtain ⟨-, ⟨-, -, rfl⟩ | ⟨-, hc'⟩⟩ := addLeaf_child_eq_some.mp h'
      · exact absurd hc (hn.2 _ _)
      · exact hT.parent_unique hc hc'
  root_orphan := by
    intro i s h
    obtain ⟨-, ⟨-, -, h⟩ | ⟨-, hc⟩⟩ := addLeaf_child_eq_some.mp h
    · exact hn.1 h.symm
    · exact hT.root_orphan _ _ hc
  ranked := by
    obtain ⟨rank, hr⟩ := hT.ranked
    refine ⟨fun i => if i = n then rank a + 1 else rank i, ?_⟩
    intro i s j h
    obtain ⟨hin, ⟨rfl, rfl, rfl⟩ | ⟨-, hc⟩⟩ := addLeaf_child_eq_some.mp h
    · simp [ha]
    · have hjn : j ≠ n := fun h => hn.2 _ _ (h ▸ hc)
      simp [hin, hjn, hr _ _ _ hc]

/-- A new leaf changes nothing above or below the other nodes. -/
theorem addLeaf_below (hn : T.Fresh n) {a : ι} {t : τ} {e : List τ}
    (hfree : T.child a t = none) {i k : ι} (hi : i ≠ n) (hk : k ≠ n) :
    (T.addLeaf a t n e).Below i k ↔ T.Below i k := by
  constructor
  · intro h
    induction h with
    | refl i => exact .refl i
    | @step i j k s hj hjk ih =>
      obtain ⟨-, ⟨-, -, rfl⟩ | ⟨-, hc⟩⟩ := addLeaf_child_eq_some.mp hj
      · -- nothing lies below the leaf
        rcases hjk.cases_child with rfl | ⟨s', m, hm, -⟩
        · exact absurd rfl hk
        · exact absurd rfl (addLeaf_child_eq_some.mp hm).1
      · exact .step hc (ih (fun hjn => hn.2 _ _ (hjn ▸ hc)) hk)
  · intro h
    induction h with
    | refl i => exact .refl i
    | @step i j k s hj _ ih =>
      refine .step (addLeaf_child_eq_some.mpr ⟨hi, Or.inr ⟨?_, hj⟩⟩)
        (ih (fun hjn => hn.2 _ _ (hjn ▸ hj)) hk)
      rintro ⟨rfl, rfl⟩
      rw [hfree] at hj
      cases hj

/-! ## A split edge -/

section Split

variable {a j d : ι} {t : τ} {k : Nat}

theorem splitEdge_child_eq_some {i m : ι} {s : τ} :
    (T.splitEdge a t j d k).child i s = some m ↔
      (i = d ∧ m = j ∧ ((T.edge j).drop k).head? = some s) ∨
      (i ≠ d ∧ i = a ∧ s = t ∧ m = d) ∨
      (i ≠ d ∧ ¬ (i = a ∧ s = t) ∧ T.child i s = some m) := by
  simp only [splitEdge]
  by_cases hi : i = d
  · rw [if_pos hi]
    by_cases hs : ((T.edge j).drop k).head? = some s
    · rw [if_pos hs]
      constructor
      · intro hm
        exact Or.inl ⟨hi, (Option.some.inj hm).symm, hs⟩
      · rintro (⟨-, rfl, -⟩ | ⟨h, -⟩ | ⟨h, -⟩)
        · rfl
        · exact absurd hi h
        · exact absurd hi h
    · rw [if_neg hs]
      constructor
      · intro hm
        cases hm
      · rintro (⟨-, -, h⟩ | ⟨h, -⟩ | ⟨h, -⟩)
        · exact absurd h hs
        · exact absurd hi h
        · exact absurd hi h
  · rw [if_neg hi]
    by_cases h : i = a ∧ s = t
    · rw [if_pos h]
      constructor
      · intro hm
        exact Or.inr (Or.inl ⟨hi, h.1, h.2, (Option.some.inj hm).symm⟩)
      · rintro (⟨h1, -⟩ | ⟨-, -, -, rfl⟩ | ⟨-, hne, -⟩)
        · exact absurd h1 hi
        · rfl
        · exact absurd h hne
    · rw [if_neg h]
      constructor
      · intro hm
        exact Or.inr (Or.inr ⟨hi, h, hm⟩)
      · rintro (⟨h1, -⟩ | ⟨-, h1, h2, -⟩ | ⟨-, -, hm⟩)
        · exact absurd h1 hi
        · exact absurd ⟨h1, h2⟩ h
        · exact hm

theorem splitEdge_edge_of_ne {i : ι} (hd : i ≠ d) (hj : i ≠ j) :
    (T.splitEdge a t j d k).edge i = T.edge i := by
  simp [splitEdge, hd, hj]

theorem splitEdge_edge_new : (T.splitEdge a t j d k).edge d = (T.edge j).take k := by
  simp [splitEdge]

theorem splitEdge_edge_lower (hjd : j ≠ d) :
    (T.splitEdge a t j d k).edge j = (T.edge j).drop k := by
  simp [splitEdge, hjd]

/-- The words after a split: the old ones, and one for the new intermediate node. -/
theorem splitEdge_reaches (hT : T.WellFormed) (hd : T.Fresh d) (had : a ≠ d)
    (haj : T.child a t = some j) (hk : k < (T.edge j).length) {i : ι} {p : List τ} :
    (T.splitEdge a t j d k).Reaches i p ↔
      T.Reaches i p ∨ (i = d ∧ ∃ q, T.Reaches a q ∧ p = q ++ (T.edge j).take k) := by
  have hjd : j ≠ d := fun h => hd.2 _ _ (h ▸ haj)
  -- a pointer other than the split one leads to neither end of the split edge
  have off : ∀ {i m s}, ¬ (i = a ∧ s = t) → T.child i s = some m → m ≠ d ∧ m ≠ j := by
    intro i m s hne hm
    refine ⟨fun h => hd.2 _ _ (h ▸ hm), ?_⟩
    rintro rfl
    exact hne ⟨hT.parent_unique hm haj, hT.letter_unique hm haj⟩
  have hup : (T.splitEdge a t j d k).child a t = some d :=
    splitEdge_child_eq_some.mpr (Or.inr (Or.inl ⟨had, rfl, rfl, rfl⟩))
  obtain ⟨s₀, rest, hs₀⟩ : ∃ s₀ rest, (T.edge j).drop k = s₀ :: rest := by
    cases h : (T.edge j).drop k with
    | nil => exact absurd (List.drop_eq_nil_iff.mp h) (by omega)
    | cons s₀ rest => exact ⟨s₀, rest, rfl⟩
  have hdown : (T.splitEdge a t j d k).child d s₀ = some j :=
    splitEdge_child_eq_some.mpr (Or.inl ⟨rfl, rfl, by rw [hs₀]; rfl⟩)
  have old : ∀ {i p}, T.Reaches i p → (T.splitEdge a t j d k).Reaches i p := by
    intro i p h
    induction h with
    | root => exact .root
    | @step i m s p hi hm ih =>
      by_cases h : i = a ∧ s = t
      · obtain ⟨rfl, rfl⟩ := h
        obtain rfl : m = j := Option.some.inj (hm.symm.trans haj)
        have := (ih.step hup).step hdown
        rw [splitEdge_edge_new, splitEdge_edge_lower hjd, List.append_assoc,
          List.take_append_drop] at this
        exact this
      · have hid : i ≠ d := fun h => hd.not_reached (h ▸ hi)
        have := ih.step (splitEdge_child_eq_some.mpr (Or.inr (Or.inr ⟨hid, h, hm⟩)))
        rwa [splitEdge_edge_of_ne (off h hm).1 (off h hm).2] at this
  constructor
  · intro h
    induction h with
    | root => exact Or.inl .root
    | @step i m s p _ hm ih =>
      rcases splitEdge_child_eq_some.mp hm with
        ⟨rfl, rfl, -⟩ | ⟨hid, rfl, rfl, rfl⟩ | ⟨hid, hne, hm⟩
      · rcases ih with hi | ⟨-, q, hq, rfl⟩
        · exact absurd hi hd.not_reached
        · left
          rw [splitEdge_edge_lower hjd, List.append_assoc, List.take_append_drop]
          exact hq.step haj
      · rcases ih with hi | ⟨h, -⟩
        · exact Or.inr ⟨rfl, p, hi, by rw [splitEdge_edge_new]⟩
        · exact absurd h hid
      · rcases ih with hi | ⟨h, -⟩
        · left
          rw [splitEdge_edge_of_ne (off hne hm).1 (off hne hm).2]
          exact hi.step hm
        · exact absurd h hid
  · rintro (h | ⟨rfl, q, hq, rfl⟩)
    · exact old h
    · have := (old hq).step hup
      rwa [splitEdge_edge_new] at this

/-- What lies above a node after a split: the old nodes, and the new one if it is on the edge
above. -/
theorem splitEdge_below (hd : T.Fresh d) (had : a ≠ d)
    (haj : T.child a t = some j) (hk : k < (T.edge j).length) {i m : ι} (hm : m ≠ d) :
    (T.splitEdge a t j d k).Below i m ↔ if i = d then T.Below j m else T.Below i m := by
  have old : ∀ {i}, T.Below i m → i ≠ d → (T.splitEdge a t j d k).Below i m := by
    intro i h
    induction h with
    | refl i => exact fun _ => .refl i
    | @step i n m s hn _ ih =>
      intro hi
      have hrest := ih hm fun hnd => hd.2 _ _ (hnd ▸ hn)
      by_cases h : i = a ∧ s = t
      · -- the edge is split: go through the new node
        obtain ⟨rfl, rfl⟩ := h
        obtain rfl : j = n := Option.some.inj (haj.symm.trans hn)
        obtain ⟨first, rest, hfirst⟩ : ∃ first rest, (T.edge j).drop k = first :: rest := by
          cases h : (T.edge j).drop k with
          | nil => exact absurd (List.drop_eq_nil_iff.mp h) (by omega)
          | cons first rest => exact ⟨first, rest, rfl⟩
        exact .step (splitEdge_child_eq_some.mpr (Or.inr (Or.inl ⟨hi, rfl, rfl, rfl⟩)))
          (.step (splitEdge_child_eq_some.mpr (Or.inl ⟨rfl, rfl, by rw [hfirst]; rfl⟩)) hrest)
      · exact .step (splitEdge_child_eq_some.mpr (Or.inr (Or.inr ⟨hi, h, hn⟩))) hrest
  have hjd : j ≠ d := fun hjd => hd.2 _ _ (hjd ▸ haj)
  constructor
  · clear old
    intro h
    induction h with
    | refl i => rw [if_neg hm]; exact .refl i
    | @step i n m s hn _ ih =>
      have hbelow := ih hm
      rcases splitEdge_child_eq_some.mp hn with ⟨hi, hnj, -⟩ | ⟨hi, hia, hst, hnd⟩ | ⟨hi, -, hold⟩
      · rw [if_pos hi]
        rwa [if_neg (hnj ▸ hjd), hnj] at hbelow
      · rw [if_neg hi]
        rw [if_pos hnd] at hbelow
        exact .step (hia ▸ haj) hbelow
      · rw [if_neg hi]
        rw [if_neg fun hnd => hd.2 _ _ (hnd ▸ hold)] at hbelow
        exact .step hold hbelow
  · intro h
    split at h
    · rename_i hi
      obtain ⟨first, rest, hfirst⟩ : ∃ first rest, (T.edge j).drop k = first :: rest := by
        cases h : (T.edge j).drop k with
        | nil => exact absurd (List.drop_eq_nil_iff.mp h) (by omega)
        | cons first rest => exact ⟨first, rest, rfl⟩
      exact .step (splitEdge_child_eq_some.mpr (Or.inl ⟨hi, rfl, by rw [hfirst]; rfl⟩))
        (old h hjd)
    · rename_i hi
      exact old h hi

theorem WellFormed.splitEdge (hT : T.WellFormed) (hd : T.Fresh d) (had : a ≠ d)
    (haj : T.child a t = some j) (hk0 : 0 < k) :
    (T.splitEdge a t j d k).WellFormed where
  edge_head := by
    have hjd : j ≠ d := fun h => hd.2 _ _ (h ▸ haj)
    intro i m s h
    rcases splitEdge_child_eq_some.mp h with ⟨rfl, rfl, hs⟩ | ⟨-, rfl, rfl, rfl⟩ | ⟨-, hne, hm⟩
    · rw [splitEdge_edge_lower hjd]
      exact List.head?_eq_some_iff.mp hs
    · obtain ⟨rest, hrest⟩ := hT.edge_head haj
      obtain ⟨k, rfl⟩ : ∃ k', k = k' + 1 := ⟨k - 1, by omega⟩
      exact ⟨rest.take k, by rw [splitEdge_edge_new, hrest, List.take_succ_cons]⟩
    · have hmj : m ≠ j := by
        rintro rfl
        exact hne ⟨hT.parent_unique hm haj, hT.letter_unique hm haj⟩
      rw [splitEdge_edge_of_ne (fun h => hd.2 _ _ (h ▸ hm)) hmj]
      exact hT.edge_head hm
  parent_unique := by
    intro i i' m s s' h h'
    rcases splitEdge_child_eq_some.mp h with ⟨rfl, rfl, -⟩ | ⟨-, rfl, rfl, rfl⟩ | ⟨-, hne, hm⟩
    · rcases splitEdge_child_eq_some.mp h' with ⟨rfl, -, -⟩ | ⟨-, -, -, rfl⟩ | ⟨-, hne, hm⟩
      · rfl
      · exact absurd haj (hd.2 _ _)
      · exact absurd ⟨hT.parent_unique hm haj, hT.letter_unique hm haj⟩ hne
    · rcases splitEdge_child_eq_some.mp h' with ⟨-, rfl, -⟩ | ⟨-, rfl, -, -⟩ | ⟨-, -, hm⟩
      · exact absurd haj (hd.2 _ _)
      · rfl
      · exact absurd hm (hd.2 _ _)
    · rcases splitEdge_child_eq_some.mp h' with ⟨-, rfl, -⟩ | ⟨-, -, -, rfl⟩ | ⟨-, -, hm'⟩
      · exact absurd ⟨hT.parent_unique hm haj, hT.letter_unique hm haj⟩ hne
      · exact absurd hm (hd.2 _ _)
      · exact hT.parent_unique hm hm'
  root_orphan := by
    intro i s h
    rcases splitEdge_child_eq_some.mp h with ⟨-, hj, -⟩ | ⟨-, -, -, h⟩ | ⟨-, -, hm⟩
    · exact hT.root_orphan a t (by rw [haj, ← hj]; rfl)
    · exact hd.1 h.symm
    · exact hT.root_orphan _ _ hm
  ranked := by
    -- doubling the ranks makes room for the new node between the ends of the edge
    obtain ⟨rank, hr⟩ := hT.ranked
    have hjd : j ≠ d := fun h => hd.2 _ _ (h ▸ haj)
    have := hr _ _ _ haj
    refine ⟨fun i => if i = d then 2 * rank a + 1 else 2 * rank i, ?_⟩
    intro i s m h
    rcases splitEdge_child_eq_some.mp h with ⟨rfl, rfl, -⟩ | ⟨hid, rfl, rfl, rfl⟩ | ⟨hid, -, hm⟩
    · simp only [if_true, if_neg hjd]
      omega
    · simp only [if_true, if_neg hid]
      omega
    · have hmd : m ≠ d := fun h => hd.2 _ _ (h ▸ hm)
      have := hr _ _ _ hm
      simp only [if_neg hid, if_neg hmd]
      omega

end Split

end Update

/-! ## Fewer pointers -/

/-- `T'` has some of the pointers of `T`, and the labels of the nodes they point at. -/
structure Prunes (T' T : RadixTree ι τ) : Prop where
  root_eq : T'.root = T.root
  child_le : ∀ {i j : ι} {t : τ}, T'.child i t = some j → T.child i t = some j
  edge_eq : ∀ {i j : ι} {t : τ}, T'.child i t = some j → T'.edge j = T.edge j

section Prunes

variable {T T' : RadixTree ι τ}

theorem Prunes.reaches (h : T'.Prunes T) {i : ι} {p : List τ} (hi : T'.Reaches i p) :
    T.Reaches i p := by
  induction hi with
  | root => rw [h.root_eq]; exact .root
  | step _ hj ih => rw [h.edge_eq hj]; exact ih.step (h.child_le hj)

/-- A name is still reached when no pointer on its path was removed. -/
theorem Prunes.retains (h : T'.Prunes T) {i : ι} {p : List τ} (hi : T.Reaches i p)
    (hkeep : ∀ {a j : ι} {t : τ}, T.child a t = some j → T.Below j i → T'.child a t = some j) :
    T'.Reaches i p := by
  induction hi with
  | root => rw [← h.root_eq]; exact .root
  | step _ hj ih =>
    have hj' := hkeep hj (.refl _)
    rw [← h.edge_eq hj']
    exact (ih fun ha hbelow => hkeep ha (hbelow.trans (.step hj (.refl _)))).step hj'

theorem Prunes.wellFormed (h : T'.Prunes T) (hT : T.WellFormed) : T'.WellFormed where
  edge_head := by
    intro i j t hj
    rw [h.edge_eq hj]
    exact hT.edge_head (h.child_le hj)
  parent_unique := fun hj hj' => hT.parent_unique (h.child_le hj) (h.child_le hj')
  root_orphan := by
    intro i t hj
    rw [h.root_eq] at hj
    exact hT.root_orphan _ _ (h.child_le hj)
  ranked := by
    obtain ⟨rank, hr⟩ := hT.ranked
    exact ⟨rank, fun i t j hj => hr _ _ _ (h.child_le hj)⟩

end Prunes

/-! ## Walks -/

/-- The walk of the word `w` from `i`: the longest chain whose labels `w` starts with. -/
inductive Walk (T : RadixTree ι τ) : ι → List τ → List ι → Prop
  | stop {i : ι} {w : List τ}
      (h : ∀ (t : τ) (j : ι), w.head? = some t → T.child i t = some j → ¬ T.edge j <+: w) :
      Walk T i w []
  | next {i j : ι} {t : τ} {w : List τ} {js : List ι} (h : T.child i t = some j)
      (rest : Walk T j w js) : Walk T i (T.edge j ++ w) (j :: js)

section Walk

variable {T : RadixTree ι τ}

theorem Walk.chain {i : ι} {w : List τ} {js : List ι} (h : T.Walk i w js) : T.Chain i js := by
  induction h with
  | stop => exact .nil _
  | next hj _ ih => exact .cons hj ih

/-- A chain is the walk of the word it spells. -/
theorem Chain.walk {i : ι} {js : List ι} (h : T.Chain i js) : T.Walk i (T.spell js) js := by
  induction h with
  | nil i => exact .stop fun t j ht => by cases ht
  | cons hj _ ih => exact .next hj ih

theorem Walk.spell_prefix {i : ι} {w : List τ} {js : List ι} (h : T.Walk i w js) :
    T.spell js <+: w := by
  induction h with
  | stop => exact List.nil_prefix
  | next _ _ ih => exact (List.prefix_append_right_inj _).mpr ih

/-- A walk covers every chain that the word spells out. -/
theorem Walk.covers (hT : T.WellFormed) {i : ι} {w : List τ} {js ks : List ι}
    (h : T.Walk i w js) (hks : T.Chain i ks) (hw : T.spell ks <+: w) : ks <+: js := by
  induction h generalizing ks with
  | @stop i w hstop =>
    cases hks with
    | nil => exact List.nil_prefix
    | @cons _ k t ks hk hks =>
      obtain ⟨e, he⟩ := hT.edge_head hk
      have hkw : T.edge k <+: w := (List.prefix_append _ _).trans hw
      refine absurd hkw (hstop t k ?_ hk)
      obtain ⟨r, rfl⟩ := hkw
      simp [he]
  | @next i j t w js hj _ ih =>
    cases hks with
    | nil => exact List.nil_prefix
    | @cons _ k t' ks hk hks =>
      obtain ⟨e, he⟩ := hT.edge_head hj
      obtain ⟨e', he'⟩ := hT.edge_head hk
      have htt : t' = t := by
        simp only [spell_cons, he, he', List.cons_append, List.cons_prefix_cons] at hw
        exact hw.1
      subst htt
      obtain rfl : j = k := Option.some.inj (hj.symm.trans hk)
      simp only [spell_cons, List.prefix_append_right_inj] at hw
      exact List.cons_prefix_cons.mpr ⟨rfl, ih hks hw⟩

/-- A word that the walked word starts with and that leads to a node lies on the walk. -/
theorem Walk.exists_split (hT : T.WellFormed) {w : List τ} {js : List ι}
    (h : T.Walk T.root w js) {j : ι} {p : List τ} (hj : T.Reaches j p) (hp : p <+: w) :
    ∃ ks ls, js = ks ++ ls ∧ T.Chain T.root ks ∧ T.spell ks = p ∧
      ((ks = [] ∧ j = T.root) ∨ ∃ ks', ks = ks' ++ [j]) := by
  obtain ⟨ks, hks, hlast, rfl⟩ := hj.exists_chain
  obtain ⟨ls, rfl⟩ := h.covers hT hks hp
  refine ⟨ks, ls, rfl, hks, rfl, ?_⟩
  rcases List.eq_nil_or_concat ks with rfl | ⟨ks', k, rfl⟩
  · exact Or.inl ⟨rfl, hlast.symm⟩
  · rw [List.getLast_cons (by simp)] at hlast
    exact Or.inr ⟨ks', by simpa using hlast⟩

theorem exists_walk (hT : T.WellFormed) (i : ι) (w : List τ) : ∃ js, T.Walk i w js := by
  induction h : w.length using Nat.strongRecOn generalizing i w with
  | _ n ih =>
    by_cases hstop : ∀ (t : τ) (j : ι), w.head? = some t → T.child i t = some j → ¬ T.edge j <+: w
    · exact ⟨[], .stop hstop⟩
    · push Not at hstop
      obtain ⟨t, j, -, hj, rest, rfl⟩ := hstop
      have := List.length_pos_of_ne_nil (hT.edge_ne_nil hj)
      obtain ⟨js, hjs⟩ := ih rest.length (by simp at h; omega) j rest rfl
      exact ⟨j :: js, .next hj hjs⟩

theorem Walk.unique (hT : T.WellFormed) {i : ι} {w : List τ} {js ks : List ι}
    (hj : T.Walk i w js) (hk : T.Walk i w ks) : js = ks := by
  have h1 := hk.covers hT hj.chain hj.spell_prefix
  have h2 := hj.covers hT hk.chain hk.spell_prefix
  exact h1.eq_of_length (Nat.le_antisymm h1.length_le h2.length_le)

/-- The nodes of the walk from the root are the nodes, other than the root, whose word the
walked word starts with. -/
theorem Walk.mem_iff (hT : T.WellFormed) {w : List τ} {js : List ι} (h : T.Walk T.root w js)
    {j : ι} : j ∈ js ↔ j ≠ T.root ∧ ∃ p, T.Reaches j p ∧ p <+: w := by
  constructor
  · intro hj
    obtain ⟨i, t, hij⟩ := h.chain.exists_parent hj
    refine ⟨fun hr => hT.root_orphan i t (hr ▸ hij), ?_⟩
    obtain ⟨ls, rs, rfl⟩ := List.append_of_mem hj
    have hreach : T.Reaches j (T.spell (ls ++ [j])) := by
      simpa using Reaches.root.chain (h.chain.take_to ls)
        (by rw [List.getLast_cons (by simp)]; simp)
    refine ⟨_, hreach, List.IsPrefix.trans ?_ h.spell_prefix⟩
    rw [spell_append, spell_append, spell_cons, spell_cons, spell_nil, List.append_nil,
      ← List.append_assoc]
    exact List.prefix_append _ _
  · rintro ⟨hj, p, hp, hpw⟩
    obtain ⟨ks, hks, hlast, rfl⟩ := hp.exists_chain
    obtain ⟨rs, rfl⟩ := h.covers hT hks hpw
    rcases List.eq_nil_or_concat ks with rfl | ⟨ls, l, rfl⟩
    · exact absurd (by simpa using hlast.symm) hj
    · rw [List.getLast_cons (by simp)] at hlast
      simp at hlast
      simp [hlast]

end Walk

end RadixTree
