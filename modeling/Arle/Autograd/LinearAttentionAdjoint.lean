import Arle.Autograd.LinearAttention
import Arle.Lib.DeltaRule

/-!
# The gradients of linear attention

The forward scan of each value head is a run of the delta rule, which it records, and the backward
scan threads the gradient of the memory through the record. Over dual numbers the forward scan
gives the derivative in a direction, and the gradients are its adjoint; so are those of the
convolution.
-/

open Matrix

namespace Arle.Autograd

open CountedLoop

variable {p : LinearAttentionParams} {R : Type} [CommRing R]

/-! ## Places -/

section Places

variable {batch seqLen heads width keyDim valueDim : Nat}

theorem idx3_inj {b b' : Fin batch} {s s' : Fin seqLen} {d d' : Fin width} :
    idx3 b s d = idx3 b' s' d' ↔ (b = b' ∧ s = s') ∧ d = d' := by
  change place (place b s) d = place (place b' s') d' ↔ _
  rw [place_inj, place_inj]

theorem idx4_inj {b b' : Fin batch} {s s' : Fin seqLen} {h h' : Fin heads} {d d' : Fin width} :
    idx4 b s h d = idx4 b' s' h' d' ↔ ((b = b' ∧ s = s') ∧ h = h') ∧ d = d' := by
  change place (idx3 b s h) d = place (idx3 b' s' h') d' ↔ _
  rw [place_inj, idx3_inj]

theorem stateAt_inj {h h' : Fin heads} {i i' : Fin (keyDim * valueDim)} :
    stateAt h i = stateAt h' i' ↔ h = h' ∧ i = i' := block_inj

theorem stateAt_place_inj {h h' : Fin heads} {k k' : Fin keyDim} {v v' : Fin valueDim} :
    stateAt h (place k v) = stateAt h' (place k' v') ↔ h = h' ∧ k = k' ∧ v = v' := by
  rw [stateAt_inj, place_inj]

theorem idx4_injective (b : Fin batch) (s : Fin seqLen) (h : Fin heads) :
    Function.Injective fun d : Fin width => idx4 b s h d :=
  fun _ _ hd => (idx4_inj.mp hd).2

theorem exists_stateAt (y : Fin (heads * keyDim * valueDim)) :
    ∃ (h : Fin heads) (i : Fin (keyDim * valueDim)), stateAt h i = y := exists_block y

theorem stateColumn_injective (h : Fin heads) (v : Fin valueDim) :
    Function.Injective fun k : Fin keyDim => stateAt h (place k v) :=
  fun _ _ hk => (stateAt_place_inj.mp hk).2.1

theorem historyAt_inj {b b' : Fin batch} {s s' : Fin seqLen} {h h' : Fin heads}
    {i i' : Fin (keyDim * valueDim)} :
    historyAt b s h i = historyAt b' s' h' i' ↔ ((b = b' ∧ s = s') ∧ h = h') ∧ i = i' := by
  change block (idx3 b s h) i = block (idx3 b' s' h') i' ↔ _
  rw [block_inj, idx3_inj]

theorem historyAt_injective (b : Fin batch) (s : Fin seqLen) (h : Fin heads) :
    Function.Injective fun i : Fin (keyDim * valueDim) => historyAt b s h i :=
  fun _ _ hi => (historyAt_inj.mp hi).2

theorem finalAt_inj {b b' : Fin batch} {h h' : Fin heads} {i i' : Fin (keyDim * valueDim)} :
    finalAt b h i = finalAt b' h' i' ↔ (b = b' ∧ h = h') ∧ i = i' := by
  change block (place b h) i = block (place b' h') i' ↔ _
  rw [block_inj, place_inj]

theorem finalCopyAt_injective (b : Fin batch) :
    Function.Injective fun i : Fin (heads * keyDim * valueDim) => finalCopyAt b i :=
  fun _ _ h => Fin.ext (Nat.add_left_cancel (congrArg Fin.val h))

theorem finalCopyAt_stateAt (b : Fin batch) (h : Fin heads) (i : Fin (keyDim * valueDim)) :
    finalCopyAt b (stateAt h i) = finalAt b h i := by
  apply Fin.ext
  change (b : Nat) * heads * keyDim * valueDim + (h * keyDim * valueDim + i) =
    (b * heads + h) * keyDim * valueDim + i
  ring

end Places

/-! ## The loops of the forward scan -/

/-- The entries of a flat matrix. -/
def entries {rows cols : Nat} (matrix : Fin (rows * cols) → R) : Matrix (Fin rows) (Fin cols) R :=
  fun row col => matrix (place row col)

/-- The state of a head. -/
def headState (state : HeadStates p R) (head : Fin p.numValueHeads) :
    Matrix (Fin p.keyDim) (Fin p.valueDim) R :=
  fun keyIdx valueIdx => state (stateAt head (place keyIdx valueIdx))

section Forward

variable (head : Fin p.numValueHeads) {head' : Fin p.numValueHeads} (state : HeadStates p R)

theorem decayState_self (e : R) :
    headState (decayState head e state) head = e • headState state head := by
  ext i j
  refine (foldl_foldl_update (fun i j => stateAt head (place i j)) ?_
    (fun _ _ r => r * e) state i j).trans (mul_comm _ _)
  intro i j i' j' h
  exact (stateAt_place_inj.mp h).2

theorem decayState_of_ne (e : R) (h : head ≠ head') :
    headState (decayState head e state) head' = headState state head' := by
  ext i j
  exact foldl_foldl_update_of_ne (fun i j => stateAt head (place i j))
    (fun _ _ r => r * e) state fun i' j' h' => h (stateAt_place_inj.mp h').1

theorem readState_eq (row : Fin p.keyDim → R) :
    readState head row state = row ᵥ* headState state head := by
  funext j
  refine (foldl_add _ _).trans ((zero_add _).trans ?_)
  exact Finset.sum_congr rfl fun i _ => mul_comm _ _

variable (b : Fin p.batch) (s : Fin p.seqLen) (q k : Fin p.keyDim → R)
  (kvMem : Fin (p.batch * p.seqLen * p.numValueHeads * p.valueDim) → R)

theorem readMemory_eq : readMemory head b s k state kvMem =
    (k ᵥ* headState state head, Fin.foldl p.valueDim (fun kvMem j =>
      Function.update kvMem (idx4 b s head j) ((k ᵥ* headState state head) j)) kvMem) := by
  refine (foldl_prod (fun kvRow j => Function.update kvRow j (readState head k state j))
    (fun kvMem j => Function.update kvMem (idx4 b s head j) (readState head k state j))
    0 kvMem).trans ?_
  rw [foldl_update, readState_eq]

variable (v kvRow : Fin p.valueDim → R) (beta : R)

/-- One column of the state. -/
def writeColumn (delta : R) (j : Fin p.valueDim) : HeadStates p R :=
  Fin.foldl p.keyDim (fun state i => addAt state (stateAt head (place i j)) (delta * k i)) state

theorem writeColumn_self (delta : R) (i : Fin p.keyDim) (j : Fin p.valueDim) :
    headState (writeColumn head state k delta j) head i j =
      headState state head i j + delta * k i := by
  exact (foldl_update_place (stateColumn_injective head j) (fun i r => r + delta * k i) state).1 i

theorem writeColumn_of_ne (delta : R) (i : Fin p.keyDim) {j j' : Fin p.valueDim}
    (h : head = head' → j ≠ j') :
    headState (writeColumn head state k delta j) head' i j' = headState state head' i j' := by
  refine (foldl_update_place (stateColumn_injective head j) (fun i r => r + delta * k i)
    state).2 _ fun i' h' => ?_
  obtain ⟨hhead, -, hj⟩ := stateAt_place_inj.mp h'
  exact h hhead hj

/-- The corrected states and the core outputs. -/
theorem writeDelta_eq :
    headState (writeDelta head q k v kvRow beta state).1 head =
      headState state head + vecMulVec k (beta • (v - kvRow)) ∧
    (writeDelta head q k v kvRow beta state).2 =
      q ᵥ* (headState state head + vecMulVec k (beta • (v - kvRow))) ∧
    ∀ head', head ≠ head' →
      headState (writeDelta head q k v kvRow beta state).1 head' = headState state head' := by
  let new := headState state head + vecMulVec k (beta • (v - kvRow))
  let step : HeadStates p R × (Fin p.valueDim → R) → Fin p.valueDim →
      HeadStates p R × (Fin p.valueDim → R) := fun scan j =>
    let state := writeColumn head scan.1 k ((v j - kvRow j) * beta) j
    (state, Function.update scan.2 j (readState head q state j))
  have hloop : writeDelta head q k v kvRow beta state = Fin.foldl p.valueDim step (state, 0) := rfl
  have hcolumns := foldl_done (f := step) (a := (state, 0))
    (fun j scan => ∀ i, headState scan.1 head i j = headState state head i j)
    (fun j scan => (∀ i, headState scan.1 head i j = new i j) ∧ scan.2 j = (q ᵥ* new) j)
    (fun _ _ => rfl)
    (by
      intro j scan hready
      have hnew (i : Fin p.keyDim) : headState (step scan j).1 head i j = new i j := by
        refine (writeColumn_self head scan.1 k _ i j).trans ?_
        rw [hready i]
        change _ = headState state head i j + k i * (beta * (v j - kvRow j))
        ring
      refine ⟨hnew, (Function.update_self ..).trans ?_⟩
      rw [readState_eq]
      have hsum : ∑ i, q i * headState (step scan j).1 head i j = ∑ i, q i * new i j :=
        Finset.sum_congr rfl fun i _ => congrArg (q i * ·) (hnew i)
      exact hsum)
    (by
      intro j j' scan hj
      have hkeep (i : Fin p.keyDim) : headState (step scan j).1 head i j' =
          headState scan.1 head i j' := writeColumn_of_ne head scan.1 k _ i fun _ => hj.symm
      refine ⟨fun h i => (hkeep i).trans (h i), fun h => ⟨fun i => (hkeep i).trans (h.1 i), ?_⟩⟩
      exact (Function.update_of_ne hj ..).trans h.2)
  rw [hloop]
  refine ⟨?_, funext fun j => (hcolumns j).2, fun head' hhead => ?_⟩
  · ext i j
    exact (hcolumns j).1 i
  · refine foldl_keeps (f := step)
      (fun scan => headState scan.1 head' = headState state head') rfl ?_
    intro j scan h
    rw [← h]
    ext i j'
    exact writeColumn_of_ne head scan.1 k _ i fun h => absurd h hhead

end Forward

/-! ## The forward scan is a run of the delta rule -/

namespace Activations

variable (x : Activations p R) (b : Fin p.batch) (s : Fin p.seqLen) (h : Fin p.numValueHeads)

/-- What a value head reads at one position. -/
def row : DeltaRule.Row (Fin p.keyDim) (Fin p.valueDim) R where
  q := x.q b s (p.keyHead h)
  k := x.k b s (p.keyHead h)
  v := x.v b s h
  beta := x.beta b s h
  decay := x.expG b s h

/-- What a value head reads, in a run that goes on with zeros. -/
def rows (t : Nat) : DeltaRule.Row (Fin p.keyDim) (Fin p.valueDim) R :=
  if ht : t < p.seqLen then x.row b ⟨t, ht⟩ h else 0

theorem rows_val : x.rows b h s = x.row b s h := dif_pos s.isLt

/-- The state `S_t` of the recurrence. -/
def memory (t : Nat) : Matrix (Fin p.keyDim) (Fin p.valueDim) R := DeltaRule.state (x.rows b h) t

theorem memory_succ : x.memory b h (s + 1) = (x.row b s h).next (x.memory b h s) := by
  rw [← rows_val]
  rfl

end Activations

/-- What the forward scan leaves for one head and position. -/
structure Recorded (x : Activations p R) (forward : LinearAttentionForward p R) (b : Fin p.batch)
    (s : Fin p.seqLen) (h : Fin p.numValueHeads) : Prop where
  beta : forward.beta (idx3 b s h) = x.beta b s h
  expG : forward.expG (idx3 b s h) = x.expG b s h
  kvMem : ∀ j, forward.kvMem (idx4 b s h j) = (x.row b s h).memory (x.memory b h s) j
  history : ∀ i j, forward.stateHistory (historyAt b s h (place i j)) = x.memory b h (s + 1) i j
  coreOut : ∀ j, forward.coreOut (idx4 b s h j) = (x.row b s h).out (x.memory b h s) j

section Scan

variable (x : Activations p R) (b : Fin p.batch) (s : Fin p.seqLen) (h : Fin p.numValueHeads)
  (scan : HeadStates p R × LinearAttentionForward p R)

/-- The states and core outputs after the step of a head. -/
def headStep : HeadStates p R × (Fin p.valueDim → R) :=
  let state := decayState h (x.expG b s h) scan.1
  writeDelta h (x.row b s h).q (x.row b s h).k (x.row b s h).v
    (readMemory h b s (x.row b s h).k state scan.2.kvMem).1 (x.beta b s h) state

theorem headStep_eq {S : Matrix (Fin p.keyDim) (Fin p.valueDim) R}
    (hS : headState scan.1 h = S) :
    headState (headStep x b s h scan).1 h = (x.row b s h).next S ∧
      (headStep x b s h scan).2 = (x.row b s h).out S ∧
      (readMemory h b s (x.row b s h).k (decayState h (x.expG b s h) scan.1) scan.2.kvMem).1 =
        (x.row b s h).memory S := by
  have hdecay : headState (decayState h (x.expG b s h) scan.1) h = (x.row b s h).decayed S := by
    rw [decayState_self, hS]
    rfl
  have hread : (readMemory h b s (x.row b s h).k (decayState h (x.expG b s h) scan.1)
      scan.2.kvMem).1 = (x.row b s h).memory S := by
    rw [readMemory_eq, hdecay]
    rfl
  obtain ⟨hnext, hout, -⟩ := writeDelta_eq h (decayState h (x.expG b s h) scan.1) (x.row b s h).q
    (x.row b s h).k (x.row b s h).v ((x.row b s h).memory S) (x.beta b s h)
  rw [hdecay] at hnext hout
  rw [headStep, hread]
  exact ⟨hnext, hout, rfl⟩

theorem forwardHead_state_self {S : Matrix (Fin p.keyDim) (Fin p.valueDim) R}
    (hS : headState scan.1 h = S) :
    headState (forwardHead h x b s scan).1 h = (x.row b s h).next S :=
  (headStep_eq x b s h scan hS).1

theorem forwardHead_state_of_ne {h' : Fin p.numValueHeads} (hh : h ≠ h') :
    headState (forwardHead h x b s scan).1 h' = headState scan.1 h' :=
  ((writeDelta_eq h ..).2.2 h' hh).trans (decayState_of_ne h scan.1 _ hh)

theorem forwardHead_kvMem (j : Fin p.valueDim) :
    (forwardHead h x b s scan).2.kvMem (idx4 b s h j) =
      (readMemory h b s (x.row b s h).k (decayState h (x.expG b s h) scan.1) scan.2.kvMem).1 j := by
  change (readMemory h b s (x.row b s h).k (decayState h (x.expG b s h) scan.1)
    scan.2.kvMem).2 (idx4 b s h j) = _
  rw [readMemory_eq]
  exact (foldl_update_place (idx4_injective b s h) (fun j _ => ((x.row b s h).k ᵥ* _) j) _).1 j

theorem forwardHead_recorded (hS : headState scan.1 h = x.memory b h s) :
    Recorded x (forwardHead h x b s scan).2 b s h := by
  obtain ⟨hnext, hout, hread⟩ := headStep_eq x b s h scan hS
  refine ⟨Function.update_self .., Function.update_self .., fun j => ?_, fun i j => ?_,
    fun j => ?_⟩
  · rw [forwardHead_kvMem, hread]
  · refine ((foldl_update_place (historyAt_injective b s h)
      (fun i _ => (headStep x b s h scan).1 (stateAt h i)) _).1 (place i j)).trans ?_
    rw [x.memory_succ, ← hnext]
    rfl
  · refine ((foldl_update_place (idx4_injective b s h)
      (fun j _ => (headStep x b s h scan).2 j) _).1 j).trans ?_
    rw [hout]

/-- The step of a head keeps the records of the others. -/
theorem Recorded.forwardHead {x : Activations p R}
    {scan : HeadStates p R × LinearAttentionForward p R}
    {b b' : Fin p.batch} {s s' : Fin p.seqLen} {h h' : Fin p.numValueHeads}
    (hrec : Recorded x scan.2 b' s' h') (hne : ¬((b = b' ∧ s = s') ∧ h = h')) :
    Recorded x (forwardHead h x b s scan).2 b' s' h' := by
  refine ⟨?_, ?_, fun j => ?_, fun i j => ?_, fun j => ?_⟩
  · exact (Function.update_of_ne (fun heq => hne (idx3_inj.mp heq.symm)) ..).trans hrec.beta
  · exact (Function.update_of_ne (fun heq => hne (idx3_inj.mp heq.symm)) ..).trans hrec.expG
  · refine Eq.trans ?_ (hrec.kvMem j)
    change (readMemory h b s (x.row b s h).k (decayState h (x.expG b s h) scan.1)
      scan.2.kvMem).2 (idx4 b' s' h' j) = _
    rw [readMemory_eq]
    exact (foldl_update_place (idx4_injective b s h) (fun j _ => ((x.row b s h).k ᵥ* _) j) _).2 _
      fun j' heq => hne (idx4_inj.mp heq).1
  · refine Eq.trans ?_ (hrec.history i j)
    exact (foldl_update_place (historyAt_injective b s h)
      (fun i _ => (headStep x b s h scan).1 (stateAt h i)) _).2 _
      fun i' heq => hne (historyAt_inj.mp heq).1
  · refine Eq.trans ?_ (hrec.coreOut j)
    exact (foldl_update_place (idx4_injective b s h)
      (fun j _ => (headStep x b s h scan).2 j) _).2 _ fun j' heq => hne (idx4_inj.mp heq).1

theorem Recorded.withFinal {x : Activations p R} {forward : LinearAttentionForward p R}
    {b : Fin p.batch} {s : Fin p.seqLen} {h : Fin p.numValueHeads} (hrec : Recorded x forward b s h)
    (finalState : Fin (p.batch * p.numValueHeads * p.keyDim * p.valueDim) → R) :
    Recorded x { forward with finalState } b s h :=
  ⟨hrec.beta, hrec.expG, hrec.kvMem, hrec.history, hrec.coreOut⟩

/-- The step of all heads at one position. -/
def forwardPosition : HeadStates p R × LinearAttentionForward p R :=
  Fin.foldl p.numValueHeads (fun scan h => forwardHead h x b s scan) scan

theorem forwardPosition_recorded (hS : ∀ h, headState scan.1 h = x.memory b h s)
    (h : Fin p.numValueHeads) :
    headState (forwardPosition x b s scan).1 h = x.memory b h (s + 1) ∧
      Recorded x (forwardPosition x b s scan).2 b s h := by
  refine foldl_done (fun h scan => headState scan.1 h = x.memory b h s)
    (fun h scan => headState scan.1 h = x.memory b h (s + 1) ∧ Recorded x scan.2 b s h)
    hS (fun h scan hready => ⟨?_, forwardHead_recorded x b s h scan hready⟩)
    (fun h h' scan hh => ?_) h
  · rw [x.memory_succ]
    exact forwardHead_state_self x b s h scan hready
  · have hstate := forwardHead_state_of_ne x b s h scan (Ne.symm hh)
    exact ⟨hstate.trans, fun hdone => ⟨hstate.trans hdone.1,
      hdone.2.forwardHead fun heq => hh heq.2.symm⟩⟩

theorem Recorded.forwardPosition {x : Activations p R}
    {scan : HeadStates p R × LinearAttentionForward p R} {b b' : Fin p.batch} {s s' : Fin p.seqLen}
    {h' : Fin p.numValueHeads} (hrec : Recorded x scan.2 b' s' h') (hne : ¬(b = b' ∧ s = s')) :
    Recorded x (forwardPosition x b s scan).2 b' s' h' :=
  foldl_keeps
    (fun scan : HeadStates p R × LinearAttentionForward p R => Recorded x scan.2 b' s' h') hrec
    fun _ _ hrec => hrec.forwardHead fun heq => hne heq.1

theorem forwardPosition_finalState :
    (forwardPosition x b s scan).2.finalState = scan.2.finalState :=
  foldl_keeps
    (fun scan' : HeadStates p R × LinearAttentionForward p R =>
      scan'.2.finalState = scan.2.finalState) rfl fun _ _ h => h

/-- The run of all heads of one batch. -/
def forwardBatch (forward : LinearAttentionForward p R) :
    HeadStates p R × LinearAttentionForward p R :=
  Fin.foldl p.seqLen (fun scan s => forwardPosition x b s scan) (0, forward)

theorem forwardBatch_recorded (forward : LinearAttentionForward p R) :
    (∀ h, headState (forwardBatch x b forward).1 h = x.memory b h p.seqLen) ∧
      ∀ s h, Recorded x (forwardBatch x b forward).2 b s h := by
  have hrun := foldl_invariant (f := fun scan s => forwardPosition x b s scan) (a := (0, forward))
    (fun t scan => (∀ h, headState scan.1 h = x.memory b h t) ∧
      ∀ s : Fin p.seqLen, s < t → ∀ h, Recorded x scan.2 b s h)
    ⟨fun h => rfl, (fun _ h => by cases h)⟩
    (by
      rintro s scan ⟨hstate, hrec⟩
      have hpos := forwardPosition_recorded x b s scan hstate
      refine ⟨fun h => (hpos h).1, fun s' hs' h => ?_⟩
      by_cases heq : s = s'
      · exact heq ▸ (hpos h).2
      · have hlt : (s' : Nat) < s := by
          have hval : (s : Nat) ≠ s' := fun hval => heq (Fin.ext hval)
          omega
        exact (hrec s' hlt h).forwardPosition fun hne => heq hne.2)
  exact ⟨hrun.1, fun s h => hrun.2 s s.isLt h⟩

theorem Recorded.forwardBatch {x : Activations p R} {forward : LinearAttentionForward p R}
    {b b' : Fin p.batch} {s' : Fin p.seqLen} {h' : Fin p.numValueHeads}
    (hrec : Recorded x forward b' s' h') (hne : b ≠ b') :
    Recorded x (forwardBatch x b forward).2 b' s' h' :=
  foldl_keeps
    (fun scan : HeadStates p R × LinearAttentionForward p R => Recorded x scan.2 b' s' h') hrec
    fun _ _ hrec => hrec.forwardPosition fun heq => hne heq.1

theorem forwardBatch_finalState (forward : LinearAttentionForward p R) :
    (forwardBatch x b forward).2.finalState = forward.finalState :=
  foldl_keeps (fun scan : HeadStates p R × LinearAttentionForward p R =>
    scan.2.finalState = forward.finalState) rfl
    fun s scan h => (forwardPosition_finalState x b s scan).trans h

/-- What the forward scan leaves: the record of every head and position, and the last states. -/
theorem linearAttentionForward_recorded (b : Fin p.batch) :
    (∀ s h, Recorded x (linearAttentionForward x) b s h) ∧
      ∀ h i j, (linearAttentionForward x).finalState (finalAt b h (place i j)) =
        x.memory b h p.seqLen i j := by
  refine foldl_done (fun _ _ => True)
    (fun b forward => (∀ s h, Recorded x forward b s h) ∧
      ∀ h i j, forward.finalState (finalAt b h (place i j)) = x.memory b h p.seqLen i j)
    (fun _ => trivial) (fun b forward _ => ?_) (fun b b' forward hb => ⟨id, fun hdone => ?_⟩) b
  · obtain ⟨hstate, hrec⟩ := forwardBatch_recorded x b forward
    refine ⟨fun s h => (hrec s h).withFinal _, fun h i j => ?_⟩
    rw [← hstate, ← finalCopyAt_stateAt]
    exact (foldl_update_place (finalCopyAt_injective b)
      (fun i _ => (forwardBatch x b forward).1 i) _).1 (stateAt h (place i j))
  · refine ⟨fun s h => ((hdone.1 s h).forwardBatch hb.symm).withFinal _, fun h i j => ?_⟩
    refine Eq.trans ?_ (hdone.2 h i j)
    rw [← forwardBatch_finalState x b forward]
    refine (foldl_update_place (finalCopyAt_injective b)
      (fun i _ => (forwardBatch x b forward).1 i) _).2 _ fun i' heq => ?_
    obtain ⟨h', i', rfl⟩ := exists_stateAt i'
    rw [finalCopyAt_stateAt] at heq
    exact hb (finalAt_inj.mp heq).1.1.symm

end Scan

/-! ## The loops of the backward scan -/

section Matrices

variable {rows cols : Nat} (matrix : Fin (rows * cols) → R)

theorem matTVec_eq (vector : Fin rows → R) : matTVec matrix vector = vector ᵥ* entries matrix := by
  unfold matTVec
  simp only [foldl_addAt, foldl_add, zero_add]
  funext col
  rw [Finset.sum_apply]
  exact Finset.sum_congr rfl fun row _ => mul_comm _ _

theorem matVec_eq (vector : Fin cols → R) : matVec matrix vector = entries matrix *ᵥ vector := by
  unfold matVec
  simp only [foldl_update, foldl_add, zero_add]
  rfl

theorem entries_addOuterInPlace (left : Fin rows → R) (right : Fin cols → R) :
    entries (addOuterInPlace matrix left right) = entries matrix + vecMulVec left right := by
  ext i j
  exact foldl_foldl_update place (fun _ _ _ _ => place_inj.mp) (fun i j r => r + left i * right j)
    matrix i j

theorem entries_subtractOuterInPlace (left : Fin rows → R) (right : Fin cols → R) :
    entries (subtractOuterInPlace matrix left right) = entries matrix - vecMulVec left right := by
  ext i j
  exact (foldl_foldl_update place (fun _ _ _ _ => place_inj.mp)
    (fun i j r => r + -(left i * right j)) matrix i j).trans (sub_eq_add_neg _ _).symm

theorem deltaBackward_eq (k : Fin rows → R) (delta : Fin cols → R) :
    deltaBackward matrix k delta = (k ᵥ* entries matrix, entries matrix *ᵥ delta) := by
  have hrow (scan : (Fin cols → R) × (Fin rows → R)) (i : Fin rows) :=
    foldl_accum (fun j => matrix (place i j) * delta j) (fun j => matrix (place i j) * k i) scan.1 0
  have hloop : deltaBackward matrix k delta =
      Fin.foldl rows (fun scan i => (scan.1 + fun j => matrix (place i j) * k i,
        addAt scan.2 i (0 + ∑ j, matrix (place i j) * delta j))) (0, 0) :=
    congrArg (fun step => Fin.foldl rows step (0, 0)) (funext fun scan => funext fun i =>
      congrArg (fun row : R × (Fin cols → R) => (row.2, addAt scan.2 i row.1)) (hrow scan i))
  rw [hloop, foldl_prod (fun u i => u + fun j => matrix (place i j) * k i)
    (fun u i => addAt u i (0 + ∑ j, matrix (place i j) * delta j)), foldl_add, foldl_addAt,
    zero_add, zero_add]
  refine congrArg₂ Prod.mk (funext fun j => ?_) (funext fun i => zero_add _)
  rw [Finset.sum_apply]
  exact Finset.sum_congr rfl fun i _ => mul_comm _ _

theorem betaBackward_eq (dDelta vMinusKv : Fin cols → R) (beta : R) :
    betaBackward dDelta vMinusKv beta = (vMinusKv ⬝ᵥ dDelta, -(beta • dDelta)) := by
  refine (foldl_accum (fun j => dDelta j * vMinusKv j) (fun j => -(dDelta j * beta)) 0 0).trans ?_
  rw [zero_add, zero_add]
  refine congrArg₂ Prod.mk (Finset.sum_congr rfl fun j _ => mul_comm _ _) (funext fun j => ?_)
  exact congrArg Neg.neg (mul_comm _ _)

theorem memoryBackward_eq (sDecay : Fin (rows * cols) → R) (k dk : Fin rows → R)
    (dkvMem : Fin cols → R) :
    entries (memoryBackward sDecay k dkvMem matrix dk).1 = entries matrix + vecMulVec k dkvMem ∧
      (memoryBackward sDecay k dkvMem matrix dk).2 = dk + entries sDecay *ᵥ dkvMem := by
  have hrow (scan : (Fin (rows * cols) → R) × (Fin rows → R)) (i : Fin rows) :=
    foldl_prod (fun sum j => sum + sDecay (place i j) * dkvMem j)
      (fun gradState j => addAt gradState (place i j) (k i * dkvMem j)) 0 scan.1
  have hloop : memoryBackward sDecay k dkvMem matrix dk =
      Fin.foldl rows (fun scan i =>
        (Fin.foldl cols (fun gradState j => addAt gradState (place i j) (k i * dkvMem j)) scan.1,
          addAt scan.2 i (Fin.foldl cols (fun sum j => sum + sDecay (place i j) * dkvMem j) 0)))
        (matrix, dk) :=
    congrArg (fun step => Fin.foldl rows step (matrix, dk)) (funext fun scan => funext fun i =>
      congrArg (fun row : R × (Fin (rows * cols) → R) => (row.2, addAt scan.2 i row.1))
        (hrow scan i))
  rw [hloop, foldl_prod (fun gradState i =>
      Fin.foldl cols (fun gradState j => addAt gradState (place i j) (k i * dkvMem j)) gradState)
    (fun u i => addAt u i (Fin.foldl cols (fun sum j => sum + sDecay (place i j) * dkvMem j) 0)),
    foldl_addAt]
  refine ⟨entries_addOuterInPlace matrix k dkvMem, congrArg (dk + ·) (funext fun i => ?_)⟩
  rw [foldl_add, zero_add]
  rfl

theorem decayBackward_eq {n : Nat} (prev gradState : Fin n → R) (expG : R) :
    decayBackward prev gradState expG = (∑ i, prev i * gradState i, expG • gradState) := by
  refine (foldl_prod (fun sum i => sum + prev i * gradState i)
    (fun u i => Function.update u i (gradState i * expG)) 0 0).trans ?_
  rw [foldl_add, foldl_update, zero_add]
  exact congrArg₂ Prod.mk rfl (funext fun i => mul_comm _ _)

end Matrices

/-! ## Gradients and directions -/

theorem dotProduct_addAt {ι : Type} [Fintype ι] [DecidableEq ι] (f u : ι → R) (i : ι) (v : R) :
    f ⬝ᵥ addAt u i v = f ⬝ᵥ u + f i * v := by
  rw [addAt_eq, dotProduct_add, dotProduct_single]

theorem sum_idx3 {batch seqLen width : Nat} (w : Fin (batch * seqLen * width) → R) :
    ∑ y, w y = ∑ b, ∑ s, ∑ d, w (idx3 b s d) := by
  rw [sum_place, sum_place]
  rfl

theorem kChannel_eq (h : Fin p.numKeyHeads) (i : Fin p.keyDim) :
    p.kChannel h i = Fin.castAdd (p.numValueHeads * p.valueDim) (Fin.natAdd p.qDim (place h i)) :=
  Fin.ext (Nat.add_assoc ..)

theorem vChannel_eq (h : Fin p.numValueHeads) (j : Fin p.valueDim) :
    p.vChannel h j = Fin.natAdd (p.qDim + p.qDim) (place h j) := Fin.ext (Nat.add_assoc ..)

theorem sum_channels (w : Fin p.qkvDim → R) : ∑ c, w c =
    ∑ h, ∑ i, w (p.qChannel h i) + ∑ h, ∑ i, w (p.kChannel h i) + ∑ h, ∑ j, w (p.vChannel h j) := by
  let all : Fin (p.qDim + p.qDim + p.numValueHeads * p.valueDim) → R := w
  have hqkv : ∑ c, all c = ∑ c, all (Fin.castAdd _ c) + ∑ c, all (Fin.natAdd _ c) :=
    Fin.sum_univ_add all
  simp only [kChannel_eq, vChannel_eq]
  refine hqkv.trans (congrArg₂ _ ?_ (sum_place _))
  exact (Fin.sum_univ_add _).trans (congrArg₂ _ (sum_place _) (sum_place _))

namespace Activations

/-- The row of one position, with the layout of `dqkv`. -/
def channels (x : Activations p R) (b : Fin p.batch) (s : Fin p.seqLen) : Fin p.qkvDim → R :=
  Fin.append (Fin.append (flatten (x.q b s)) (flatten (x.k b s))) (flatten (x.v b s))

section Channels

omit [CommRing R]

variable (x : Activations p R) (b : Fin p.batch) (s : Fin p.seqLen)

theorem channels_q (h : Fin p.numKeyHeads) (i : Fin p.keyDim) :
    x.channels b s (p.qChannel h i) = x.q b s h i :=
  ((Fin.append_left ..).trans (Fin.append_left ..)).trans (flatten_place ..)

theorem channels_k (h : Fin p.numKeyHeads) (i : Fin p.keyDim) :
    x.channels b s (p.kChannel h i) = x.k b s h i := by
  rw [kChannel_eq]
  exact ((Fin.append_left ..).trans (Fin.append_right ..)).trans (flatten_place ..)

theorem channels_v (h : Fin p.numValueHeads) (j : Fin p.valueDim) :
    x.channels b s (p.vChannel h j) = x.v b s h j := by
  rw [vChannel_eq]
  exact (Fin.append_right ..).trans (flatten_place ..)

end Channels

end Activations

/-- The values of all positions in one array. -/
def flat {width : Nat} (w : Fin p.batch → Fin p.seqLen → Fin width → R) :
    Fin (p.batch * p.seqLen * width) → R :=
  flatten (flatten w)

omit [CommRing R] in
theorem flat_idx3 {width : Nat} (w : Fin p.batch → Fin p.seqLen → Fin width → R)
    (b : Fin p.batch) (s : Fin p.seqLen) (d : Fin width) : flat w (idx3 b s d) = w b s d :=
  (flatten_place _ (place b s) d).trans (congrFun (flatten_place w b s) d)

namespace ScanGrads

/-- What the gradients say of a change of what the scan reads. -/
def pair (grads : ScanGrads p R) (x' : Activations p R) : R :=
  ∑ b, ∑ s,
    (∑ h, ∑ i, x'.q b s h i * grads.dqkv (idx3 b s (p.qChannel h i)) +
      ∑ h, ∑ i, x'.k b s h i * grads.dqkv (idx3 b s (p.kChannel h i)) +
      ∑ h, ∑ j, x'.v b s h j * grads.dqkv (idx3 b s (p.vChannel h j)) +
      ∑ h, x'.beta b s h * grads.dbeta (idx3 b s h) +
      ∑ h, x'.expG b s h * grads.dexpG (idx3 b s h))

theorem pair_eq (grads : ScanGrads p R) (x' : Activations p R) :
    grads.pair x' = flat x'.channels ⬝ᵥ grads.dqkv + flat x'.beta ⬝ᵥ grads.dbeta +
      flat x'.expG ⬝ᵥ grads.dexpG := by
  simp only [dotProduct, sum_idx3, flat_idx3, sum_channels, Activations.channels_q,
    Activations.channels_k, Activations.channels_v, pair, Finset.sum_add_distrib]

end ScanGrads

/-! ## The backward scan threads the gradient of the memory -/

section Backward

variable (x : Activations p R)
  (dcore : Fin p.batch → Fin p.seqLen → Fin p.numValueHeads → (Fin p.valueDim → R) →
    Fin p.valueDim → R)
  (b : Fin p.batch) (h : Fin p.numValueHeads)

/-- The gradient of the core outputs of a head at one position. -/
def coreGrad (s : Fin p.seqLen) : Fin p.valueDim → R :=
  dcore b s h ((x.row b s h).out (x.memory b h s))

/-- The gradients of the core outputs, which go on with zeros. -/
def coreGrads (t : Nat) : Fin p.valueDim → R :=
  if ht : t < p.seqLen then coreGrad x dcore b h ⟨t, ht⟩ else 0

theorem coreGrads_val (s : Fin p.seqLen) : coreGrads x dcore b h s = coreGrad x dcore b h s :=
  dif_pos s.isLt

variable {forward : LinearAttentionForward p R} {x}

theorem entries_prevState (hrec : ∀ s h, Recorded x forward b s h) (s : Fin p.seqLen) :
    entries (prevState forward b h s) = x.memory b h s := by
  unfold prevState
  split
  · next hs =>
    rw [hs]
    rfl
  · next hs =>
    have hpred : (s : Nat) - 1 + 1 = s := by omega
    ext i j
    refine ((hrec _ h).history i j).trans ?_
    simp only [hpred]

/-- The gradients of one head and position are added to those so far. -/
def accumulate (s : Fin p.seqLen) (grads : ScanGrads p R)
    (d : DeltaRule.Row (Fin p.keyDim) (Fin p.valueDim) R) : ScanGrads p R where
  dqkv := Fin.foldl p.valueDim (fun dqkv j => addAt dqkv (idx3 b s (p.vChannel h j)) (d.v j))
    (Fin.foldl p.keyDim (fun dqkv i =>
      addAt (addAt dqkv (idx3 b s (p.qChannel (p.keyHead h) i)) (d.q i))
        (idx3 b s (p.kChannel (p.keyHead h) i)) (d.k i)) grads.dqkv)
  dbeta := addAt grads.dbeta (idx3 b s h) d.beta
  dexpG := addAt grads.dexpG (idx3 b s h) d.decay

theorem pair_accumulate (s : Fin p.seqLen) (grads : ScanGrads p R)
    (d : DeltaRule.Row (Fin p.keyDim) (Fin p.valueDim) R) (x' : Activations p R) :
    (accumulate b h s grads d).pair x' = grads.pair x' + (x'.row b s h).dot d := by
  have hkeys := foldl_measure (fun dqkv => flat x'.channels ⬝ᵥ dqkv)
    (w := fun i => x'.q b s (p.keyHead h) i * d.q i + x'.k b s (p.keyHead h) i * d.k i)
    (f := fun dqkv i => addAt (addAt dqkv (idx3 b s (p.qChannel (p.keyHead h) i)) (d.q i))
      (idx3 b s (p.kChannel (p.keyHead h) i)) (d.k i))
    (fun dqkv i => by
      rw [dotProduct_addAt, dotProduct_addAt, flat_idx3, flat_idx3, x'.channels_q, x'.channels_k,
        add_assoc]) grads.dqkv
  have hvalues := foldl_measure (fun dqkv => flat x'.channels ⬝ᵥ dqkv)
    (w := fun j => x'.v b s h j * d.v j)
    (f := fun dqkv j => addAt dqkv (idx3 b s (p.vChannel h j)) (d.v j))
    (fun dqkv j => by rw [dotProduct_addAt, flat_idx3, x'.channels_v])
    (Fin.foldl p.keyDim (fun dqkv i =>
      addAt (addAt dqkv (idx3 b s (p.qChannel (p.keyHead h) i)) (d.q i))
        (idx3 b s (p.kChannel (p.keyHead h) i)) (d.k i)) grads.dqkv)
  rw [hkeys, Finset.sum_add_distrib] at hvalues
  rw [ScanGrads.pair_eq, ScanGrads.pair_eq, accumulate, hvalues, dotProduct_addAt,
    dotProduct_addAt, flat_idx3, flat_idx3]
  simp only [DeltaRule.Row.dot, Activations.row, dotProduct]
  ring

theorem backwardStep_eq (hrec : ∀ s h, Recorded x forward b s h) (s : Fin p.seqLen)
    (scan : ScanState p R) {G : Matrix (Fin p.keyDim) (Fin p.valueDim) R}
    (hstate : entries scan.state = x.memory b h (s + 1)) (hgrad : entries scan.gradState = G) :
    let next := backwardStep x forward dcore b h s scan
    entries next.state = x.memory b h s ∧
      entries next.gradState = (x.row b s h).stateGrad (coreGrad x dcore b h s) G ∧
      next.grads = accumulate b h s scan.grads
        ((x.row b s h).grad (x.memory b h s) (coreGrad x dcore b h s) G) := by
  intro next
  let row := x.row b s h
  let S := x.memory b h s
  let g := coreGrad x dcore b h s
  let beta := forward.beta (idx3 b s h)
  let expG := forward.expG (idx3 b s h)
  let vMinusKv := fun j => row.v j - forward.kvMem (idx4 b s h j)
  let delta := fun j => vMinusKv j * beta
  let dcoreRow := dcore b s h (matTVec scan.state row.q)
  let gradState := addOuterInPlace scan.gradState row.q dcoreRow
  let sDecay := subtractOuterInPlace scan.state row.k delta
  let dDelta := deltaBackward gradState row.k delta
  let dkvMem := betaBackward dDelta.1 vMinusKv beta
  let dMemory := memoryBackward sDecay row.k dkvMem.2 gradState dDelta.2
  let dDecay := decayBackward (prevState forward b h s) dMemory.1 expG
  have hbeta : beta = row.beta := (hrec s h).beta
  have hexpG : expG = row.decay := (hrec s h).expG
  have hnext : entries scan.state = row.next S := hstate.trans (x.memory_succ b s h)
  have hvMinusKv : vMinusKv = row.v - row.memory S :=
    funext fun j => congrArg (row.v j - ·) ((hrec s h).kvMem j)
  have hdelta : delta = row.delta S := by
    funext j
    refine (mul_comm _ _).trans ?_
    rw [hbeta, hvMinusKv]
    rfl
  have hcore : dcoreRow = g := by
    refine congrArg (dcore b s h) ?_
    rw [matTVec_eq, hnext]
    rfl
  have hgradState : entries gradState = row.nextGrad g G := by
    refine (entries_addOuterInPlace ..).trans ?_
    rw [hgrad, hcore]
    rfl
  have hsDecay : entries sDecay = row.decayed S := by
    refine (entries_subtractOuterInPlace ..).trans ?_
    rw [hnext, hdelta]
    exact add_sub_cancel_right _ _
  have hdDelta : dDelta = (row.deltaGrad g G, row.nextGrad g G *ᵥ row.delta S) := by
    refine (deltaBackward_eq ..).trans ?_
    rw [hgradState, hdelta]
    rfl
  have hdkvMem : dkvMem = ((row.v - row.memory S) ⬝ᵥ row.deltaGrad g G, row.memoryGrad g G) := by
    refine (betaBackward_eq ..).trans ?_
    rw [hdDelta, hvMinusKv, hbeta]
    rfl
  obtain ⟨hdecayed, hdk⟩ : entries dMemory.1 = row.decayedGrad g G ∧
      dMemory.2 = (row.grad S g G).k := by
    obtain ⟨hentries, hdk⟩ := memoryBackward_eq gradState sDecay row.k dDelta.2 dkvMem.2
    refine ⟨hentries.trans ?_, hdk.trans ?_⟩
    · rw [hgradState, hdkvMem]
      rfl
    · rw [hdDelta, hsDecay, hdkvMem]
      rfl
  have hprev := entries_prevState b h hrec s
  have hdDecay : dDecay = ((row.grad S g G).decay, row.decay • dMemory.1) := by
    refine (decayBackward_eq ..).trans (congrArg₂ Prod.mk ?_ (congrArg (· • dMemory.1) hexpG))
    change _ = DeltaRule.Row.inner (x.memory b h s) (row.decayedGrad g G)
    rw [← hprev, ← hdecayed]
    exact sum_place _
  have hdq : matVec scan.state dcoreRow = (row.grad S g G).q := by
    rw [matVec_eq, hnext, hcore]
    rfl
  have hdv : (fun j => dDelta.1 j * beta) = (row.grad S g G).v := by
    rw [hdDelta, hbeta]
    exact funext fun j => mul_comm _ _
  refine ⟨hprev, ?_, ?_⟩
  · change entries dDecay.2 = row.decay • row.decayedGrad g G
    rw [hdDecay, ← hdecayed]
    rfl
  · change accumulate b h s scan.grads
      ⟨matVec scan.state dcoreRow, dMemory.2, fun j => dDelta.1 j * beta, dkvMem.1, dDecay.1⟩ = _
    rw [hdq, hdk, hdv, hdkvMem, hdDecay]
    rfl

/-- The gradients of one head. -/
def backwardHead (x : Activations p R) (forward : LinearAttentionForward p R)
    (grads : ScanGrads p R) : ScanGrads p R :=
  (Fin.foldr p.seqLen (fun s scan => backwardStep x forward dcore b h s scan)
    { state := fun i => forward.finalState (finalAt b h i), gradState := 0, grads }).grads

theorem pair_backwardHead (hrec : ∀ s h, Recorded x forward b s h)
    (hfinal : ∀ i j, forward.finalState (finalAt b h (place i j)) = x.memory b h p.seqLen i j)
    (grads : ScanGrads p R) (x' : Activations p R) :
    (backwardHead dcore b h x forward grads).pair x' = grads.pair x' +
      ∑ t ∈ Finset.range p.seqLen, (x'.rows b h t).dot
        (DeltaRule.grad (x.rows b h) (coreGrads x dcore b h) p.seqLen t) := by
  let rowGrad := DeltaRule.grad (x.rows b h) (coreGrads x dcore b h) p.seqLen
  let memoryGrad := DeltaRule.stateGrad (x.rows b h) (coreGrads x dcore b h) p.seqLen
  have hrun := foldr_invariant (f := fun s scan => backwardStep x forward dcore b h s scan)
    (a := { state := fun i => forward.finalState (finalAt b h i), gradState := 0, grads })
    (fun t scan => entries scan.state = x.memory b h t ∧ entries scan.gradState = memoryGrad t ∧
      scan.grads.pair x' = grads.pair x' +
        ∑ u ∈ Finset.Ico t p.seqLen, (x'.rows b h u).dot (rowGrad u))
    ⟨by ext i j; exact hfinal i j, (DeltaRule.stateGrad_end ..).symm, by
      rw [Finset.Ico_self, Finset.sum_empty, add_zero]⟩
    (by
      rintro s scan ⟨hstate, hgrad, hpair⟩
      obtain ⟨hstate', hgrad', hgrads⟩ := backwardStep_eq dcore b h hrec s scan hstate hgrad
      refine ⟨hstate', hgrad'.trans ?_, ?_⟩
      · rw [← x.rows_val, ← coreGrads_val]
        exact (DeltaRule.stateGrad_of_lt _ _ s.isLt).symm
      · rw [hgrads, pair_accumulate, hpair, Finset.sum_eq_sum_Ico_succ_bot s.isLt, x'.rows_val,
          ← x.rows_val, ← coreGrads_val]
        change _ + _ + (x'.row b s h).dot (rowGrad s) = _
        ring)
  rw [Finset.range_eq_Ico]
  exact hrun.2.2

end Backward

/-! ## Directions -/

open DualNumber

/-- What the scan reads, changing in the direction `x'`. -/
def Activations.along (x x' : Activations p R) : Activations p R[ε] where
  q b s h i := (x.q b s h i, x'.q b s h i)
  k b s h i := (x.k b s h i, x'.k b s h i)
  v b s h j := (x.v b s h j, x'.v b s h j)
  beta b s h := (x.beta b s h, x'.beta b s h)
  expG b s h := (x.expG b s h, x'.expG b s h)

section Along

variable (x x' : Activations p R) (b : Fin p.batch) (s : Fin p.seqLen) (h : Fin p.numValueHeads)

theorem rows_along (t : Nat) :
    (x.along x').rows b h t = (x.rows b h t).along (x'.rows b h t) := by
  unfold Activations.rows
  split <;> rfl

theorem memory_along (t : Nat) :
    (x.along x').memory b h t = DeltaRule.stateAlong (x.rows b h) (x'.rows b h) t := by
  rw [Activations.memory, funext (rows_along x x' b h)]
  rfl

theorem coreOut_along (j : Fin p.valueDim) :
    (linearAttentionForward (x.along x')).coreOut (idx4 b s h j) =
      ((x.rows b h s).along (x'.rows b h s)).out
        (DeltaRule.stateAlong (x.rows b h) (x'.rows b h) s) j := by
  rw [((linearAttentionForward_recorded (x.along x') b).1 s h).coreOut, memory_along,
    ← Activations.rows_val, rows_along]

end Along

/-! ## The convolution -/

section Convolution

variable (shape : ConvShape p) (weight : Fin (p.qkvDim * p.convKernel) → R)
  (qkv : Fin (p.batch * p.seqLen * p.qkvDim) → R)

/-- What one tap of the convolution adds. -/
def tapValue (b : Fin p.batch) (s : Fin p.seqLen) (c : Fin p.qkvDim) (tap : Fin p.convKernel) : R :=
  if (s : Nat) + tap + 1 < p.convKernel then 0
  else qkv (idx3 b (srcSeq s tap) c) * weight (weightIndex shape c tap)

theorem convForward_idx3 (b : Fin p.batch) (s : Fin p.seqLen) (c : Fin p.qkvDim) :
    convForward shape weight qkv (idx3 b s c) = ∑ tap, tapValue shape weight qkv b s c tap := by
  have hsum (b : Fin p.batch) (s : Fin p.seqLen) (c : Fin p.qkvDim) :
      Fin.foldl p.convKernel (fun sum tap =>
        if (s : Nat) + tap + 1 < p.convKernel then sum
        else sum + qkv (idx3 b (srcSeq s tap) c) * weight (weightIndex shape c tap)) 0 =
        ∑ tap, tapValue shape weight qkv b s c tap := by
    refine (foldl_measure id (w := tapValue shape weight qkv b s c) ?_ 0).trans (zero_add _)
    intro sum tap
    unfold tapValue
    split
    · exact (add_zero sum).symm
    · rfl
  unfold convForward
  simp only [hsum]
  refine foldl_done (fun _ _ => True) (fun b (u : Fin (p.batch * p.seqLen * p.qkvDim) → R) =>
    ∀ s c, u (idx3 b s c) = ∑ tap, tapValue shape weight qkv b s c tap) (fun _ => trivial)
    (fun b u _ s c => ?_) (fun b b' u hb => ⟨id, fun hdone s c => ?_⟩) b s c
  · exact foldl_foldl_update (fun s c => idx3 b s c)
      (fun _ _ _ _ h => ⟨(idx3_inj.mp h).1.2, (idx3_inj.mp h).2⟩)
      (fun s c _ => ∑ tap, tapValue shape weight qkv b s c tap) u s c
  · refine (foldl_foldl_update_of_ne (fun s c => idx3 b s c)
      (fun s c _ => ∑ tap, tapValue shape weight qkv b s c tap) u fun s' c' h => ?_).trans
      (hdone s c)
    exact hb (idx3_inj.mp h).1.1.symm

/-- The gradients of the convolution, for a change of its input and its weights. -/
theorem conv1dBackward_pair (siluGrad : R → R)
    (gradOut preact : Fin (p.batch * p.seqLen * p.qkvDim) → R)
    (qkv' : Fin (p.batch * p.seqLen * p.qkvDim) → R)
    (weight' : Fin (p.qkvDim * p.convKernel) → R) :
    qkv' ⬝ᵥ (conv1dBackward shape weight siluGrad gradOut preact qkv).1 +
        weight' ⬝ᵥ (conv1dBackward shape weight siluGrad gradOut preact qkv).2 =
      ∑ y, gradOut y * siluGrad (preact y) *
        (convForward shape (DeltaRule.along weight weight') (DeltaRule.along qkv qkv') y).snd := by
  let dpre := fun y => gradOut y * siluGrad (preact y)
  let measure := fun grads : (Fin (p.batch * p.seqLen * p.qkvDim) → R) ×
    (Fin (p.qkvDim * p.convKernel) → R) => qkv' ⬝ᵥ grads.1 + weight' ⬝ᵥ grads.2
  let change := fun b s c tap => dpre (idx3 b s c) *
    (tapValue shape (DeltaRule.along weight weight') (DeltaRule.along qkv qkv') b s c tap).snd
  have htap (b : Fin p.batch) (s : Fin p.seqLen) (c : Fin p.qkvDim) :=
    foldl_measure measure (w := change b s c)
      (f := fun grads tap =>
        if (s : Nat) + tap + 1 < p.convKernel then grads
        else (addAt grads.1 (idx3 b (srcSeq s tap) c)
            (dpre (idx3 b s c) * weight (weightIndex shape c tap)),
          addAt grads.2 (weightIndex shape c tap)
            (dpre (idx3 b s c) * qkv (idx3 b (srcSeq s tap) c)))) (by
      intro grads tap
      simp only [change, tapValue]
      split
      · rw [TrivSqZeroExt.snd_zero, mul_zero, add_zero]
      · simp only [measure, dotProduct_addAt]
        rw [DualNumber.snd_mul]
        simp only [DeltaRule.along, TrivSqZeroExt.fst_mk, TrivSqZeroExt.snd_mk]
        ring)
  have hloops := foldl_measure measure (fun grads b => foldl_measure measure (fun grads s =>
    foldl_measure measure (fun grads c => htap b s c grads) grads) grads) (0, 0)
  have hzero : measure (0, 0) = 0 := by
    simp only [measure, dotProduct_zero, add_zero]
  rw [hzero, zero_add] at hloops
  refine hloops.trans ?_
  rw [sum_idx3]
  refine Finset.sum_congr rfl fun b _ => Finset.sum_congr rfl fun s _ =>
    Finset.sum_congr rfl fun c _ => ?_
  rw [convForward_idx3, TrivSqZeroExt.snd_sum, Finset.mul_sum]

end Convolution

section Scan

variable (x x' : Activations p R)
  (dcore : Fin p.batch → Fin p.seqLen → Fin p.numValueHeads → (Fin p.valueDim → R) →
    Fin p.valueDim → R)

theorem pair_linearAttentionBackward :
    (linearAttentionBackward x (linearAttentionForward x) dcore).pair x' =
      ∑ b, ∑ h, ∑ s : Fin p.seqLen, (x'.rows b h s).dot
        (DeltaRule.grad (x.rows b h) (coreGrads x dcore b h) p.seqLen s) := by
  have hforward := linearAttentionForward_recorded x
  have hzero : (⟨0, 0, 0⟩ : ScanGrads p R).pair x' = 0 := by
    rw [ScanGrads.pair_eq, dotProduct_zero, dotProduct_zero, dotProduct_zero, add_zero, add_zero]
  have hloops := foldl_measure (fun grads : ScanGrads p R => grads.pair x')
    (fun grads b => foldl_measure (fun grads : ScanGrads p R => grads.pair x')
      (fun grads h => pair_backwardHead dcore b h (hforward b).1 ((hforward b).2 h) grads x') grads)
    ⟨0, 0, 0⟩
  refine hloops.trans ?_
  rw [hzero, zero_add]
  simp only [Finset.sum_range]

theorem sum_coreOut_along (b : Fin p.batch) (h : Fin p.numValueHeads) :
    ∑ s : Fin p.seqLen, ∑ j, dcore b s h
        (fun j => (linearAttentionForward x).coreOut (idx4 b s h j)) j *
        ((linearAttentionForward (x.along x')).coreOut (idx4 b s h j)).snd =
      ∑ s : Fin p.seqLen, (x'.rows b h s).dot
        (DeltaRule.grad (x.rows b h) (coreGrads x dcore b h) p.seqLen s) := by
  have hrun := DeltaRule.sum_rate_out (x.rows b h) (x'.rows b h) (coreGrads x dcore b h) p.seqLen
  rw [Finset.sum_range, Finset.sum_range] at hrun
  rw [← hrun]
  refine Finset.sum_congr rfl fun s _ => ?_
  have hcore : dcore b s h (fun j => (linearAttentionForward x).coreOut (idx4 b s h j)) =
      coreGrads x dcore b h s := by
    rw [coreGrads_val]
    exact congrArg (dcore b s h)
      (funext ((linearAttentionForward_recorded x b).1 s h).coreOut)
  rw [hcore, dotProduct_comm]
  refine Finset.sum_congr rfl fun j _ => ?_
  rw [coreOut_along]
  rfl

end Scan

/-- The forward scan computes the delta rule, and the gradients of the backward scan and of the
convolution say what a change in any direction does to the forward, to first order. -/
theorem linearAttention_adjoint (x : Activations p R)
    (dcore : Fin p.batch → Fin p.seqLen → Fin p.numValueHeads → (Fin p.valueDim → R) →
      Fin p.valueDim → R) :
    (∀ b h, x.memory b h 0 = 0 ∧ ∀ s : Fin p.seqLen,
      (let decayed := x.expG b s h • x.memory b h s
       x.memory b h (s + 1) = decayed + vecMulVec (x.k b s (p.keyHead h))
          (x.beta b s h • (x.v b s h - decayedᵀ *ᵥ x.k b s (p.keyHead h)))) ∧
      ∀ j, (linearAttentionForward x).coreOut (idx4 b s h j) =
        ((x.memory b h (s + 1))ᵀ *ᵥ x.q b s (p.keyHead h)) j) ∧
    (∀ x' : Activations p R,
      (∀ b s h j, ((linearAttentionForward (x.along x')).coreOut (idx4 b s h j)).fst =
        (linearAttentionForward x).coreOut (idx4 b s h j)) ∧
      ∑ b, ∑ s, ∑ h, ∑ j,
          dcore b s h (fun j => (linearAttentionForward x).coreOut (idx4 b s h j)) j *
            ((linearAttentionForward (x.along x')).coreOut (idx4 b s h j)).snd =
        (linearAttentionBackward x (linearAttentionForward x) dcore).pair x') ∧
    ∀ (shape : ConvShape p) (siluGrad : R → R)
      (gradOut preact qkv qkv' : Fin (p.batch * p.seqLen * p.qkvDim) → R)
      (weight weight' : Fin (p.qkvDim * p.convKernel) → R),
      (∀ b s c, convForward shape weight qkv (idx3 b s c) = ∑ tap : Fin p.convKernel,
        if (s : Nat) + tap + 1 < p.convKernel then 0
        else qkv (idx3 b (srcSeq s tap) c) * weight (weightIndex shape c tap)) ∧
      ∑ y, gradOut y * siluGrad (preact y) *
          (convForward shape (DeltaRule.along weight weight') (DeltaRule.along qkv qkv') y).snd =
        qkv' ⬝ᵥ (conv1dBackward shape weight siluGrad gradOut preact qkv).1 +
          weight' ⬝ᵥ (conv1dBackward shape weight siluGrad gradOut preact qkv).2 := by
  refine ⟨fun b h => ⟨rfl, fun s => ⟨?_, fun j => ?_⟩⟩, fun x' => ⟨fun b s h j => ?_, ?_⟩,
    fun shape siluGrad gradOut preact qkv qkv' weight weight' =>
      ⟨convForward_idx3 shape weight qkv, (conv1dBackward_pair ..).symm⟩⟩
  · intro decayed
    rw [x.memory_succ, mulVec_transpose]
    rfl
  · rw [((linearAttentionForward_recorded x b).1 s h).coreOut, x.memory_succ, mulVec_transpose]
    rfl
  · have hvalue := congrFun (DeltaRule.Row.value_out (x.rows b h s) (x'.rows b h s)
      (DeltaRule.stateAlong (x.rows b h) (x'.rows b h) s)) j
    rw [DeltaRule.values_stateAlong, x.rows_val] at hvalue
    rw [((linearAttentionForward_recorded x b).1 s h).coreOut, coreOut_along, x.rows_val]
    exact hvalue
  · rw [pair_linearAttentionBackward]
    refine Finset.sum_congr rfl fun b _ => ?_
    rw [Finset.sum_comm]
    exact Finset.sum_congr rfl fun h _ => sum_coreOut_along x x' dcore b h

end Arle.Autograd
