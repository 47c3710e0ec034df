import Arle.Scheduler.Cuda.StepPlanSpec

/-!
# The envelopes of a prefill

A chunk is cut to what is left of its envelope, and then enlarged by the tail of the prompt if that
is a page at most. So the chunks of a mixed launch stay within the tokens of the launch as long as
no prompt ends up to a page behind what is left, and the chunks for a contiguous buffer within the
buffer as long as no prompt ends up to a page behind it.
-/

namespace Arle.Scheduler.Cuda.Execution

/-- A chunk grows beyond a limit that its cap is within just when the prompt ends behind the limit,
and up to a tail behind the cap. -/
theorem coalesce_gt {remaining cap tail limit : Nat} (hcap : cap ≤ limit) (hpos : cap ≠ 0) :
    limit < coalesceTinyPrefillTail remaining cap tail ↔
      limit < remaining ∧ remaining ≤ cap + max tail 1 := by
  unfold coalesceTinyPrefillTail
  dsimp only
  split
  · omega
  · split <;> omega

namespace State

variable (s : State)

def totalTokens (candidates : List PrefillCandidate) : Nat :=
  (candidates.map fun candidate => candidate.reservation.prefillTokens).sum

/-- The prompt of a candidate ends behind the tokens that are left, and at most a page behind the
chunk that it may take of them. -/
def CutsTail (remainingTokens : Nat) (candidate : PrefillCandidate) : Prop :=
  ∃ remaining, s.prefillRemaining candidate.slotIdx = some remaining ∧
    remainingTokens < remaining ∧
    remaining ≤ min candidate.reservation.prefillTokens remainingTokens + max s.pageSize 1

/-- No round of the selection for a mixed launch cuts the tail off a prompt. -/
def KeepsTails : PrefillBudget → Nat → List PrefillCandidate → Prop
  | _, _, [] => True
  | budget, remainingTokens, candidate :: rest =>
    match s.cappedPrefillReservation candidate.slotIdx
      (min candidate.reservation.prefillTokens remainingTokens) with
    | none => KeepsTails budget remainingTokens rest
    | some reservation =>
      if budget.canSchedule reservation then
        ¬ s.CutsTail remainingTokens candidate ∧
          (reservation.prefillTokens < remainingTokens →
            KeepsTails (budget.reserve reservation) (remainingTokens - reservation.prefillTokens) rest)
      else KeepsTails budget remainingTokens rest

variable {s}

theorem capped_gt {candidate : PrefillCandidate} {remainingTokens : Nat}
    {reservation : PrefillReservation}
    (h : s.cappedPrefillReservation candidate.slotIdx
      (min candidate.reservation.prefillTokens remainingTokens) = some reservation) :
    remainingTokens < reservation.prefillTokens ↔ s.CutsTail remainingTokens candidate := by
  obtain ⟨remaining, hremaining, -, hcap, htokens⟩ := cappedPrefillReservation_some h
  rw [htokens, coalesce_gt (Nat.min_le_right _ _) hcap]
  constructor
  · rintro ⟨hlt, hle⟩
    exact ⟨remaining, hremaining, hlt, by omega⟩
  · rintro ⟨remaining', hremaining', hlt, hle⟩
    cases hremaining.symm.trans hremaining'
    exact ⟨hlt, by omega⟩

theorem selectMixedLoop_le_iff {candidates : List PrefillCandidate} {budget : PrefillBudget}
    {remainingTokens : Nat} :
    totalTokens (s.selectMixedLoop budget remainingTokens candidates) ≤ remainingTokens ↔
      s.KeepsTails budget remainingTokens candidates := by
  induction candidates generalizing budget remainingTokens with
  | nil => exact iff_of_true (Nat.zero_le _) trivial
  | cons candidate rest ih =>
    rw [selectMixedLoop, KeepsTails]
    dsimp only
    cases hreservation : s.cappedPrefillReservation candidate.slotIdx
        (min candidate.reservation.prefillTokens remainingTokens) with
    | none => exact ih
    | some reservation =>
      dsimp only
      by_cases hfits : budget.canSchedule reservation
      · rw [if_pos hfits, if_pos hfits, ← capped_gt hreservation, totalTokens, List.map_cons,
          List.sum_cons]
        dsimp only
        rcases Nat.lt_or_ge reservation.prefillTokens remainingTokens with hlt | hge
        · have hrest : totalTokens (s.selectMixedLoop (budget.reserve reservation)
              (remainingTokens - reservation.prefillTokens) rest) ≤
                remainingTokens - reservation.prefillTokens ↔ _ := ih
          rw [if_neg (by omega)]
          unfold totalTokens at hrest
          constructor
          · exact fun hle => ⟨by omega, fun _ => hrest.mp (by omega)⟩
          · intro hkeeps
            have hle := hrest.mpr (hkeeps.2 hlt)
            omega
        · rw [if_pos (by omega), List.map_nil, List.sum_nil, Nat.add_zero]
          exact ⟨fun hle => ⟨Nat.not_lt.mpr hle, fun hlt => absurd hlt (by omega)⟩,
            fun hkeeps => Nat.not_lt.mp hkeeps.1⟩
      · rw [if_neg hfits, if_neg hfits]
        exact ih

/-- The planned chunk of a slot, for a model that prefills into a contiguous buffer, is longer than
the buffer. -/
def ContiguousTail (s : State) (slotIdx : Nat) (decodeActive : Bool)
    (longPrefillTokenThreshold : Nat) : Prop :=
  ∃ remaining, s.prefillRemaining slotIdx = some remaining ∧ contiguousKvTokens < remaining ∧
    remaining ≤ max (s.perRequestCap decodeActive longPrefillTokenThreshold) 1 + max s.pageSize 1

theorem perRequestCap_le (h : s.model.prefillUsesPagedPool = false) (decodeActive : Bool)
    (threshold : Nat) : s.perRequestCap decodeActive threshold ≤ contiguousKvTokens := by
  have hchunk : s.prefillChunkSize ≤ contiguousKvTokens := by
    unfold prefillChunkSize
    rw [h]
    exact Nat.min_le_right _ _
  unfold perRequestCap
  split
  · exact (Nat.min_le_left _ _).trans hchunk
  · exact hchunk

theorem prefillReservation_le_iff (h : s.model.prefillUsesPagedPool = false) {slotIdx : Nat}
    {decodeActive : Bool} {threshold : Nat} {reservation : PrefillReservation}
    (hreservation : s.prefillReservation slotIdx decodeActive threshold = some reservation) :
    reservation.prefillTokens ≤ contiguousKvTokens ↔
      ¬ s.ContiguousTail slotIdx decodeActive threshold := by
  obtain ⟨remaining, hremaining, -, hcap, htokens⟩ := cappedPrefillReservation_some hreservation
  have hle : max (s.perRequestCap decodeActive threshold) 1 ≤ contiguousKvTokens :=
    Nat.max_le.mpr ⟨perRequestCap_le h decodeActive threshold, by decide⟩
  rw [← not_lt, htokens, coalesce_gt hle hcap]
  refine not_congr ⟨?_, ?_⟩
  · rintro ⟨hlt, hbound⟩
    exact ⟨remaining, hremaining, hlt, by omega⟩
  · rintro ⟨remaining', hremaining', hlt, hbound⟩
    cases hremaining.symm.trans hremaining'
    exact ⟨hlt, by omega⟩

/-- The chunks of a mixed launch fit its tokens, and with the decode rows the workspace, just when no
round of their selection cuts the tail off a prompt; and a chunk that is planned for a contiguous
buffer fits the buffer just when the prompt does not end in the page behind its cap. -/
theorem prefill_envelopes_iff (s : State) (candidates : List PrefillCandidate)
    (decodeSlots : List Nat) :
    (totalTokens (s.selectMixedLaunchPrefillCandidates candidates decodeSlots) ≤
          s.config.mixedPrefillTokenBudget decodeSlots.length ∧
        (s.selectMixedLaunchPrefillCandidates candidates decodeSlots ≠ [] →
          decodeSlots.length +
              totalTokens (s.selectMixedLaunchPrefillCandidates candidates decodeSlots) ≤
            s.config.mixedPrefillWorkspaceTokenBudget) ↔
      (decodeSlots.length < s.config.chunkedPrefillSize →
        s.KeepsTails (s.prefillBudget decodeSlots)
          (s.config.mixedPrefillTokenBudget decodeSlots.length) candidates)) ∧
    (s.model.prefillUsesPagedPool = false → ∀ slotIdx decodeActive threshold reservation,
      s.prefillReservation slotIdx decodeActive threshold = some reservation →
        (reservation.prefillTokens ≤ contiguousKvTokens ↔
          ¬ s.ContiguousTail slotIdx decodeActive threshold)) := by
  refine ⟨?_, fun hpaged _ _ _ _ hreservation => prefillReservation_le_iff hpaged hreservation⟩
  have hworkspace : s.config.mixedPrefillWorkspaceTokenBudget =
      max s.config.chunkedPrefillSize 1 := rfl
  unfold selectMixedLaunchPrefillCandidates
  rw [hworkspace]
  unfold SchedulerConfig.mixedPrefillTokenBudget
  dsimp only
  rcases Nat.lt_or_ge decodeSlots.length s.config.chunkedPrefillSize with hlt | hge
  · rw [if_neg (by omega), selectMixedLoop_le_iff]
    refine ⟨fun h _ => h.1, fun h => ⟨h hlt, fun _ => ?_⟩⟩
    have hle := selectMixedLoop_le_iff.mpr (h hlt)
    omega
  · rw [if_pos (by omega)]
    exact iff_of_true ⟨Nat.zero_le _, fun hne => absurd rfl hne⟩ fun h => absurd h (by omega)

/-! A slot that decodes, and one with a prompt that is eight tokens longer than a chunk. -/

def tailBehindChunk (paged : Bool) : State :=
  { oneOfEach with
    config := ⟨512, 16384, 16384, 2048, none, 0, false⟩
    model := ⟨paged, none, true⟩
    active := [some ⟨7, [1, 2], [5], 16, .decoding, false⟩,
      some ⟨8, List.replicate 520 1, [], 16, .prefilling (List.replicate 520 1) 0, false⟩]
    seqLens := [2, 0] }

/-- The chunk is planned with its tail. In the mixed launch it is cut to the tokens behind the decode
row, and then takes its tail again; nor does it fit a contiguous buffer. -/
theorem tailBehindChunk_overruns :
    ((tailBehindChunk true).planStep.2.candidates.map fun candidate =>
        (candidate.slotIdx, candidate.reservation.prefillTokens)) = [(1, 520)] ∧
      ¬ totalTokens ((tailBehindChunk true).selectMixedLaunchPrefillCandidates
          [⟨1, ⟨520, ⟨1, 521⟩⟩⟩] [0]) ≤
        (tailBehindChunk true).config.mixedPrefillTokenBudget 1 ∧
      ¬ 1 + totalTokens ((tailBehindChunk true).selectMixedLaunchPrefillCandidates
          [⟨1, ⟨520, ⟨1, 521⟩⟩⟩] [0]) ≤
        (tailBehindChunk true).config.mixedPrefillWorkspaceTokenBudget ∧
      ¬ ∀ tokens ∈ ((tailBehindChunk false).prefillReservation 1 true 2048).map
          PrefillReservation.prefillTokens, tokens ≤ contiguousKvTokens :=
  ⟨by decide +kernel, by decide +kernel, by decide +kernel, by decide +kernel⟩

end State

end Arle.Scheduler.Cuda.Execution
