import Arle.Train.CheckpointLoad

/-!
# What a save leaves to load

A completed save can be loaded, and one that stops between its two files leaves the new state
beside the old moments. `consistent_iff` says when no save of a state leaves a mixture.
-/

namespace Arle.Train

/-! ## Saves -/

section Saving

variable {Value : Type} {codec : Codec Value} {dir : Dir} {state : TrainerStateDoc Value}
  {optim : AdamWState}

/-- A directory without a checkpoint, or with one that a save has completed and that loads. -/
def Content (codec : Codec Value) (dir : Dir) :
    Option (TrainerStateDoc Value × AdamWState) → Prop
  | none => dir = .empty
  | some (state, optim) =>
    (∃ before, saveTrainerStateV2 codec none before state optim = (.ok (), dir)) ∧
      ∃ optim', loadTrainerStateV2 codec dir = .ok (state, optim') ∧ optim'.Same optim

/-- What was loaded was passed together to one save, the earlier or the new one. -/
def FromOneSave (prior : Option (TrainerStateDoc Value × AdamWState))
    (state : TrainerStateDoc Value) (optim : AdamWState)
    (loaded : TrainerStateDoc Value × AdamWState) : Prop :=
  ∃ saved, (saved = (state, optim) ∨ prior = some saved) ∧ loaded.1 = saved.1 ∧
    loaded.2.Same saved.2

/-- Wherever a save stops, loading fails or gives a state and moments that were passed to one
save, and after a completed save it gives those that were saved. -/
def Consistent (codec : Codec Value) (dir : Dir)
    (prior : Option (TrainerStateDoc Value × AdamWState)) (state : TrainerStateDoc Value)
    (optim : AdamWState) : Prop :=
  ∀ stop,
    (∀ loaded, loadTrainerStateV2 codec (saveTrainerStateV2 codec stop dir state optim).2 =
        .ok loaded → FromOneSave prior state optim loaded) ∧
      ((saveTrainerStateV2 codec stop dir state optim).1 = .ok () →
        ∃ optim', loadTrainerStateV2 codec (saveTrainerStateV2 codec stop dir state optim).2 =
          .ok (state, optim') ∧ optim'.Same optim)

/-- The new state or the new moments are those of the checkpoint that is there, and what is saved
has the codec version, distinct names, and shapes whose sizes are words. -/
def Unmixed (prior : Option (TrainerStateDoc Value × AdamWState)) (state : TrainerStateDoc Value)
    (optim : AdamWState) : Prop :=
  (state.codecVersion = trainerStateCodecVersion →
    ∀ saved, prior = some saved → state = saved.1 ∨ optim.Same saved.2) ∧
  (MomentsFit optim.params → state.codecVersion = trainerStateCodecVersion ∧
    (optim.params.map AdamWParamState.name).Nodup ∧
    ∀ param ∈ optim.params, param.shape.prod < 2 ^ 64)

theorem load_eq (hjson : codec.fromSlice (codec.toStringPretty state) = some state)
    (optimizer : Option (List UInt8)) :
    loadTrainerStateV2 codec ⟨some (codec.toStringPretty state), optimizer⟩ =
      if state.codecVersion ≠ trainerStateCodecVersion then
        .error (.versionMismatch state.codecVersion)
      else
        match optimizer with
        | none => .error .io
        | some bytes => (loadOptim codec bytes state.step).map fun optim => (state, optim) := by
  unfold loadTrainerStateV2
  dsimp only
  generalize codec.fromSlice (codec.toStringPretty state) = parsed at hjson ⊢
  subst hjson
  rfl

/-- The optimizer file of a save. -/
def optimizerBytes (codec : Codec Value) (optim : AdamWState) : List UInt8 :=
  codec.serialize ((entriesOf optim.params).map tensorOf) (optimMetadata optim)

theorem save_early {stop : Option FileOp}
    (h : stop = some .createDirAll ∨ stop = some .writeTrainerState) :
    saveTrainerStateV2 codec stop dir state optim = (.error .io, dir) := by
  unfold saveTrainerStateV2
  rcases h with rfl | rfl
  · rfl
  · rfl

/-- The two files are written one after the other. -/
theorem save_between (codec : Codec Value) (dir : Dir) (state : TrainerStateDoc Value)
    (optim : AdamWState) {stop : Option FileOp}
    (h : stop = some .serializeToFile ∨ stop = none ∧ ¬ MomentsFit optim.params) :
    ∃ e, saveTrainerStateV2 codec stop dir state optim =
      (.error e, ⟨some (codec.toStringPretty state), dir.optimizer⟩) := by
  have hearly : stop ≠ some .createDirAll ∧ stop ≠ some .writeTrainerState := by
    rcases h with rfl | ⟨rfl, -⟩ <;> decide
  unfold saveTrainerStateV2
  rw [if_neg hearly.1, if_neg hearly.2]
  dsimp only
  cases htensors : optimTensors optim.params with
  | error e => exact ⟨e, rfl⟩
  | ok tensors =>
    rcases h with rfl | ⟨-, hnot⟩
    · exact ⟨_, rfl⟩
    · exact absurd (momentsFit_of_ok htensors) hnot

theorem save_complete (h : MomentsFit optim.params) :
    saveTrainerStateV2 codec none dir state optim =
      (.ok (), ⟨some (codec.toStringPretty state), some (optimizerBytes codec optim)⟩) := by
  unfold saveTrainerStateV2
  rw [optimTensors_ok h]
  rfl

theorem momentsFit_of_save {stop : Option FileOp}
    (h : (saveTrainerStateV2 codec stop dir state optim).1 = .ok ()) :
    stop = none ∧ MomentsFit optim.params := by
  rcases stop with _ | _ | _ | _
  · by_contra hnot
    obtain ⟨e, heq⟩ := save_between codec dir state optim
      (.inr ⟨rfl, fun hfit => hnot ⟨rfl, hfit⟩⟩)
    rw [heq] at h
    cases h
  · cases h
  · cases h
  · obtain ⟨e, heq⟩ : ∃ e, saveTrainerStateV2 codec (some .serializeToFile) dir state optim =
        (.error e, _) := save_between codec dir state optim (.inl rfl)
    rw [heq] at h
    cases h

/-- A complete checkpoint: its files, and its moments load beside any state. -/
theorem Content.files (h : Content codec dir (some (state, optim)))
    (hcodec : codec.Inverts state optim) :
    dir = ⟨some (codec.toStringPretty state), some (optimizerBytes codec optim)⟩ ∧
      ∀ stateStep, ∃ optim',
        loadOptim codec (optimizerBytes codec optim) stateStep = .ok optim' ∧
          optim'.Same optim := by
  obtain ⟨⟨before, hsave⟩, optim', hload, hsame⟩ := h
  obtain ⟨-, hfit⟩ := momentsFit_of_save (congrArg Prod.fst hsave)
  rw [save_complete hfit] at hsave
  cases hsave
  rw [load_eq hcodec.json] at hload
  split_ifs at hload
  obtain ⟨optim'', hoptim, heq⟩ : ∃ optim'', loadOptim codec (optimizerBytes codec optim)
      state.step = .ok optim'' ∧ (state, optim'') = (state, optim') := by
    cases hoptim : loadOptim codec (optimizerBytes codec optim) state.step with
    | error e =>
      dsimp only at hload
      rw [hoptim] at hload
      cases hload
    | ok optim'' =>
      dsimp only at hload
      rw [hoptim] at hload
      exact ⟨optim'', rfl, Except.ok.inj hload⟩
  cases heq
  obtain ⟨hnodup, hprod⟩ := sound_of_loadOptim hcodec hfit hoptim hsame
  exact ⟨rfl, fun stateStep => loadOptim_of_saved hcodec hfit hnodup hprod stateStep⟩

/-- The moments of the file load beside the new state. -/
theorem load_of_optimizer (hjson : codec.fromSlice (codec.toStringPretty state) = some state)
    (hversion : state.codecVersion = trainerStateCodecVersion) {bytes : List UInt8}
    {optim' : AdamWState} (h : loadOptim codec bytes state.step = .ok optim') :
    loadTrainerStateV2 codec ⟨some (codec.toStringPretty state), some bytes⟩ =
      .ok (state, optim') := by
  rw [load_eq hjson, if_neg (not_not_intro hversion)]
  dsimp only
  rw [h]
  rfl

theorem version_of_load (hjson : codec.fromSlice (codec.toStringPretty state) = some state)
    {optimizer : Option (List UInt8)} {loaded : TrainerStateDoc Value × AdamWState}
    (h : loadTrainerStateV2 codec ⟨some (codec.toStringPretty state), optimizer⟩ = .ok loaded) :
    state.codecVersion = trainerStateCodecVersion ∧ ∃ bytes, optimizer = some bytes ∧
      loaded.1 = state ∧ loadOptim codec bytes state.step = .ok loaded.2 := by
  rw [load_eq hjson] at h
  split_ifs at h with hversion
  cases optimizer with
  | none => cases h
  | some bytes =>
    dsimp only at h
    cases hoptim : loadOptim codec bytes state.step with
    | error e =>
      rw [hoptim] at h
      cases h
    | ok optim' =>
      rw [hoptim] at h
      cases h
      exact ⟨not_not.mp hversion, bytes, rfl, rfl, hoptim⟩

theorem load_prior {prior : Option (TrainerStateDoc Value × AdamWState)}
    (hdir : Content codec dir prior) {loaded : TrainerStateDoc Value × AdamWState}
    (h : loadTrainerStateV2 codec dir = .ok loaded) :
    ∃ saved, prior = some saved ∧ loaded.1 = saved.1 ∧ loaded.2.Same saved.2 := by
  cases prior with
  | none =>
    obtain rfl : dir = .empty := hdir
    cases h
  | some saved =>
    obtain ⟨-, optim', hload, hsame⟩ := hdir
    cases hload.symm.trans h
    exact ⟨saved, rfl, rfl, hsame⟩

/-- What loads between the two files is the new state beside the old moments. -/
theorem load_between {prior : Option (TrainerStateDoc Value × AdamWState)}
    (hdir : Content codec dir prior)
    (hprior : ∀ saved, prior = some saved → codec.Inverts saved.1 saved.2)
    (hjson : codec.fromSlice (codec.toStringPretty state) = some state)
    {loaded : TrainerStateDoc Value × AdamWState}
    (h : loadTrainerStateV2 codec ⟨some (codec.toStringPretty state), dir.optimizer⟩ =
      .ok loaded) :
    state.codecVersion = trainerStateCodecVersion ∧ loaded.1 = state ∧
      ∃ saved, prior = some saved ∧ loaded.2.Same saved.2 := by
  obtain ⟨hversion, bytes, hbytes, hstate, hoptim⟩ := version_of_load hjson h
  refine ⟨hversion, hstate, ?_⟩
  cases prior with
  | none =>
    obtain rfl : dir = .empty := hdir
    cases hbytes
  | some saved =>
    obtain ⟨rfl, hload⟩ := hdir.files (hprior _ rfl)
    cases hbytes
    obtain ⟨optim', heq, hsame⟩ := hload state.step
    cases heq.symm.trans hoptim
    exact ⟨saved, rfl, hsame⟩

/-- No save leaves a mixture exactly if the new state or the new moments are those of the
checkpoint that is there, and what can be saved can be loaded. -/
theorem consistent_iff {prior : Option (TrainerStateDoc Value × AdamWState)}
    (hdir : Content codec dir prior)
    (hprior : ∀ saved, prior = some saved → codec.Inverts saved.1 saved.2)
    (hcodec : codec.Inverts state optim) :
    Consistent codec dir prior state optim ↔ Unmixed prior state optim := by
  constructor
  · intro h
    refine ⟨fun hversion saved hsaved => ?_, fun hfit => ?_⟩
    · -- The save stops between its files: the old moments load beside the new state.
      subst hsaved
      obtain ⟨stateA, optimA⟩ := saved
      obtain ⟨rfl, hload⟩ := hdir.files (hprior _ rfl)
      obtain ⟨optim', hoptim, hsame⟩ := hload state.step
      obtain ⟨e, hstop⟩ := save_between codec
        ⟨some (codec.toStringPretty stateA), some (optimizerBytes codec optimA)⟩ state
        optim (.inl rfl)
      have hmixed := (h (some .serializeToFile)).1
      rw [hstop] at hmixed
      obtain ⟨saved, hcase, hstate, hparams⟩ :=
        hmixed _ (load_of_optimizer hcodec.json hversion hoptim)
      rcases hcase with rfl | hcase
      · exact .inr (hparams.symm.trans hsame)
      · cases hcase
        exact .inl hstate
    · have hcomplete := (h none).2
      rw [save_complete hfit] at hcomplete
      obtain ⟨optim', hload, hsame⟩ := hcomplete rfl
      obtain ⟨hversion, bytes, hbytes, -, hoptim⟩ := version_of_load hcodec.json hload
      cases hbytes
      exact ⟨hversion, sound_of_loadOptim hcodec hfit hoptim hsame⟩
  · intro h stop
    have hbetween : ∀ loaded,
        loadTrainerStateV2 codec ⟨some (codec.toStringPretty state), dir.optimizer⟩ =
          .ok loaded → FromOneSave prior state optim loaded := by
      intro loaded hloaded
      obtain ⟨hversion, hstate, saved, hsaved, hsame⟩ :=
        load_between hdir hprior hcodec.json hloaded
      rcases h.1 hversion saved hsaved with heq | hmoments
      · exact ⟨saved, .inr hsaved, hstate.trans heq, hsame⟩
      · exact ⟨(state, optim), .inl rfl, hstate, hsame.trans hmoments.symm⟩
    have hearly (hstop : stop = some .createDirAll ∨ stop = some .writeTrainerState) :
        ∀ loaded, loadTrainerStateV2 codec (saveTrainerStateV2 codec stop dir state optim).2 =
          .ok loaded → FromOneSave prior state optim loaded := by
      intro loaded hloaded
      rw [save_early hstop] at hloaded
      obtain ⟨saved, hsaved, hsame⟩ := load_prior hdir hloaded
      exact ⟨saved, .inr hsaved, hsame⟩
    have hcomplete (hfit : MomentsFit optim.params) : ∃ optim',
        loadTrainerStateV2 codec ⟨some (codec.toStringPretty state),
          some (optimizerBytes codec optim)⟩ = .ok (state, optim') ∧ optim'.Same optim := by
      obtain ⟨hversion, hnodup, hprod⟩ := h.2 hfit
      obtain ⟨optim', hoptim, hsame⟩ := loadOptim_of_saved hcodec hfit hnodup hprod state.step
      exact ⟨optim', load_of_optimizer hcodec.json hversion hoptim, hsame⟩
    refine ⟨?_, fun hok => ?_⟩
    · rcases stop with _ | _ | _ | _
      · by_cases hfit : MomentsFit optim.params
        · rw [save_complete hfit]
          obtain ⟨optim', hload, hsame⟩ := hcomplete hfit
          intro loaded hloaded
          cases hload.symm.trans hloaded
          exact ⟨(state, optim), .inl rfl, rfl, hsame⟩
        · obtain ⟨e, heq⟩ := save_between codec dir state optim (.inr ⟨rfl, hfit⟩)
          rw [heq]
          exact hbetween
      · exact hearly (.inl rfl)
      · exact hearly (.inr rfl)
      · obtain ⟨e, heq⟩ : ∃ e, saveTrainerStateV2 codec (some .serializeToFile) dir state optim =
          (.error e, _) := save_between codec dir state optim (.inl rfl)
        rw [heq]
        exact hbetween
    · obtain ⟨rfl, hfit⟩ := momentsFit_of_save hok
      rw [save_complete hfit]
      exact hcomplete hfit

end Saving

/-! ## A checkpoint -/

/-- The state of a run of `step` steps at a constant rate. -/
def stateAt (step : UInt64) : TrainerStateDoc Unit :=
  ⟨step, "adamw-v1", "constant", (), 0, 7, trainerStateCodecVersion⟩

/-- The text of `stateAt`. -/
def stateText (step : UInt64) : String :=
  "\x7b\n  \"step\": " ++ toString step.toNat ++
    ",\n  \"optim_schema\": \"adamw-v1\",\n  \"schedule_name\": \"constant\"," ++
    "\n  \"schedule_params\": \x7b\x7d,\n  \"grad_accum_current\": 0,\n  \"rng_seed\": 7," ++
    "\n  \"codec_version\": 2\n\x7d"

theorem stateText_ne : stateText 6 ≠ stateText 5 := by
  intro h
  have hlist := congrArg String.toList h
  simp only [stateText, String.toList_append, List.append_cancel_right_eq,
    List.append_cancel_left_eq] at hlist
  exact absurd hlist (by decide)

/-- The moments of one number, which are zero. -/
def moments : AdamWState := ⟨5, [⟨"w", [0], [0], [1]⟩], 0⟩

/-- The header of the optimizer file of `moments`. -/
def momentsHeader : String :=
  "\x7b\"__metadata__\":\x7b\"step\":\"5\",\"skipped_export\":\"0\"\x7d," ++
    "\"w.m\":\x7b\"dtype\":\"F32\",\"shape\":[1],\"data_offsets\":[0,4]\x7d," ++
    "\"w.v\":\x7b\"dtype\":\"F32\",\"shape\":[1],\"data_offsets\":[4,8]\x7d\x7d"

def momentsBytes : List UInt8 :=
  LittleEndian.toBytes 8 160 ++ momentsHeader.toUTF8.toList ++ List.replicate 8 0

/-- The encodings at the states and the moments above. -/
def fileCodec : Codec Unit where
  toStringPretty state := stateText state.step
  fromSlice text :=
    if text = stateText 5 then some (stateAt 5)
    else if text = stateText 6 then some (stateAt 6) else none
  serialize _ _ := momentsBytes
  readMetadata bytes :=
    if bytes = momentsBytes then some (some (optimMetadata moments)) else none
  deserialize bytes :=
    if bytes = momentsBytes then some ((entriesOf moments.params).map tensorOf) else none

theorem momentsFit_moments : MomentsFit moments.params := by
  intro param hparam
  obtain rfl := List.mem_singleton.mp hparam
  decide

/-- The moments of `optim` are those of the file, or are refused. -/
theorem fileCodec_inverts {step : UInt64} (hstep : step = 5 ∨ step = 6) {optim : AdamWState}
    (hoptim : optim = moments ∨ ¬ MomentsFit optim.params) :
    fileCodec.Inverts (stateAt step) optim := by
  have hfile (tensors : List (String × TensorView))
      (hok : optimTensors optim.params = .ok tensors) :
      optim = moments ∧ tensors = (entriesOf moments.params).map tensorOf := by
    obtain rfl := hoptim.resolve_right (not_not_intro (momentsFit_of_ok hok))
    rw [optimTensors_ok momentsFit_moments] at hok
    exact ⟨rfl, (Except.ok.inj hok).symm⟩
  refine ⟨?_, fun tensors hok _ _ => ?_, fun tensors hok _ _ => ?_, fun tensors hok hnot => ?_⟩
  · change (if stateText step = stateText 5 then some (stateAt 5)
      else if stateText step = stateText 6 then some (stateAt 6) else none) = some (stateAt step)
    rcases hstep with rfl | rfl
    · rw [if_pos rfl]
    · rw [if_neg stateText_ne, if_pos rfl]
  · obtain ⟨rfl, rfl⟩ := hfile tensors hok
    exact ⟨_, if_pos rfl, .refl _⟩
  · obtain ⟨rfl, rfl⟩ := hfile tensors hok
    exact ⟨_, if_pos rfl, fun _ => rfl⟩
  · obtain ⟨rfl, rfl⟩ := hfile tensors hok
    exact absurd hnot (by decide)

/-- The files after a save of `moments` at step 5. -/
def momentsDir : Dir := ⟨some (stateText 5), some momentsBytes⟩

theorem content_momentsDir : Content fileCodec momentsDir (some (stateAt 5, moments)) := by
  have hinverts := fileCodec_inverts (.inl rfl) (.inl rfl : moments = moments ∨ _)
  obtain ⟨optim', hoptim, hsame⟩ := loadOptim_of_saved hinverts momentsFit_moments (by decide)
    (by decide) 5
  exact ⟨⟨.empty, save_complete momentsFit_moments⟩, optim',
    load_of_optimizer hinverts.json rfl hoptim, hsame⟩

/-- The moments are saved again with the state of the next step. -/
theorem consistent_moments :
    Consistent fileCodec momentsDir (some (stateAt 5, moments)) (stateAt 6) moments := by
  have hsame : moments.Same moments := ⟨rfl, .refl _, rfl⟩
  refine (consistent_iff content_momentsDir (fun saved hsaved => ?_)
    (fileCodec_inverts (.inr rfl) (.inl rfl))).mpr ⟨fun _ saved hsaved => ?_, fun _ => ?_⟩
  · cases hsaved
    exact fileCodec_inverts (.inl rfl) (.inl rfl)
  · cases hsaved
    exact .inr hsame
  · exact ⟨rfl, by decide, by decide⟩

/-- Moments of another step that do not have the length of their shape. -/
def shortMoments : AdamWState := ⟨6, [⟨"w", [], [], [1]⟩], 0⟩

/-- A save of `shortMoments` fails after it has replaced the state. -/
theorem failed_save_mixes : ¬ ∀ (Value : Type) (codec : Codec Value) (dir : Dir)
    (prior : Option (TrainerStateDoc Value × AdamWState)) (state : TrainerStateDoc Value)
    (optim : AdamWState), Content codec dir prior →
    (∀ saved, prior = some saved → codec.Inverts saved.1 saved.2) → codec.Inverts state optim →
    Consistent codec dir prior state optim := by
  intro hall
  have hnot : ¬ MomentsFit shortMoments.params := fun h =>
    absurd (h _ List.mem_cons_self).1 (by decide)
  have hprior (saved : TrainerStateDoc Unit × AdamWState)
      (hsaved : some (stateAt 5, moments) = some saved) : fileCodec.Inverts saved.1 saved.2 := by
    cases hsaved
    exact fileCodec_inverts (.inl rfl) (.inl rfl)
  have hinverts := fileCodec_inverts (.inr rfl : (6 : UInt64) = 5 ∨ _) (.inr hnot)
  have hconsistent := (hall Unit fileCodec momentsDir (some (stateAt 5, moments)) (stateAt 6)
    shortMoments content_momentsDir hprior hinverts none).1
  obtain ⟨-, hload⟩ := content_momentsDir.files (hprior _ rfl)
  obtain ⟨optim', hoptim, hsame⟩ := hload 6
  obtain ⟨e, hsave⟩ := save_between fileCodec momentsDir (stateAt 6) shortMoments
    (.inr ⟨rfl, hnot⟩)
  rw [hsave] at hconsistent
  obtain ⟨saved, hcase, hstate, hmoments⟩ :=
    hconsistent _ (load_of_optimizer hinverts.json rfl hoptim)
  rcases hcase with rfl | hcase
  · exact absurd (hsame.step.symm.trans hmoments.step) (by decide)
  · cases hcase
    have hne : stateAt 6 ≠ stateAt 5 := by decide
    exact hne hstate

end Arle.Train
