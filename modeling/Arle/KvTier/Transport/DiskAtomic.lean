import Mathlib
import Arle.KvTier.Transport.PlainPostcard

/-!
# No torn block

While every block has one writer, the file under the name of a block is absent or complete, and
it does not change any more. A second writer of the block truncates the temporary file of the
first, which then renames a torn file.
-/

namespace Arle.KvTier.Transport

/-! ## Names -/

theorem hexDigit_inj : ∀ m < 16, ∀ n < 16, hexDigit m = hexDigit n → m = n := by decide

theorem hexBytes_inj {a b : List UInt8}
    (h : a.flatMap (fun byte => [hexDigit (byte.toNat / 16), hexDigit (byte.toNat % 16)]) =
      b.flatMap (fun byte => [hexDigit (byte.toNat / 16), hexDigit (byte.toNat % 16)])) :
    a = b := by
  induction a generalizing b with
  | nil =>
    cases b with
    | nil => rfl
    | cons y b => cases h
  | cons x a ih =>
    cases b with
    | nil => cases h
    | cons y b =>
      simp only [List.flatMap_cons, List.cons_append, List.nil_append, List.cons.injEq] at h
      obtain ⟨hhi, hlo, hrest⟩ := h
      have hx : x.toNat < 256 := x.toNat_lt
      have hy : y.toNat < 256 := y.toNat_lt
      have hhi' := hexDigit_inj _ (by omega) _ (by omega) hhi
      have hlo' := hexDigit_inj _ (Nat.mod_lt _ (by omega)) _ (Nat.mod_lt _ (by omega)) hlo
      have heq : x = y := UInt8.toNat_inj.mp (by omega)
      rw [heq, ih hrest]

theorem length_blockFileName (fp : BlockFingerprint) : (blockFileName fp).length = 35 := by
  unfold blockFileName fingerprintBytes
  rw [List.length_append, List.length_flatMap]
  simp

theorem blockFileName_inj {fp fp' : BlockFingerprint} (h : blockFileName fp = blockFileName fp') :
    fp = fp' := by
  have hbytes : fingerprintBytes fp = fingerprintBytes fp' :=
    hexBytes_inj (List.append_cancel_right h)
  have hof : ∀ x : BlockFingerprint,
      LittleEndian.ofBytes (fingerprintBytes x) = x.bytes.toNat :=
    fun x => LittleEndian.ofBytes_toBytes x.bytes.isLt
  have hnat : fp.bytes.toNat = fp'.bytes.toNat := by rw [← hof fp, hbytes, hof fp']
  cases fp
  cases fp'
  exact congrArg BlockFingerprint.mk (BitVec.toNat_inj.mp hnat)

theorem tempFileName_inj {fp fp' : BlockFingerprint} (h : tempFileName fp = tempFileName fp') :
    fp = fp' := blockFileName_inj (List.append_cancel_right h)

theorem tempFileName_ne (fp fp' : BlockFingerprint) : tempFileName fp ≠ blockFileName fp' := by
  intro h
  have hlen := congrArg List.length h
  unfold tempFileName at hlen
  rw [List.length_append, length_blockFileName, length_blockFileName] at hlen
  cases hlen

namespace Disk

variable (postcard : Postcard)

/-! ## The invariant -/

/-- The bytes are the whole file of a put of the block. -/
def Complete (s : Disk) (fp : BlockFingerprint) (bytes : List UInt8) : Prop :=
  ∃ i p, s.put i = some p ∧ p.fingerprint = fp ∧
    fileBytes postcard p.fingerprint p.kvFormatTag p.payload = .ok bytes

/-- The file holds a complete block and nobody can change it any more. -/
structure Sealed (s : Disk) (fp : BlockFingerprint) (file : Nat) : Prop where
  complete : s.Complete postcard fp (s.dir.content file)
  old : file < s.dir.next
  not_temp : ∀ other, s.dir.entry (tempFileName other) ≠ some file
  unwritten : ∀ i p retried rest, s.put i = some p → p.phase ≠ .writing retried file rest

/-- The put is writing the file, which has no name but that of its temporary file; no other file
has this name. -/
structure Writer (s : Disk) (p : Put) (file : Nat) (rest : List UInt8) : Prop where
  bytes : fileBytes postcard p.fingerprint p.kvFormatTag p.payload =
    .ok (s.dir.content file ++ rest)
  old : file < s.dir.next
  name : ∀ name, s.dir.entry name = some file → name = tempFileName p.fingerprint
  own : ∀ other, s.dir.entry (tempFileName p.fingerprint) = some other → other = file

structure Inv (s : Disk) : Prop where
  named : s.dir.Named
  writer : ∀ {i p retried file rest}, s.put i = some p → p.phase = .writing retried file rest →
    s.Writer postcard p file rest
  apart : ∀ {i j p q retried retried' file file' rest rest'}, i ≠ j → s.put i = some p →
    s.put j = some q → p.phase = .writing retried file rest →
    q.phase = .writing retried' file' rest' → p.fingerprint ≠ q.fingerprint ∧ file ≠ file'
  block : ∀ {fp file}, s.dir.entry (blockFileName fp) = some file → s.Sealed postcard fp file
  read : ∀ {j r}, s.read j = some r → s.Sealed postcard r.fingerprint r.file ∧
    r.buffer <+: s.dir.content r.file ∧ (r.finished = true → r.buffer = s.dir.content r.file)

variable {postcard} {s t : Disk} {i : Nat} {p : Put} {phase : Phase} {fp : BlockFingerprint}
  {file : Nat}

/-- Every put is still there, perhaps in another phase. -/
def PutsKept (s t : Disk) : Prop :=
  ∀ i p, s.put i = some p → ∃ q, t.put i = some q ∧ q.fingerprint = p.fingerprint ∧
    q.kvFormatTag = p.kvFormatTag ∧ q.payload = p.payload

theorem Complete.kept (hkept : PutsKept s t) {bytes : List UInt8}
    (h : s.Complete postcard fp bytes) : t.Complete postcard fp bytes := by
  obtain ⟨i, p, hp, hfp, hbytes⟩ := h
  obtain ⟨q, hq, hqfp, htag, hpayload⟩ := hkept i p hp
  exact ⟨i, q, hq, hqfp.trans hfp, by rw [hqfp, htag, hpayload, hbytes]⟩

theorem putsKept_refl (h : t.put = s.put) : PutsKept s t := by
  intro i p hp
  exact ⟨p, h ▸ hp, rfl, rfl, rfl⟩

theorem put_setPhase_self : (s.setPhase i p phase).put i = some { p with phase } :=
  Function.update_self _ _ _

theorem put_setPhase_of_ne {j : Nat} (h : j ≠ i) : (s.setPhase i p phase).put j = s.put j :=
  Function.update_of_ne h _ _

theorem putsKept_setPhase (hput : s.put i = some p ∨ s.put i = none) :
    PutsKept s (s.setPhase i p phase) := by
  intro j q hq
  by_cases heq : j = i
  · subst heq
    rcases hput with hp | hnone
    · rw [hp] at hq
      cases hq
      exact ⟨_, put_setPhase_self, rfl, rfl, rfl⟩
    · rw [hnone] at hq
      cases hq
  · exact ⟨q, (put_setPhase_of_ne heq).trans hq, rfl, rfl, rfl⟩

/-- A sealed file stays sealed while it is not truncated, written or given a temporary name. -/
theorem Sealed.mono (h : s.Sealed postcard fp file) (hkept : PutsKept s t)
    (hcontent : t.dir.content file = s.dir.content file) (hnext : s.dir.next ≤ t.dir.next)
    (htemp : ∀ other, t.dir.entry (tempFileName other) = some file →
      s.dir.entry (tempFileName other) = some file)
    (hwriting : ∀ i p retried rest, t.put i = some p → p.phase = .writing retried file rest →
      ∃ q retried' rest', s.put i = some q ∧ q.phase = .writing retried' file rest') :
    t.Sealed postcard fp file where
  complete := by
    rw [hcontent]
    exact h.complete.kept hkept
  old := Nat.lt_of_lt_of_le h.old hnext
  not_temp other hother := h.not_temp other (htemp other hother)
  unwritten i p retried rest hp hphase := by
    obtain ⟨q, retried', rest', hq, hq'⟩ := hwriting i p retried rest hp hphase
    exact h.unwritten i q retried' rest' hq hq'

/-! ## The steps -/

/-- A step that writes no file: names may go, and puts may stop writing or begin. -/
structure Quiet (s t : Disk) : Prop where
  keeps : s.dir.Keeps t.dir
  content : t.dir.content = s.dir.content
  next : t.dir.next = s.dir.next
  read : t.read = s.read
  puts : PutsKept s t
  writing : ∀ i p retried file rest, t.put i = some p → p.phase = .writing retried file rest →
    s.put i = some p

theorem Sealed.quiet (hquiet : Quiet s t) (h : s.Sealed postcard fp file) :
    t.Sealed postcard fp file := by
  apply h.mono hquiet.puts
  · rw [hquiet.content]
  · rw [hquiet.next]
  · exact fun other hother => hquiet.keeps _ _ hother
  · exact fun i p retried rest hp hphase =>
      ⟨p, retried, rest, hquiet.writing i p retried file rest hp hphase, hphase⟩

theorem Inv.quiet (hquiet : Quiet s t) (h : s.Inv postcard) : t.Inv postcard where
  named := h.named.of_keeps hquiet.keeps (Nat.le_of_eq hquiet.next.symm)
  writer hp hphase := by
    have hw := h.writer (hquiet.writing _ _ _ _ _ hp hphase) hphase
    exact ⟨by rw [hquiet.content]; exact hw.bytes, by rw [hquiet.next]; exact hw.old,
      fun name hname => hw.name name (hquiet.keeps _ _ hname),
      fun other hother => hw.own other (hquiet.keeps _ _ hother)⟩
  apart hne hp hq hphase hphase' := h.apart hne (hquiet.writing _ _ _ _ _ hp hphase)
    (hquiet.writing _ _ _ _ _ hq hphase') hphase hphase'
  block hfile := (h.block (hquiet.keeps _ _ hfile)).quiet hquiet
  read hr := by
    rw [hquiet.read] at hr
    obtain ⟨hsealed, hbuffer, hend⟩ := h.read hr
    rw [hquiet.content]
    exact ⟨hsealed.quiet hquiet, hbuffer, hend⟩

/-- A put goes to a phase in which it does not write. -/
theorem quiet_setPhase (hput : s.put i = some p ∨ s.put i = none)
    (hphase : phase.isWriting = false) {dir : Directory Str} {rootCreated : Bool}
    (hkeeps : s.dir.Keeps dir) (hcontent : dir.content = s.dir.content)
    (hnext : dir.next = s.dir.next) :
    Quiet s (Disk.setPhase { s with dir, rootCreated } i p phase) where
  keeps := hkeeps
  content := hcontent
  next := hnext
  read := rfl
  puts := putsKept_setPhase (s := s) hput
  writing j q retried file rest hq hwriting := by
    by_cases heq : j = i
    · subst heq
      rw [put_setPhase_self] at hq
      cases hq
      dsimp only at hwriting
      rw [hwriting] at hphase
      cases hphase
    · rwa [put_setPhase_of_ne heq] at hq

/-- A put opens its temporary file. -/
theorem Inv.open (h : s.Inv postcard) (hp : s.put i = some p) {retried : Bool}
    {dir : Directory Str} {bytes : List UInt8}
    (hbytes : fileBytes postcard p.fingerprint p.kvFormatTag p.payload = .ok bytes)
    (hopen : s.dir.openTruncate (tempFileName p.fingerprint) = some (file, dir))
    (hone : ∀ j q, j ≠ i → s.put j = some q → q.fingerprint = p.fingerprint →
      q.phase.isWriting = false) :
    ((s.setDir dir).setPhase i p (.writing retried file bytes)).Inv postcard := by
  obtain ⟨hname, hother, hempty, hcontent, hnext, hlt, hfile⟩ :=
    Directory.openTruncate_spec h.named hopen
  have hkept : PutsKept s ((s.setDir dir).setPhase i p (.writing retried file bytes)) :=
    putsKept_setPhase (s := s) (.inl hp)
  -- A name of the file was the temporary name of the put.
  have hold : ∀ name, s.dir.entry name = some file → name = tempFileName p.fingerprint := by
    intro name hn
    rcases hfile with hentry | rfl
    · exact h.named.name_unique hn hentry
    · exact absurd (h.named.old hn) (Nat.lt_irrefl _)
  have hsealed_ne : ∀ {fp f}, s.Sealed postcard fp f → f ≠ file := by
    rintro fp f hs rfl
    rcases hfile with hentry | rfl
    · exact hs.not_temp _ hentry
    · exact absurd hs.old (Nat.lt_irrefl _)
  -- Another put that writes has another file.
  have hwriter_ne : ∀ {j q retried' f rest}, j ≠ i → s.put j = some q →
      q.phase = .writing retried' f rest → q.fingerprint ≠ p.fingerprint ∧ f ≠ file := by
    intro j q retried' f rest hji hq hphase
    have hfp : q.fingerprint ≠ p.fingerprint := by
      intro heq
      have hnot := hone j q hji hq heq
      rw [hphase] at hnot
      cases hnot
    refine ⟨hfp, ?_⟩
    rintro rfl
    rcases hfile with hentry | rfl
    · exact hfp (tempFileName_inj ((h.writer hq hphase).name _ hentry)).symm
    · exact absurd (h.writer hq hphase).old (Nat.lt_irrefl _)
  have hseal : ∀ {fp f}, s.Sealed postcard fp f →
      ((s.setDir dir).setPhase i p (.writing retried file bytes)).Sealed postcard fp f := by
    intro fp f hs
    apply hs.mono hkept (hcontent f (hsealed_ne hs)) hnext
    · intro other hentry
      by_cases heq : tempFileName other = tempFileName p.fingerprint
      · have hentry' : dir.entry (tempFileName other) = some f := hentry
        rw [heq, hname] at hentry'
        exact absurd (Option.some.inj hentry').symm (hsealed_ne hs)
      · exact (hother _ heq).symm.trans hentry
    · intro j q retried' rest hq hphase
      by_cases heq : j = i
      · subst heq
        rw [put_setPhase_self] at hq
        cases hq
        cases hphase
        exact absurd rfl (hsealed_ne hs)
      · exact ⟨q, retried', rest, (put_setPhase_of_ne heq).symm.trans hq, hphase⟩
  refine ⟨h.named.openTruncate hopen, ?_, ?_, ?_, ?_⟩
  · intro j q retried' f rest hq hphase
    by_cases heq : j = i
    · subst heq
      rw [put_setPhase_self] at hq
      cases hq
      cases hphase
      refine ⟨?_, hlt, ?_, ?_⟩
      · change fileBytes _ _ _ _ = .ok (dir.content file ++ bytes)
        rw [hempty]
        exact hbytes
      · intro name hn
        by_contra hne
        exact hne (hold name ((hother name hne).symm.trans hn))
      · exact fun other hn => (Option.some.inj (hname.symm.trans hn)).symm
    · rw [put_setPhase_of_ne heq] at hq
      have hw := h.writer hq hphase
      obtain ⟨hfp, hne⟩ := hwriter_ne heq hq hphase
      refine ⟨?_, Nat.lt_of_lt_of_le hw.old hnext, ?_, ?_⟩
      · change fileBytes _ _ _ _ = .ok (dir.content f ++ rest)
        rw [hcontent f hne]
        exact hw.bytes
      · intro name hn
        by_cases htemp : name = tempFileName p.fingerprint
        · subst htemp
          exact absurd (Option.some.inj (hname.symm.trans hn)).symm hne
        · exact hw.name name ((hother name htemp).symm.trans hn)
      · have htemp : tempFileName q.fingerprint ≠ tempFileName p.fingerprint :=
          fun heq => hfp (tempFileName_inj heq)
        exact fun other hn => hw.own other ((hother _ htemp).symm.trans hn)
  · intro j k q r retried₁ retried₂ f f' rest rest' hjk hq hr hphase hphase'
    by_cases hj : j = i
    · subst hj
      rw [put_setPhase_self] at hq
      cases hq
      cases hphase
      rw [put_setPhase_of_ne hjk.symm] at hr
      obtain ⟨hfp, hne⟩ := hwriter_ne hjk.symm hr hphase'
      exact ⟨hfp.symm, hne.symm⟩
    · rw [put_setPhase_of_ne hj] at hq
      by_cases hk : k = i
      · subst hk
        rw [put_setPhase_self] at hr
        cases hr
        cases hphase'
        exact hwriter_ne hj hq hphase
      · rw [put_setPhase_of_ne hk] at hr
        exact h.apart hjk hq hr hphase hphase'
  · intro fp f hentry
    have hne : blockFileName fp ≠ tempFileName p.fingerprint := (tempFileName_ne _ _).symm
    exact hseal (h.block ((hother _ hne).symm.trans hentry))
  · intro j r hr
    obtain ⟨hs, hbuffer, hend⟩ := h.read hr
    have hc := hcontent r.file (hsealed_ne hs)
    exact ⟨hseal hs, hc.symm ▸ hbuffer, fun hfinished => (hend hfinished).trans hc.symm⟩

/-- A put appends to its temporary file. -/
theorem Inv.append (h : s.Inv postcard) (hp : s.put i = some p) {retried : Bool}
    {rest : List UInt8} (hphase : p.phase = .writing retried file rest) (n : Nat) :
    ((s.setDir (s.dir.append file (rest.take n))).setPhase i p
      (.writing retried file (rest.drop n))).Inv postcard := by
  have hw := h.writer hp hphase
  have hkept : PutsKept s ((s.setDir (s.dir.append file (rest.take n))).setPhase i p
      (.writing retried file (rest.drop n))) := putsKept_setPhase (s := s) (.inl hp)
  have hsealed_ne : ∀ {fp f}, s.Sealed postcard fp f → f ≠ file := by
    rintro fp f hs rfl
    exact hs.unwritten i p retried rest hp hphase
  have hseal : ∀ {fp f}, s.Sealed postcard fp f →
      ((s.setDir (s.dir.append file (rest.take n))).setPhase i p
        (.writing retried file (rest.drop n))).Sealed postcard fp f := by
    intro fp f hs
    apply hs.mono hkept (Directory.content_append_of_ne (hsealed_ne hs) _) (Nat.le_refl _)
    · exact fun other hentry => hentry
    · intro j q retried' rest' hq hphase'
      by_cases heq : j = i
      · subst heq
        rw [put_setPhase_self] at hq
        cases hq
        cases hphase'
        exact ⟨p, _, rest, hp, hphase⟩
      · exact ⟨q, retried', rest', (put_setPhase_of_ne heq).symm.trans hq, hphase'⟩
  refine ⟨h.named.of_keeps (fun _ _ ha => ha) (Nat.le_refl _), ?_, ?_, ?_, ?_⟩
  · intro j q retried' f rest' hq hphase'
    by_cases heq : j = i
    · subst heq
      rw [put_setPhase_self] at hq
      cases hq
      cases hphase'
      refine ⟨?_, hw.old, hw.name, hw.own⟩
      change fileBytes _ _ _ _ = .ok ((s.dir.append file (rest.take n)).content file ++ _)
      rw [Directory.content_append_self, List.append_assoc, List.take_append_drop]
      exact hw.bytes
    · rw [put_setPhase_of_ne heq] at hq
      have hw' := h.writer hq hphase'
      refine ⟨?_, hw'.old, hw'.name, hw'.own⟩
      change fileBytes _ _ _ _ = .ok ((s.dir.append file (rest.take n)).content f ++ _)
      rw [Directory.content_append_of_ne (h.apart heq hq hp hphase' hphase).2]
      exact hw'.bytes
  · intro j k q r retried₁ retried₂ f f' rest₁ rest₂ hjk hq hr hphase₁ hphase₂
    by_cases hj : j = i
    · subst hj
      rw [put_setPhase_self] at hq
      cases hq
      cases hphase₁
      rw [put_setPhase_of_ne hjk.symm] at hr
      have hapart := h.apart hjk hp hr hphase hphase₂
      exact hapart
    · rw [put_setPhase_of_ne hj] at hq
      by_cases hk : k = i
      · subst hk
        rw [put_setPhase_self] at hr
        cases hr
        cases hphase₂
        have hapart := h.apart hj hq hp hphase₁ hphase
        exact hapart
      · rw [put_setPhase_of_ne hk] at hr
        exact h.apart hjk hq hr hphase₁ hphase₂
  · exact fun hentry => hseal (h.block hentry)
  · intro j r hr
    obtain ⟨hs, hbuffer, hend⟩ := h.read hr
    have hc : (s.dir.append file (rest.take n)).content r.file = s.dir.content r.file :=
      Directory.content_append_of_ne (hsealed_ne hs) _
    exact ⟨hseal hs, hc.symm ▸ hbuffer, fun hfinished => (hend hfinished).trans hc.symm⟩

/-- A put gives its temporary file the name of the block. -/
theorem Inv.rename (h : s.Inv postcard) (hp : s.put i = some p) {retried : Bool}
    (hphase : p.phase = .writing retried file []) {dir : Directory Str}
    (hrename : s.dir.rename (tempFileName p.fingerprint) (blockFileName p.fingerprint) =
      some dir) : ((s.setDir dir).setPhase i p (.done (.ok ()))).Inv postcard := by
  have hw := h.writer hp hphase
  have hne := tempFileName_ne p.fingerprint p.fingerprint
  obtain ⟨file', hsource, hgone, htarget, hother, hcontent, hnext⟩ :=
    Directory.rename_spec hne hrename
  have hkept : PutsKept s ((s.setDir dir).setPhase i p (.done (.ok ()))) :=
    putsKept_setPhase (s := s) (.inl hp)
  have hwriting : ∀ j q retried' f rest,
      ((s.setDir dir).setPhase i p (.done (.ok ()))).put j = some q →
        q.phase = .writing retried' f rest → j ≠ i ∧ s.put j = some q := by
    intro j q retried' f rest hq hphase'
    by_cases heq : j = i
    · subst heq
      rw [put_setPhase_self] at hq
      cases hq
      cases hphase'
    · exact ⟨heq, (put_setPhase_of_ne heq).symm.trans hq⟩
  -- The temporary names that are left are those of other blocks.
  have htemps : ∀ other f, dir.entry (tempFileName other) = some f →
      s.dir.entry (tempFileName other) = some f := by
    intro other f hentry
    by_cases heq : tempFileName other = tempFileName p.fingerprint
    · rw [heq, hgone] at hentry
      cases hentry
    · exact (hother _ heq (tempFileName_ne _ _)).symm.trans hentry
  have hseal : ∀ {fp f}, s.Sealed postcard fp f →
      ((s.setDir dir).setPhase i p (.done (.ok ()))).Sealed postcard fp f := by
    intro fp f hs
    apply hs.mono hkept (congrFun hcontent f) (Nat.le_of_eq hnext.symm)
    · exact fun other hentry => htemps other f hentry
    · intro j q retried' rest hq hphase'
      exact ⟨q, retried', rest, (hwriting j q retried' f rest hq hphase').2, hphase'⟩
  refine ⟨h.named.rename hne hrename, ?_, ?_, ?_, ?_⟩
  · intro j q retried' f rest hq hphase'
    obtain ⟨hji, hq'⟩ := hwriting j q retried' f rest hq hphase'
    have hw' := h.writer hq' hphase'
    have hfp := (h.apart hji hq' hp hphase' hphase).1
    refine ⟨?_, Nat.lt_of_lt_of_le hw'.old (Nat.le_of_eq hnext.symm), ?_,
      fun other hn => hw'.own other (htemps _ _ hn)⟩
    · change fileBytes _ _ _ _ = .ok (dir.content f ++ rest)
      rw [hcontent]
      exact hw'.bytes
    · intro name hn
      by_cases hnt : name = blockFileName p.fingerprint
      · -- The file that was renamed is not the one that the other put writes.
        subst hnt
        have heq : file' = f := Option.some.inj (htarget.symm.trans hn)
        subst heq
        exact absurd (tempFileName_inj (hw'.name _ hsource)).symm hfp
      · by_cases hns : name = tempFileName p.fingerprint
        · subst hns
          rw [show ((s.setDir dir).setPhase i p (.done (.ok ()))).dir = dir from rfl, hgone] at hn
          cases hn
        · exact hw'.name name ((hother name hns hnt).symm.trans hn)
  · intro j k q r retried₁ retried₂ f f' rest₁ rest₂ hjk hq hr hphase₁ hphase₂
    exact h.apart hjk (hwriting _ _ _ _ _ hq hphase₁).2 (hwriting _ _ _ _ _ hr hphase₂).2
      hphase₁ hphase₂
  · intro fp f hentry
    by_cases heq : blockFileName fp = blockFileName p.fingerprint
    · have hfp := blockFileName_inj heq
      subst hfp
      have hff : file = f :=
        (hw.own _ hsource).symm.trans (Option.some.inj (htarget.symm.trans hentry))
      subst hff
      refine ⟨⟨i, _, put_setPhase_self, rfl, ?_⟩, ?_, ?_, ?_⟩
      · change fileBytes _ _ _ _ = .ok (dir.content file)
        rw [hw.bytes, hcontent, List.append_nil]
      · exact Nat.lt_of_lt_of_le hw.old (Nat.le_of_eq hnext.symm)
      · intro other hn
        have heq' := hw.name _ (htemps other file hn)
        have hn' : dir.entry (tempFileName other) = some file := hn
        rw [heq', hgone] at hn'
        cases hn'
      · intro j q retried' rest hq hphase'
        obtain ⟨hji, hq'⟩ := hwriting j q retried' file rest hq hphase'
        exact (h.apart hji hq' hp hphase' hphase).2 rfl
    · have hns : blockFileName fp ≠ tempFileName p.fingerprint := (tempFileName_ne _ _).symm
      exact hseal (h.block ((hother _ hns heq).symm.trans hentry))
  · intro j r hr
    obtain ⟨hs, hbuffer, hend⟩ := h.read hr
    have hc : dir.content r.file = s.dir.content r.file := congrFun hcontent r.file
    exact ⟨hseal hs, hc.symm ▸ hbuffer, fun hfinished => (hend hfinished).trans hc.symm⟩

/-- A read goes on. -/
theorem Inv.setRead (h : s.Inv postcard) {j : Nat} {r : Read}
    (hr : s.Sealed postcard r.fingerprint r.file ∧ r.buffer <+: s.dir.content r.file ∧
      (r.finished = true → r.buffer = s.dir.content r.file)) : (s.setRead j r).Inv postcard := by
  have hseal : ∀ {fp f}, s.Sealed postcard fp f → (s.setRead j r).Sealed postcard fp f :=
    fun hs => ⟨hs.complete, hs.old, hs.not_temp, hs.unwritten⟩
  refine ⟨h.named, ?_, h.apart, fun hentry => hseal (h.block hentry), ?_⟩
  · intro i p retried file rest hp hphase
    have hw := h.writer hp hphase
    exact ⟨hw.bytes, hw.old, hw.name, hw.own⟩
  · intro k r' hr'
    by_cases heq : k = j
    · subst heq
      have hself : (s.setRead k r).read k = some r := Function.update_self _ _ _
      rw [hself] at hr'
      cases hr'
      exact ⟨hseal hr.1, hr.2⟩
    · have hkept : (s.setRead j r).read k = s.read k := Function.update_of_ne heq _ _
      rw [hkept] at hr'
      exact ⟨hseal (h.read hr').1, (h.read hr').2⟩

theorem isWriting_afterRoot : (afterRoot postcard p).isWriting = false := by
  unfold afterRoot
  split <;> rfl

theorem isWriting_afterCleanUp (retried : Bool) (kind : ErrorKind) :
    (afterCleanUp retried kind).isWriting = false := by
  unfold afterCleanUp
  split <;> rfl

theorem inv_start : start.Inv postcard where
  named := Directory.named_empty
  writer h := by cases h
  apart _ h := by cases h
  block h := by cases h
  read h := by cases h

theorem inv_step : Preserved (guarded OneWriter (Step postcard)) (Inv postcard) := by
  intro s op t h hstep
  obtain ⟨hone, hstep⟩ := hstep
  -- A put that changes its phase and writes no file.
  have quiet : ∀ {i p phase}, (s.put i = some p ∨ s.put i = none) → phase.isWriting = false →
      ∀ {dir rootCreated}, s.dir.Keeps dir → dir.content = s.dir.content →
        dir.next = s.dir.next →
          (Disk.setPhase { s with dir, rootCreated } i p phase).Inv postcard := by
    intro i p phase hput hphase dir rootCreated hkeeps hcontent hnext
    exact h.quiet (quiet_setPhase hput hphase hkeeps hcontent hnext)
  have same : s.dir.Keeps s.dir := fun _ _ hfile => hfile
  cases hstep with
  | begin i p hnew hphase => exact quiet (.inr hnew) rfl same rfl rfl
  | ensured i p hp hphase hroot => exact quiet (.inl hp) isWriting_afterRoot same rfl rfl
  | ensure i p hp hphase hroot => exact quiet (.inl hp) isWriting_afterRoot same rfl rfl
  | ensureFails i p kind hp hphase => exact quiet (.inl hp) rfl same rfl rfl
  | «open» i p retried file dir bytes hp hphase hbytes hopen =>
    exact h.open hp hbytes hopen fun j q hji hq hfp => hone i p rfl hp j q hji hq hfp
  | openFails i p retried kind hp hphase => exact quiet (.inl hp) rfl same rfl rfl
  | append i p retried file rest n hp hphase => exact h.append hp hphase n
  | writeFails i p retried file rest kind hp hphase => exact quiet (.inl hp) rfl same rfl rfl
  | rename i p retried file dir hp hphase hrename => exact h.rename hp hphase hrename
  | cleanUp i p retried kind hp hphase =>
    exact quiet (.inl hp) (isWriting_afterCleanUp _ _) (Directory.keeps_remove _) rfl rfl
  | cleanUpFails i p retried kind hp hphase =>
    exact quiet (.inl hp) (isWriting_afterCleanUp _ _) same rfl rfl
  | heal i p hp hphase => exact quiet (.inl hp) rfl same rfl rfl
  | healFails i p kind hp hphase => exact quiet (.inl hp) rfl same rfl rfl
  | crash i p hp => exact quiet (.inl hp) rfl same rfl rfl
  | purge =>
    exact h.quiet ⟨Directory.keeps_purge, rfl, rfl, rfl, putsKept_refl rfl,
      fun _ _ _ _ _ hp _ => hp⟩
  | openRead j fp file hnew hfile =>
    exact h.setRead ⟨h.block hfile, List.nil_prefix, (fun h => by cases h)⟩
  | readSome j r n hr hopen =>
    obtain ⟨hs, hbuffer, _⟩ := h.read hr
    refine h.setRead ⟨hs, ?_, fun hfinished => absurd hfinished (by simp [hopen])⟩
    obtain ⟨rest, hrest⟩ := hbuffer
    rw [← hrest, List.drop_left]
    apply (List.prefix_append_right_inj _).mpr
    exact List.take_prefix _ _
  | readEnd j r hr hend =>
    obtain ⟨hs, hbuffer, _⟩ := h.read hr
    exact h.setRead ⟨hs, hbuffer, fun _ => hbuffer.eq_of_length_le hend⟩

/-! ## What readers get -/

/-- A complete file is decoded to what was put. -/
theorem decode_fileBytes (hpostcard : postcard.Documented) {tag : UInt8}
    {payload bytes : List UInt8} (h : fileBytes postcard fp tag payload = .ok bytes) :
    decode postcard bytes = .ok (.new fp tag (UInt64.ofNat payload.length), payload) ∧
      (UInt64.ofNat payload.length).toNat = payload.length := by
  unfold fileBytes at h
  split at h
  · rename_i hlen
    have htoNat : (UInt64.ofNat payload.length).toNat = payload.length :=
      UInt64.toNat_ofNat_of_lt' hlen
    split at h
    · cases h
    · rename_i headerBytes hheader
      cases h
      refine ⟨?_, htoNat⟩
      unfold decode decodePrefix
      rw [hpostcard _ _ hheader]
      simp [DiskBlockHeader.new, htoNat]
  · cases h

variable (postcard) in
/-- The file of a block is absent or complete, and a read of it that has ended brings what a put
of the block put, through `get_block` and through `visit_blocks`. -/
def NeverTorn (s : Disk) : Prop :=
  (∀ fp file, s.dir.entry (blockFileName fp) = some file →
    s.Complete postcard fp (s.dir.content file)) ∧
  ∀ j r, s.read j = some r → r.finished = true →
    ∃ i p, s.put i = some p ∧ p.fingerprint = r.fingerprint ∧
      (∀ payloadLen expected, (∀ fp ∈ expected, fp = r.fingerprint) →
        getBlock postcard (fun _ => .ok r.buffer)
          { path := blockFileName r.fingerprint, payloadLen, fingerprint := r.fingerprint }
          expected = .ok p.payload) ∧
      ∀ name, blockFingerprintFromFilename name = some r.fingerprint →
        visitEntry postcard (fun _ => .ok r.buffer) name =
          some ({ path := blockFileName r.fingerprint, payloadLen := p.payload.length,
                  fingerprint := r.fingerprint }, p.payload)

theorem Inv.neverTorn (hpostcard : postcard.Documented) (h : s.Inv postcard) :
    s.NeverTorn postcard := by
  refine ⟨fun fp file hentry => (h.block hentry).complete, ?_⟩
  intro j r hr hfinished
  obtain ⟨hsealed, _, hend⟩ := h.read hr
  obtain ⟨i, p, hp, hfp, hbytes⟩ := hsealed.complete
  rw [← hend hfinished, hfp] at hbytes
  obtain ⟨hdecode, hlen⟩ := decode_fileBytes hpostcard hbytes
  refine ⟨i, p, hp, hfp, ?_, ?_⟩
  · intro payloadLen expected hexpected
    have hany : expected.any (fun fp => decide (fp ≠ r.fingerprint)) = false := by
      cases expected with
      | none => rfl
      | some fp => simp [hexpected fp rfl]
    unfold getBlock
    dsimp only
    rw [hany, hdecode]
    simp [DiskBlockHeader.new]
  · intro name hname
    unfold visitEntry
    rw [hname]
    dsimp only
    rw [hdecode]
    simp [DiskBlockHeader.new, hlen]

/-- In every run in which a block has one writer at a time, no reader sees a torn block. -/
theorem blocks_never_torn (hpostcard : postcard.Documented) {s : Disk}
    (hreach : Reachable (fun s => s = start) (guarded OneWriter (Step postcard)) s) :
    s.NeverTorn postcard := by
  have hinv : s.Inv postcard := by
    apply hreach.invariant _ inv_step
    rintro s rfl
    exact inv_start
  exact hinv.neverTorn hpostcard

/-! ## Two runs -/

/-- A put of a block with one byte. -/
def oneByte (byte : UInt8) (phase : Phase) : Put :=
  { fingerprint := ⟨0⟩, kvFormatTag := 1, payload := [byte], phase }

/-- The bytes of its file. -/
def oneByteFile (byte : UInt8) : List UInt8 :=
  headerBytes (.new ⟨0⟩ 1 1) ++ [byte]

/-- A put of one byte that is read back. -/
theorem oneByte_run : ∃ s, Run (guarded OneWriter (Step plainPostcard)) start
    [.begin 0 ⟨0⟩ 1 [7], .ensure 0, .open 0, .append 0 64, .rename 0, .openRead 0 ⟨0⟩,
      .readSome 0 64, .readEnd 0] s ∧
    s.read 0 = some { fingerprint := ⟨0⟩, file := 0, buffer := oneByteFile 7, finished := true } := by
  refine ⟨_, .cons ⟨(fun _ _ h => by cases h), .begin _ 0 (oneByte 7 .ensuring) rfl rfl⟩ <|
    .cons ⟨(fun _ _ h => by cases h), .ensure _ 0 (oneByte 7 .ensuring) rfl rfl rfl⟩ <|
    .cons ⟨?_, .open _ 0 (oneByte 7 (.opening false)) false 0 _ (oneByteFile 7) rfl rfl rfl rfl⟩ <|
    .cons ⟨(fun _ _ h => by cases h), .append _ 0 (oneByte 7 (.writing false 0 (oneByteFile 7)))
      false 0 (oneByteFile 7) 64 rfl rfl⟩ <|
    .cons ⟨(fun _ _ h => by cases h), .rename _ 0 (oneByte 7 (.writing false 0 [])) false 0 _
      rfl rfl rfl⟩ <|
    .cons ⟨(fun _ _ h => by cases h), .openRead _ 0 ⟨0⟩ 0 rfl rfl⟩ <|
    .cons ⟨(fun _ _ h => by cases h), .readSome _ 0 ⟨⟨0⟩, 0, [], false⟩ 64 rfl rfl⟩ <|
    .cons ⟨(fun _ _ h => by cases h), .readEnd _ 0 ⟨⟨0⟩, 0, oneByteFile 7, false⟩ rfl
      (Nat.le_refl _)⟩ (.nil _), ?_⟩
  · intro i p hop hp j q hji hq hfp
    cases hop
    rw [put_setPhase_of_ne hji] at hq
    exact absurd ((put_setPhase_of_ne hji).symm.trans hq) (fun h => by cases h)
  · rfl

theorem blocks_never_torn_oneByte : ∃ s : Disk, s.read 0 =
    some { fingerprint := ⟨0⟩, file := 0, buffer := oneByteFile 7, finished := true } ∧
      s.NeverTorn plainPostcard := by
  obtain ⟨s, hrun, hread⟩ := oneByte_run
  exact ⟨s, hread, blocks_never_torn plainPostcard_documented ⟨start, _, rfl, hrun⟩⟩

theorem not_complete_nil {s : Disk} : ¬ s.Complete plainPostcard fp [] := by
  rintro ⟨i, p, _, _, hbytes⟩
  unfold fileBytes at hbytes
  split at hbytes
  · have hnil := List.append_eq_nil_iff.mp (Except.ok.inj hbytes)
    cases hnil.1
  · cases hbytes

/-- A second put of a block truncates the temporary file of the first, which then renames it. -/
theorem second_writer_tears : ∃ s, Run (Step plainPostcard) start
    [.begin 0 ⟨0⟩ 1 [7], .begin 1 ⟨0⟩ 1 [8], .ensure 0, .ensure 1, .open 0, .append 0 64, .open 1,
      .rename 0] s ∧ ¬ s.NeverTorn plainPostcard := by
  refine ⟨_, .cons (.begin _ 0 (oneByte 7 .ensuring) rfl rfl) <|
    .cons (.begin _ 1 (oneByte 8 .ensuring) rfl rfl) <|
    .cons (.ensure _ 0 (oneByte 7 .ensuring) rfl rfl rfl) <|
    .cons (.ensured _ 1 (oneByte 8 .ensuring) rfl rfl rfl) <|
    .cons (.open _ 0 (oneByte 7 (.opening false)) false 0 _ (oneByteFile 7) rfl rfl rfl rfl) <|
    .cons (.append _ 0 (oneByte 7 (.writing false 0 (oneByteFile 7))) false 0 (oneByteFile 7) 64
      rfl rfl) <|
    .cons (.open _ 1 (oneByte 8 (.opening false)) false 0 _ (oneByteFile 8) rfl rfl rfl rfl) <|
    .cons (.rename _ 0 (oneByte 7 (.writing false 0 [])) false 0 _ rfl rfl rfl) (.nil _), ?_⟩
  intro htorn
  have hcomplete := htorn.1 ⟨0⟩ 0 rfl
  exact not_complete_nil hcomplete

end Disk

end Arle.KvTier.Transport
