import Mathlib
import Arle.Lib.Word
import Arle.KvTier.Transport.DiskAtomic

/-!
# Scans of the disk tier

Both scans go through the directory and show the visitor every block in it. The full one reads
each file and checks the length of the payload; the other one reads a prefix of the file, finds
the length of the header from what is left behind it and compares with the length that the file
system knows.
-/

namespace Arle.KvTier.Transport

structure IoError where
  kind : ErrorKind
  message : Str

def invalidData (message : Str) : IoError := { kind := .other, message }

/-- An entry of the directory; the name is absent when it is not UTF-8. -/
structure DirEntry where
  fileName : Option Str
  isFile : Except IoError Bool

/-- A file that can be read; its length is a machine word. -/
structure DiskFile where
  bytes : List UInt8
  length_lt : bytes.length < 2 ^ 64

/-- What the scans see of the root. Paths are the names in it. -/
structure RootDir where
  readDir : Except IoError (List (Except IoError DirEntry))
  canonicalize : Str → Except IoError Str
  file : Str → Except IoError DiskFile

/-- A visitor is given a location and bytes, and has a state of its own. -/
abbrev Visitor (σ : Type) := DiskBlockLocation → List UInt8 → σ → Except IoError Unit × σ

namespace RootDir

variable (postcard : Postcard) (root : RootDir) {σ : Type}

def sameExistingPath (a b : Str) : Bool :=
  if a = b then true
  else
    match root.canonicalize a, root.canonicalize b with
    | .ok a, .ok b => decide (a = b)
    | _, _ => false

/-- What the loops of both scans do with an entry before they read its file; `readBlock` reads
it and says what the visitor is given, if the file is not skipped. -/
def scanEntry (readBlock : BlockFingerprint → Option (DiskBlockLocation × List UInt8))
    (entry : DirEntry) : Except IoError (Option (DiskBlockLocation × List UInt8)) :=
  match entry.isFile with
  | .error err => .error err
  | .ok false => .ok none
  | .ok true =>
    match entry.fileName with
    | none => .ok none
    | some name =>
      match blockFingerprintFromFilename name with
      | none => .ok none
      | some fingerprint =>
        if root.sameExistingPath name (blockFileName fingerprint) then
          .ok (readBlock fingerprint)
        else
          .error (invalidData "disk store: discovered block path outside canonical root".toList)

/-- The loop of both scans. -/
def scanEntries (readBlock : BlockFingerprint → Option (DiskBlockLocation × List UInt8))
    (visit : Visitor σ) : List (Except IoError DirEntry) → σ → Except IoError Unit × σ
  | [], s => (.ok (), s)
  | .error err :: _, s => (.error err, s)
  | .ok entry :: entries, s =>
    match root.scanEntry readBlock entry with
    | .error err => (.error err, s)
    | .ok none => scanEntries readBlock visit entries s
    | .ok (some (location, bytes)) =>
      match visit location bytes s with
      | (.error err, s) => (.error err, s)
      | (.ok (), s) => scanEntries readBlock visit entries s

def scan (readBlock : BlockFingerprint → Option (DiskBlockLocation × List UInt8))
    (visit : Visitor σ) (s : σ) : Except IoError Unit × σ :=
  match root.readDir with
  | .error err => if err.kind = .notFound then (.ok (), s) else (.error err, s)
  | .ok entries => root.scanEntries readBlock visit entries s

def readBlock (fingerprint : BlockFingerprint) : Except Str (List UInt8) :=
  match root.file (blockFileName fingerprint) with
  | .error err => .error err.message
  | .ok file => .ok file.bytes

/-- The part of `visit_blocks` that reads the file of a block. -/
def fullBlock (fingerprint : BlockFingerprint) : Option (DiskBlockLocation × List UInt8) :=
  match root.readBlock fingerprint with
  | .error _ => none
  | .ok bytes =>
    match decode postcard bytes with
    | .error _ => none
    | .ok (header, payload) =>
      if header.fingerprint ≠ fingerprint then
        none
      else
        some ({ path := blockFileName fingerprint, payloadLen := header.payloadLen.toNat,
                fingerprint }, payload)

def visitBlocks (visit : Visitor σ) (s : σ) : Except IoError Unit × σ :=
  root.scan (root.fullBlock postcard) visit s

def blockHeaderReadSlop : Nat := 512

/-- The part of `visit_block_payload_prefixes` that reads a prefix of the file of a block. -/
def prefixBlock (maxPayloadPrefixLen : Nat) (fingerprint : BlockFingerprint) :
    Option (DiskBlockLocation × List UInt8) :=
  match root.file (blockFileName fingerprint) with
  | .error _ => none
  | .ok file =>
    let bytes := file.bytes.take (Word.saturatingAdd 64 maxPayloadPrefixLen blockHeaderReadSlop)
    match decodePrefix postcard bytes with
    | .error _ => none
    | .ok (header, payloadPrefix) =>
      if header.fingerprint ≠ fingerprint then
        none
      else
        match Word.checkedAdd 64 (bytes.length - payloadPrefix.length)
            header.payloadLen.toNat with
        | none => none
        | some expectedFileLen =>
          if file.bytes.length ≠ expectedFileLen then
            none
          else
            let payloadPrefixLen :=
              min (min payloadPrefix.length maxPayloadPrefixLen) header.payloadLen.toNat
            some ({ path := blockFileName fingerprint, payloadLen := header.payloadLen.toNat,
                    fingerprint }, payloadPrefix.take payloadPrefixLen)

def visitBlockPayloadPrefixes (maxPayloadPrefixLen : Nat) (visit : Visitor σ) (s : σ) :
    Except IoError Unit × σ :=
  root.scan (root.prefixBlock postcard maxPayloadPrefixLen) visit s

end RootDir

/-! ## Names of blocks -/

theorem hexValue_hexDigit : ∀ n < 16, hexValue (hexDigit n) = some (UInt8.ofNat n) := by decide

theorem toNat_hexDigit :
    ∀ n < 16, (hexDigit n).toNat = if n < 10 then n + '0'.toNat else n - 10 + 'a'.toNat := by
  decide

theorem hexDigit_of_hexValue {c : Char} {x : UInt8} (h : hexValue c = some x) :
    x.toNat < 16 ∧ hexDigit x.toNat = c := by
  unfold hexValue at h
  split at h
  · rename_i hdigit
    cases h
    have hlo : '0'.toNat ≤ c.toNat := hdigit.1
    have hhi : c.toNat ≤ '9'.toNat := hdigit.2
    have hzero : '0'.toNat = 48 := rfl
    have hnine : '9'.toNat = 57 := rfl
    have hsize : UInt8.size = 256 := rfl
    have hx : (UInt8.ofNat (c.toNat - '0'.toNat)).toNat = c.toNat - '0'.toNat :=
      UInt8.toNat_ofNat_of_lt' (by omega)
    refine ⟨by omega, Char.toNat_inj.mp ?_⟩
    rw [hx, toNat_hexDigit _ (by omega), if_pos (by omega)]
    omega
  · split at h
    · rename_i hletter
      cases h
      have hlo : 'a'.toNat ≤ c.toNat := hletter.1
      have hhi : c.toNat ≤ 'f'.toNat := hletter.2
      have ha : 'a'.toNat = 97 := rfl
      have hf : 'f'.toNat = 102 := rfl
      have hsize : UInt8.size = 256 := rfl
      have hx : (UInt8.ofNat (c.toNat - 'a'.toNat + 10)).toNat = c.toNat - 'a'.toNat + 10 :=
        UInt8.toNat_ofNat_of_lt' (by omega)
      refine ⟨by omega, Char.toNat_inj.mp ?_⟩
      rw [hx, toNat_hexDigit _ (by omega), if_neg (by omega)]
      omega
    · cases h

/-- The two digits of a byte. -/
def hexByte (byte : UInt8) : Str := [hexDigit (byte.toNat / 16), hexDigit (byte.toNat % 16)]

theorem hexByte_eq {hi lo : UInt8} (hhi : hi.toNat < 16) (hlo : lo.toNat < 16) :
    hexByte (hi * 16 + lo) = [hexDigit hi.toNat, hexDigit lo.toNat] := by
  have hbyte : (hi * 16 + lo).toNat = hi.toNat * 16 + lo.toNat := by
    rw [UInt8.toNat_add, UInt8.toNat_mul]
    change (hi.toNat * 16 % 256 + lo.toNat) % 256 = _
    omega
  unfold hexByte
  rw [hbyte, show (hi.toNat * 16 + lo.toNat) / 16 = hi.toNat by omega,
    show (hi.toNat * 16 + lo.toNat) % 16 = lo.toNat by omega]

theorem hexPairs_flatMap (bytes : List UInt8) : hexPairs (bytes.flatMap hexByte) = some bytes := by
  induction bytes with
  | nil => rfl
  | cons byte bytes ih =>
    have hlt : byte.toNat < 256 := byte.toNat_lt
    have hhi := hexValue_hexDigit (byte.toNat / 16) (by omega)
    have hlo := hexValue_hexDigit (byte.toNat % 16) (by omega)
    have hbyte : UInt8.ofNat (byte.toNat / 16) * 16 + UInt8.ofNat (byte.toNat % 16) = byte := by
      apply UInt8.toNat_inj.mp
      rw [UInt8.toNat_add, UInt8.toNat_mul, UInt8.toNat_ofNat', UInt8.toNat_ofNat']
      change (byte.toNat / 16 % 256 * 16 % 256 + byte.toNat % 16 % 256) % 256 = _
      omega
    simp only [List.flatMap_cons, hexByte, List.cons_append, List.nil_append, hexPairs, hhi, hlo]
    change (hexPairs (bytes.flatMap hexByte)).bind _ = _
    rw [ih]
    exact congrArg (fun b => some (b :: bytes)) hbyte

theorem eq_of_hexPairs {name : Str} {bytes : List UInt8} (h : hexPairs name = some bytes) :
    name = bytes.flatMap hexByte := by
  induction name using hexPairs.induct generalizing bytes with
  | case1 hi lo rest ih =>
    unfold hexPairs at h
    cases hx : hexValue hi with
    | none => simp [hx] at h
    | some x =>
      cases hy : hexValue lo with
      | none => simp [hx, hy] at h
      | some y =>
        cases hrest : hexPairs rest with
        | none => simp [hx, hy, hrest] at h
        | some tail =>
          have hbytes : (x * 16 + y) :: tail = bytes := by simpa [hx, hy, hrest] using h
          obtain ⟨hx16, hhi⟩ := hexDigit_of_hexValue hx
          obtain ⟨hy16, hlo⟩ := hexDigit_of_hexValue hy
          rw [← hbytes, List.flatMap_cons, hexByte_eq hx16 hy16, hhi, hlo, ih hrest]
          rfl
  | case2 c => cases h
  | case3 =>
    cases h
    rfl

theorem utf8Size_hexDigit : ∀ n < 16, (hexDigit n).utf8Size = 1 := by decide

theorem len_flatMap_hexByte (bytes : List UInt8) :
    Str.len (bytes.flatMap hexByte) = 2 * bytes.length := by
  induction bytes with
  | nil => rfl
  | cons byte bytes ih =>
    have hlt : byte.toNat < 256 := byte.toNat_lt
    have hhi := utf8Size_hexDigit (byte.toNat / 16) (by omega)
    have hlo := utf8Size_hexDigit (byte.toNat % 16) (by omega)
    rw [List.flatMap_cons, Str.len_append, ih, hexByte, Str.len_cons, Str.len_cons, Str.len_nil,
      hhi, hlo, List.length_cons]
    omega

theorem blockFileName_eq (fp : BlockFingerprint) :
    blockFileName fp = (fingerprintBytes fp).flatMap hexByte ++ ".kv".toList := rfl

theorem fingerprintBytes_ofBytes {bytes : List UInt8} (hlen : bytes.length = 16) :
    fingerprintBytes ⟨BitVec.ofNat 128 (LittleEndian.ofBytes bytes)⟩ = bytes := by
  have hlt : LittleEndian.ofBytes bytes < 2 ^ 128 := by
    have h := LittleEndian.ofBytes_lt bytes
    rw [hlen] at h
    exact Nat.lt_of_lt_of_eq h (by norm_num)
  unfold fingerprintBytes
  rw [BitVec.toNat_ofNat, Nat.mod_eq_of_lt hlt, ← hlen]
  exact LittleEndian.toBytes_ofBytes bytes

/-- The names of files of blocks are those of `block_path_for`. -/
theorem blockFingerprintFromFilename_eq_some {name : Str} {fp : BlockFingerprint} :
    blockFingerprintFromFilename name = some fp ↔ name = blockFileName fp := by
  have hstem : ∀ stem : Str, (stem ++ ".kv".toList).take ((stem ++ ".kv".toList).length - 3) =
      stem := by
    intro stem
    have hlen : (stem ++ ".kv".toList).length - 3 = stem.length := by
      rw [List.length_append]
      rfl
    rw [hlen, List.take_left]
  constructor
  · intro h
    unfold blockFingerprintFromFilename at h
    split at h
    · rename_i hkv
      obtain ⟨stem, rfl⟩ := hkv
      rw [hstem] at h
      dsimp only at h
      split at h
      · rename_i hlen
        obtain ⟨bytes, hbytes, rfl⟩ := Option.map_eq_some_iff.mp h
        have heq := eq_of_hexPairs hbytes
        rw [heq, len_flatMap_hexByte] at hlen
        rw [blockFileName_eq, fingerprintBytes_ofBytes (by omega), heq]
      · cases h
    · cases h
  · rintro rfl
    have hlen : (fingerprintBytes fp).length = 16 := LittleEndian.length_toBytes 16 _
    have hbits : LittleEndian.ofBytes (fingerprintBytes fp) = fp.bytes.toNat :=
      LittleEndian.ofBytes_toBytes fp.bytes.isLt
    unfold blockFingerprintFromFilename
    rw [blockFileName_eq, if_pos (List.suffix_append _ _), hstem]
    dsimp only
    rw [if_pos (by rw [len_flatMap_hexByte, hlen]), hexPairs_flatMap, Option.map_some, hbits,
      BitVec.ofNat_toNat, BitVec.setWidth_eq]

/-! ## One file -/

/-- A prefix that has room for a header is read like the whole file. -/
theorem Postcard.Bounded.takeFromBytes_take {postcard : Postcard} {slop limit : Nat}
    (hbounded : postcard.Bounded slop) {bytes : List UInt8}
    (hlimit : min bytes.length slop ≤ limit) :
    postcard.takeFromBytes (bytes.take limit) = (postcard.takeFromBytes bytes).map fun taken =>
      (taken.1, taken.2.take (limit - (bytes.length - taken.2.length))) := by
  cases htake : postcard.takeFromBytes bytes with
  | some taken =>
    obtain ⟨front, rfl, hlen, hmore⟩ := hbounded _ _ _ htake
    have hfront : front.length ≤ limit := by
      rw [List.length_append] at hlimit
      omega
    rw [List.take_append, List.take_of_length_le hfront, hmore, Option.map_some,
      List.length_append, Nat.add_sub_cancel]
  | none =>
    cases hprefix : postcard.takeFromBytes (bytes.take limit) with
    | none => rfl
    | some taken =>
      obtain ⟨front, hfront, -, hmore⟩ := hbounded _ _ _ hprefix
      have hbytes : front ++ (taken.2 ++ bytes.drop limit) = bytes := by
        rw [← List.append_assoc, ← hfront, List.take_append_drop]
      have hsome := hmore (taken.2 ++ bytes.drop limit)
      rw [hbytes, htake] at hsome
      cases hsome

variable {postcard : Postcard} {bytes : List UInt8} {limit slop : Nat}

theorem decodePrefix_take (hbounded : postcard.Bounded slop)
    (hlimit : min bytes.length slop ≤ limit) :
    decodePrefix postcard (bytes.take limit) = (decodePrefix postcard bytes).map fun decoded =>
      (decoded.1, decoded.2.take (limit - (bytes.length - decoded.2.length))) := by
  unfold decodePrefix
  rw [hbounded.takeFromBytes_take hlimit]
  cases postcard.takeFromBytes bytes with
  | none => rfl
  | some taken =>
    simp only [Option.map_some]
    split
    · rfl
    · split <;> rfl

/-- The header of a file is at its front. -/
theorem length_of_decodePrefix (hbounded : postcard.Bounded slop) {header : DiskBlockHeader}
    {payload : List UInt8} (h : decodePrefix postcard bytes = .ok (header, payload)) :
    ∃ headerLen ≤ slop, bytes.length = headerLen + payload.length := by
  unfold decodePrefix at h
  split at h
  · cases h
  · rename_i taken htake
    obtain ⟨front, rfl, hlen, -⟩ := hbounded _ _ _ htake
    split at h
    · cases h
    · split at h
      · cases h
      · cases h
        exact ⟨front.length, hlen, List.length_append⟩

namespace RootDir

variable {root : RootDir} {σ : Type}

/-- What a scan of prefixes shows of a block that the full scan shows. -/
def cutPayload (n : Nat) (block : DiskBlockLocation × List UInt8) :
    DiskBlockLocation × List UInt8 :=
  (block.1, block.2.take (min n block.1.payloadLen))

/-- A file is skipped by both scans or by neither. -/
theorem prefixBlock_eq (hbounded : postcard.Bounded blockHeaderReadSlop) (n : Nat)
    (fp : BlockFingerprint) :
    root.prefixBlock postcard n fp = (root.fullBlock postcard fp).map (cutPayload n) := by
  unfold prefixBlock fullBlock readBlock
  cases hfile : root.file (blockFileName fp) with
  | error err => rfl
  | ok file =>
    have hlt := file.length_lt
    dsimp only
    generalize hlimit : Word.saturatingAdd 64 n blockHeaderReadSlop = limit
    unfold Word.saturatingAdd Word.maxVal at hlimit
    have hslop : blockHeaderReadSlop = 512 := rfl
    rw [decodePrefix_take hbounded (by omega)]
    unfold decode
    cases hdecode : decodePrefix postcard file.bytes with
    | error err => rfl
    | ok decoded =>
      obtain ⟨header, payload⟩ := decoded
      obtain ⟨headerLen, hheader, hlen⟩ := length_of_decodePrefix hbounded hdecode
      have hheaderLen : (file.bytes.take limit).length -
          (payload.take (limit - (file.bytes.length - payload.length))).length = headerLen := by
        rw [List.length_take, List.length_take]
        omega
      dsimp only [Except.map]
      rw [hheaderLen]
      by_cases hfp : header.fingerprint = fp
      · by_cases hpayload : payload.length = header.payloadLen.toNat
        · have hadd : Word.checkedAdd 64 headerLen header.payloadLen.toNat =
              some file.bytes.length := by
            rw [Word.checkedAdd_eq_some, Word.maxVal]
            omega
          have hcut : min (min (payload.take (limit - (file.bytes.length - payload.length))).length
              n) header.payloadLen.toNat = min n header.payloadLen.toNat := by
            rw [List.length_take]
            omega
          have hroom : min n header.payloadLen.toNat ≤
              limit - (file.bytes.length - payload.length) := by omega
          simp only [hfp, hpayload, hadd, ne_eq, not_true_eq_false, if_false, Option.map_some,
            cutPayload]
          rw [hpayload] at hcut hroom
          rw [hcut, List.take_take, min_eq_left hroom]
        · have hadd : ∀ expected, Word.checkedAdd 64 headerLen header.payloadLen.toNat =
              some expected → file.bytes.length ≠ expected := by
            intro expected h
            obtain ⟨-, rfl⟩ := Word.checkedAdd_eq_some.mp h
            omega
          simp only [hfp, hpayload, ne_eq, not_true_eq_false, not_false_eq_true, if_true, if_false]
          cases h : Word.checkedAdd 64 headerLen header.payloadLen.toNat with
          | none => rfl
          | some expected => exact if_pos (hadd expected h)
      · simp only [hfp, ne_eq, not_false_eq_true, if_true]
        by_cases hpayload : payload.length = header.payloadLen.toNat
        · simp only [hpayload, hfp, not_true_eq_false, not_false_eq_true, if_true, if_false]
          rfl
        · simp only [hpayload, not_false_eq_true, if_true]
          rfl

/-! ## Whole scans -/

/-- A visitor that is shown a block with its payload cut. -/
theorem scanEntries_cut {read readCut : BlockFingerprint → Option (DiskBlockLocation × List UInt8)}
    {n : Nat} (hread : ∀ fp, readCut fp = (read fp).map (cutPayload n)) (visit : Visitor σ)
    (entries : List (Except IoError DirEntry)) (s : σ) :
    root.scanEntries readCut visit entries s =
      root.scanEntries read (fun location payload =>
        visit location (payload.take (min n location.payloadLen))) entries s := by
  have hentry : ∀ entry, root.scanEntry readCut entry =
      (root.scanEntry read entry).map (Option.map (cutPayload n)) := by
    intro entry
    unfold scanEntry
    split
    · rfl
    · rfl
    · split
      · rfl
      · split
        · rfl
        · split
          · exact congrArg Except.ok (hread _)
          · rfl
  induction entries generalizing s with
  | nil => rfl
  | cons first entries ih =>
    cases first with
    | error err => rfl
    | ok entry =>
      unfold scanEntries
      rw [hentry]
      cases root.scanEntry read entry with
      | error err => rfl
      | ok block =>
        cases block with
        | none => exact ih s
        | some block =>
          dsimp only [Except.map, Option.map, cutPayload]
          split
          · rfl
          · exact ih _

variable (postcard) in
/-- The scan of prefixes visits the blocks of the full scan, in the same order and with the same
locations, each with the front of its payload; and the names of files of blocks are those that
the store gives them. -/
theorem prefix_scan_agrees (hbounded : postcard.Bounded blockHeaderReadSlop) (root : RootDir)
    (n : Nat) :
    (∀ {σ : Type} (visit : Visitor σ) (s : σ),
      root.visitBlockPayloadPrefixes postcard n visit s =
        root.visitBlocks postcard (fun location payload =>
          visit location (payload.take (min n location.payloadLen))) s) ∧
    ∀ name fp, blockFingerprintFromFilename name = some fp ↔ name = blockFileName fp := by
  refine ⟨?_, fun name fp => blockFingerprintFromFilename_eq_some⟩
  intro σ visit s
  unfold visitBlockPayloadPrefixes visitBlocks scan
  split
  · rfl
  · exact scanEntries_cut (prefixBlock_eq hbounded n) visit _ s

/-- A block of two bytes, one whose file lacks its last byte, and a file with another name. -/
def threeFiles : RootDir where
  readDir := .ok <| [blockFileName ⟨0⟩, blockFileName ⟨1⟩, "notes.kv".toList].map fun name =>
    .ok { fileName := some name, isFile := .ok true }
  canonicalize name := .ok name
  file name :=
    if name = blockFileName ⟨0⟩ then
      .ok { bytes := headerBytes (.new ⟨0⟩ 1 2) ++ [7, 8], length_lt := by decide }
    else if name = blockFileName ⟨1⟩ then
      .ok { bytes := headerBytes (.new ⟨1⟩ 1 2) ++ [7], length_lt := by decide }
    else
      .error { kind := .notFound, message := [] }

theorem prefix_scan_agrees_threeFiles :
    (threeFiles.visitBlockPayloadPrefixes plainPostcard 1
      (fun location payload seen => (.ok (), seen ++ [(location.payloadLen, payload)])) []).2 =
        [(2, [7])] := by
  rw [(prefix_scan_agrees plainPostcard plainPostcard_bounded threeFiles 1).1]
  decide

end RootDir

end Arle.KvTier.Transport
