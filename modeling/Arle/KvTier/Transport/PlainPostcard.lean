import Mathlib
import Arle.Lib.ByteReader
import Arle.KvTier.Transport.Disk

/-!
# A serialisation of the header

Arrays of bytes are written as they are and integers of more than one byte as variable-length
numbers: seven bits a byte, the lowest first, with the high bit set in all bytes but the last.
-/

namespace Arle.KvTier.Transport

/-- The number with at most `k + 1` bytes. -/
def varint : Nat → Nat → List UInt8
  | 0, n => [UInt8.ofNat n]
  | k + 1, n =>
    if n < 128 then [UInt8.ofNat n] else UInt8.ofNat (n % 128 + 128) :: varint k (n / 128)

def takeVarint : Nat → ByteReader Unit Nat
  | 0, bytes =>
    match bytes with
    | byte :: rest => .ok (byte.toNat, rest)
    | [] => .error ()
  | k + 1, bytes =>
    match bytes with
    | byte :: rest =>
      if byte.toNat < 128 then .ok (byte.toNat, rest)
      else (takeVarint k rest).map fun taken => (byte.toNat - 128 + 128 * taken.1, taken.2)
    | [] => .error ()

theorem reads_varint {k n : Nat} (h : n < 128 ^ (k + 1)) :
    ByteReader.Reads (takeVarint k) (varint k n) n := by
  induction k generalizing n with
  | zero =>
    intro rest
    have hn : n < 256 := by omega
    unfold varint takeVarint
    simp only [List.singleton_append]
    rw [UInt8.toNat_ofNat_of_lt' hn]
  | succ k ih =>
    intro rest
    unfold varint takeVarint
    by_cases hlt : n < 128
    · have hn : n < 256 := by omega
      rw [if_pos hlt]
      simp only [List.singleton_append]
      rw [UInt8.toNat_ofNat_of_lt' hn, if_pos hlt]
    · have hbyte : n % 128 + 128 < 256 := by omega
      have hdiv : n / 128 < 128 ^ (k + 1) := by
        rw [Nat.div_lt_iff_lt_mul (by omega)]
        rwa [Nat.pow_succ] at h
      rw [if_neg hlt]
      simp only [List.cons_append]
      rw [UInt8.toNat_ofNat_of_lt' hbyte, if_neg (by omega), ih hdiv rest]
      have hn : n % 128 + 128 - 128 + 128 * (n / 128) = n := by omega
      simp only [Except.map, hn]

theorem local_takeVarint (k : Nat) : ByteReader.Local (takeVarint k) (k + 1) := by
  induction k with
  | zero =>
    intro bytes n rest h
    cases bytes with
    | nil => cases h
    | cons byte bytes =>
      cases h
      exact ⟨[byte], rfl, Nat.le_refl 1, fun more => rfl⟩
  | succ k ih =>
    intro bytes n rest h
    cases bytes with
    | nil => cases h
    | cons byte bytes =>
      unfold takeVarint at h
      dsimp only at h
      by_cases hlt : byte.toNat < 128
      · rw [if_pos hlt] at h
        cases h
        refine ⟨[byte], rfl, by simp, fun more => ?_⟩
        unfold takeVarint
        simp only [List.singleton_append, if_pos hlt]
      · rw [if_neg hlt] at h
        cases htake : takeVarint k bytes with
        | error err =>
          rw [htake] at h
          cases h
        | ok taken =>
          rw [htake] at h
          cases h
          obtain ⟨front, rfl, hlen, hreads⟩ := ih bytes taken.1 taken.2 htake
          refine ⟨byte :: front, rfl, Nat.succ_le_succ hlen, fun more => ?_⟩
          unfold takeVarint
          simp only [List.cons_append, if_neg hlt, hreads more]
          rfl

/-- The bytes of a header. -/
def headerBytes (header : DiskBlockHeader) : List UInt8 :=
  header.magic.toList ++ (varint 2 header.version.toNat ++ (fingerprintBytes header.fingerprint ++
    ([header.kvFormatTag] ++ (varint 9 header.payloadLen.toNat ++ []))))

def takeHeader : ByteReader Unit DiskBlockHeader := do
  let magic ← ByteReader.readExact () 8
  let version ← takeVarint 2
  let fingerprint ← ByteReader.readExact () 16
  let kvFormatTag ← ByteReader.readExact () 1
  let payloadLen ← takeVarint 9
  return {
    magic := Vector.ofFn fun i => magic.getD i 0
    version := UInt16.ofNat version
    fingerprint := ⟨BitVec.ofNat 128 (LittleEndian.ofBytes fingerprint)⟩
    kvFormatTag := kvFormatTag.headD 0
    payloadLen := UInt64.ofNat payloadLen }

theorem reads_header (header : DiskBlockHeader) :
    ByteReader.Reads takeHeader (headerBytes header) header := by
  have hmagic : ByteReader.Reads (ByteReader.readExact () 8) header.magic.toList
      header.magic.toList := by
    have h := ByteReader.Reads.exact () header.magic.toList
    rwa [Vector.length_toList] at h
  have hversion : ByteReader.Reads (takeVarint 2) (varint 2 header.version.toNat)
      header.version.toNat :=
    reads_varint (Nat.lt_trans header.version.toNat_lt (by omega))
  have hfingerprint : ByteReader.Reads (ByteReader.readExact () 16)
      (fingerprintBytes header.fingerprint) (fingerprintBytes header.fingerprint) := by
    have h := ByteReader.Reads.exact () (fingerprintBytes header.fingerprint)
    unfold fingerprintBytes at h ⊢
    rwa [LittleEndian.length_toBytes] at h
  have hlen : ByteReader.Reads (takeVarint 9) (varint 9 header.payloadLen.toNat)
      header.payloadLen.toNat :=
    reads_varint (Nat.lt_trans header.payloadLen.toNat_lt (by omega))
  unfold takeHeader headerBytes
  refine hmagic.bind (hversion.bind (hfingerprint.bind
    ((ByteReader.Reads.exact () [header.kvFormatTag]).bind (hlen.bind ?_))))
  intro rest
  have hbits : LittleEndian.ofBytes (fingerprintBytes header.fingerprint) =
      header.fingerprint.bytes.toNat :=
    LittleEndian.ofBytes_toBytes header.fingerprint.bytes.isLt
  have hvector : (Vector.ofFn fun i : Fin 8 => header.magic.toList.getD i 0) = header.magic := by
    ext i hi
    simp
  rw [hbits, hvector]
  simp [pure, StateT.pure, Except.pure]

theorem local_takeHeader : ByteReader.Local takeHeader 38 := by
  unfold takeHeader
  refine (ByteReader.Local.exact () 8).bind (n := 30) fun magic => ?_
  refine (local_takeVarint 2).bind (n := 27) fun version => ?_
  refine (ByteReader.Local.exact () 16).bind (n := 11) fun fingerprint => ?_
  refine (ByteReader.Local.exact () 1).bind (n := 10) fun kvFormatTag => ?_
  exact (local_takeVarint 9).bind fun payloadLen => ByteReader.Local.pure _

def plainPostcard : Postcard where
  toAllocvec header := some (headerBytes header)
  takeFromBytes bytes := (takeHeader bytes).toOption

theorem plainPostcard_documented : plainPostcard.Documented := by
  intro header bytes hbytes rest
  have heq : headerBytes header = bytes := Option.some.inj hbytes
  subst heq
  change (takeHeader _).toOption = _
  rw [reads_header header rest]
  rfl

theorem plainPostcard_bounded : plainPostcard.Bounded 512 := by
  intro bytes header rest h
  have htake : takeHeader bytes = .ok (header, rest) := by
    change (takeHeader bytes).toOption = _ at h
    cases hrun : takeHeader bytes with
    | error err =>
      rw [hrun] at h
      cases h
    | ok taken =>
      rw [hrun] at h
      exact congrArg Except.ok (Option.some.inj h)
  obtain ⟨front, hbytes, hlen, hreads⟩ := local_takeHeader bytes header rest htake
  refine ⟨front, hbytes, Nat.le_trans hlen (by omega), fun more => ?_⟩
  change (takeHeader _).toOption = _
  rw [hreads more]
  rfl

end Arle.KvTier.Transport
