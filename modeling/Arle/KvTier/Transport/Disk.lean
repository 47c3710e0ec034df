import Mathlib
import Arle.Lib.Directory
import Arle.Lib.LittleEndian
import Arle.Lib.Run
import Arle.Lib.Text
import Arle.KvTier.Types

/-!
# The disk tier

A block is a file that is named by its fingerprint: a header and the payload. It is written to a
temporary file first, which is then renamed. The serialisation of the header is a parameter.

A put is a sequence of steps on the directory of the store, and those of concurrent puts and
readers are interleaved in any order. A write of a file is a truncation and any number of
appends; each step may fail, and a put may crash between any two.
-/

namespace Arle.KvTier.Transport

/-- `PEGAKV01`. -/
def diskBlockMagic : Vector UInt8 8 := #v[0x50, 0x45, 0x47, 0x41, 0x4b, 0x56, 0x30, 0x31]

def diskBlockVersion : UInt16 := 1

structure DiskBlockHeader where
  magic : Vector UInt8 8
  version : UInt16
  fingerprint : BlockFingerprint
  kvFormatTag : UInt8
  payloadLen : UInt64

def DiskBlockHeader.new (fingerprint : BlockFingerprint) (kvFormatTag : UInt8)
    (payloadLen : UInt64) : DiskBlockHeader :=
  { magic := diskBlockMagic, version := diskBlockVersion, fingerprint, kvFormatTag, payloadLen }

/-- What the store uses of the `postcard` library: serialise a header, and take a header from the
front of some bytes. -/
structure Postcard where
  toAllocvec : DiskBlockHeader → Option (List UInt8)
  takeFromBytes : List UInt8 → Option (DiskBlockHeader × List UInt8)

/-- A header that was serialised is taken back, and the bytes behind it are left. -/
def Postcard.Documented (postcard : Postcard) : Prop :=
  ∀ header bytes, postcard.toAllocvec header = some bytes →
    ∀ rest, postcard.takeFromBytes (bytes ++ rest) = some (header, rest)

/-- A header is taken from at most `limit` bytes, whatever follows them. -/
def Postcard.Bounded (postcard : Postcard) (limit : Nat) : Prop :=
  ∀ bytes header rest, postcard.takeFromBytes bytes = some (header, rest) →
    ∃ front, bytes = front ++ rest ∧ front.length ≤ limit ∧
      ∀ more, postcard.takeFromBytes (front ++ more) = some (header, more)

/-! ## Names -/

def hexDigit (n : Nat) : Char := "0123456789abcdef".toList.getD n '0'

/-- The sixteen bytes of a fingerprint. -/
def fingerprintBytes (fingerprint : BlockFingerprint) : List UInt8 :=
  LittleEndian.toBytes 16 fingerprint.bytes.toNat

/-- The file name of `block_path_for`. -/
def blockFileName (fingerprint : BlockFingerprint) : Str :=
  (fingerprintBytes fingerprint).flatMap (fun byte =>
    [hexDigit (byte.toNat / 16), hexDigit (byte.toNat % 16)]) ++ ".kv".toList

def tempFileName (fingerprint : BlockFingerprint) : Str :=
  blockFileName fingerprint ++ ".tmp".toList

def hexValue (c : Char) : Option UInt8 :=
  if '0' ≤ c ∧ c ≤ '9' then some (UInt8.ofNat (c.toNat - '0'.toNat))
  else if 'a' ≤ c ∧ c ≤ 'f' then some (UInt8.ofNat (c.toNat - 'a'.toNat + 10))
  else none

def hexPairs : Str → Option (List UInt8)
  | hi :: lo :: rest => do
    let hi ← hexValue hi
    let lo ← hexValue lo
    let bytes ← hexPairs rest
    return (hi * 16 + lo) :: bytes
  | [_] => none
  | [] => some []

def blockFingerprintFromFilename (name : Str) : Option BlockFingerprint :=
  if ".kv".toList <:+ name then
    let stem := name.take (name.length - 3)
    if Str.len stem = 32 then
      (hexPairs stem).map fun bytes => ⟨BitVec.ofNat 128 (LittleEndian.ofBytes bytes)⟩
    else
      none
  else
    none

/-! ## Blocks as bytes -/

section Codec

variable (postcard : Postcard)

/-- The bytes of the file of a block. -/
def fileBytes (fingerprint : BlockFingerprint) (kvFormatTag : UInt8) (payload : List UInt8) :
    Except Str (List UInt8) :=
  if payload.length < 2 ^ 64 then
    match postcard.toAllocvec (.new fingerprint kvFormatTag (UInt64.ofNat payload.length)) with
    | none => .error "disk store: failed to encode header".toList
    | some headerBytes => .ok (headerBytes ++ payload)
  else
    .error "disk store: payload too large".toList

def decodePrefix (bytes : List UInt8) : Except Str (DiskBlockHeader × List UInt8) :=
  match postcard.takeFromBytes bytes with
  | none => .error "disk store: failed to decode header".toList
  | some decoded =>
    if decoded.1.magic ≠ diskBlockMagic then
      .error "disk store: invalid block magic".toList
    else if decoded.1.version ≠ diskBlockVersion then
      .error "disk store: unsupported block version".toList
    else
      .ok decoded

def decode (bytes : List UInt8) : Except Str (DiskBlockHeader × List UInt8) :=
  match decodePrefix postcard bytes with
  | .error error => .error error
  | .ok decoded =>
    if decoded.2.length ≠ decoded.1.payloadLen.toNat then
      .error "disk store: payload length mismatch".toList
    else
      .ok decoded

/-- The location that a put returns; `path` is the name in the directory of the store. -/
structure DiskBlockLocation where
  path : Str
  payloadLen : Nat
  fingerprint : BlockFingerprint

/-- `get_block`, where `readBlock` reads the file of a fingerprint. -/
def getBlock (readBlock : BlockFingerprint → Except Str (List UInt8))
    (location : DiskBlockLocation) (expectedFingerprint : Option BlockFingerprint) :
    Except Str (List UInt8) :=
  if expectedFingerprint.any (· ≠ location.fingerprint) then
    .error "disk store: fingerprint mismatch (location vs expected)".toList
  else if location.path ≠ blockFileName location.fingerprint then
    .error "disk store: refused location.path outside canonical root".toList
  else
    match readBlock location.fingerprint with
    | .error error => .error error
    | .ok bytes =>
      match decode postcard bytes with
      | .error error => .error error
      | .ok decoded =>
        if decoded.1.fingerprint ≠ location.fingerprint then
          .error "disk store: on-disk fingerprint does not match location".toList
        else
          .ok decoded.2

/-- The visit of one entry of the directory by `visit_blocks`: what the visitor is given, if the
entry is not skipped. -/
def visitEntry (readBlock : BlockFingerprint → Except Str (List UInt8)) (name : Str) :
    Option (DiskBlockLocation × List UInt8) :=
  match blockFingerprintFromFilename name with
  | none => none
  | some fingerprint =>
    match readBlock fingerprint with
    | .error _ => none
    | .ok bytes =>
      match decode postcard bytes with
      | .error _ => none
      | .ok decoded =>
        if decoded.1.fingerprint ≠ fingerprint then
          none
        else
          some ({ path := blockFileName fingerprint, payloadLen := decoded.1.payloadLen.toNat,
                  fingerprint }, decoded.2)

end Codec

/-! ## Concurrent puts and readers -/

/-- Whether an error says that the file or the directory is not there. -/
inductive ErrorKind
  | notFound
  | other
deriving DecidableEq

/-- Where `put_block_with_fsync(.., false)` is. `retried` says that the root has been made again
and this is the second `do_write`. -/
inductive Phase
  | ensuring
  | opening (retried : Bool)
  | writing (retried : Bool) (file : Nat) (rest : List UInt8)
  | cleaning (retried : Bool) (kind : ErrorKind)
  | healing
  | done (result : Except ErrorKind Unit)
  | crashed

def Phase.isWriting : Phase → Bool
  | .writing _ _ _ => true
  | _ => false

structure Put where
  fingerprint : BlockFingerprint
  kvFormatTag : UInt8
  payload : List UInt8
  phase : Phase

/-- What `read_block` has read of a file. -/
structure Read where
  fingerprint : BlockFingerprint
  file : Nat
  buffer : List UInt8
  finished : Bool

/-- The directory of the store, its flag `root_created`, and the puts and reads by number. -/
structure Disk where
  dir : Directory Str
  rootCreated : Bool
  put : Nat → Option Put
  read : Nat → Option Read

namespace Disk

def start : Disk :=
  { dir := .empty, rootCreated := false, put := fun _ => none, read := fun _ => none }

variable (self : Disk)

/-- The put `i` goes to another phase. -/
def setPhase (i : Nat) (p : Put) (phase : Phase) : Disk :=
  { self with put := Function.update self.put i (some { p with phase }) }

def setDir (dir : Directory Str) : Disk := { self with dir }

def setRead (j : Nat) (r : Read) : Disk :=
  { self with read := Function.update self.read j (some r) }

/-- `create_root`. -/
def createRoot : Disk := { self with dir := self.dir.make, rootCreated := true }

inductive Op
  | begin (i : Nat) (fingerprint : BlockFingerprint) (kvFormatTag : UInt8) (payload : List UInt8)
  | ensure (i : Nat)
  | fail (i : Nat)
  | open (i : Nat)
  | append (i n : Nat)
  | rename (i : Nat)
  | cleanUp (i : Nat)
  | heal (i : Nat)
  | crash (i : Nat)
  | purge
  | openRead (j : Nat) (fingerprint : BlockFingerprint)
  | readSome (j n : Nat)
  | readEnd (j : Nat)

/-- The phase after the root is there. -/
def afterRoot (postcard : Postcard) (p : Put) : Phase :=
  match fileBytes postcard p.fingerprint p.kvFormatTag p.payload with
  | .error _ => .done (.error .other)
  | .ok _ => .opening false

/-- The phase after the temporary file of a failed write is removed, or is not. -/
def afterCleanUp (retried : Bool) (kind : ErrorKind) : Phase :=
  if kind = .notFound ∧ !retried then .healing else .done (.error kind)

/-- A step of the store. The directory is purged from outside. -/
inductive Step (postcard : Postcard) : Disk → Op → Disk → Prop
  | begin (s : Disk) (i : Nat) (p : Put) (hnew : s.put i = none) (hphase : p.phase = .ensuring) :
      Step postcard s (.begin i p.fingerprint p.kvFormatTag p.payload) (s.setPhase i p .ensuring)
  | ensured (s : Disk) (i : Nat) (p : Put) (hp : s.put i = some p) (hphase : p.phase = .ensuring)
      (hroot : s.rootCreated = true) :
      Step postcard s (.ensure i) (s.setPhase i p (afterRoot postcard p))
  | ensure (s : Disk) (i : Nat) (p : Put) (hp : s.put i = some p) (hphase : p.phase = .ensuring)
      (hroot : s.rootCreated = false) :
      Step postcard s (.ensure i) (s.createRoot.setPhase i p (afterRoot postcard p))
  | ensureFails (s : Disk) (i : Nat) (p : Put) (kind : ErrorKind) (hp : s.put i = some p)
      (hphase : p.phase = .ensuring) :
      Step postcard s (.fail i) (s.setPhase i p (.done (.error kind)))
  | open (s : Disk) (i : Nat) (p : Put) (retried : Bool) (file : Nat) (dir : Directory Str)
      (bytes : List UInt8) (hp : s.put i = some p) (hphase : p.phase = .opening retried)
      (hbytes : fileBytes postcard p.fingerprint p.kvFormatTag p.payload = .ok bytes)
      (hopen : s.dir.openTruncate (tempFileName p.fingerprint) = some (file, dir)) :
      Step postcard s (.open i) ((s.setDir dir).setPhase i p (.writing retried file bytes))
  | openFails (s : Disk) (i : Nat) (p : Put) (retried : Bool) (kind : ErrorKind)
      (hp : s.put i = some p) (hphase : p.phase = .opening retried) :
      Step postcard s (.fail i) (s.setPhase i p (.cleaning retried kind))
  | append (s : Disk) (i : Nat) (p : Put) (retried : Bool) (file : Nat) (rest : List UInt8)
      (n : Nat) (hp : s.put i = some p) (hphase : p.phase = .writing retried file rest) :
      Step postcard s (.append i n)
        ((s.setDir (s.dir.append file (rest.take n))).setPhase i p
          (.writing retried file (rest.drop n)))
  | writeFails (s : Disk) (i : Nat) (p : Put) (retried : Bool) (file : Nat) (rest : List UInt8)
      (kind : ErrorKind) (hp : s.put i = some p) (hphase : p.phase = .writing retried file rest) :
      Step postcard s (.fail i) (s.setPhase i p (.cleaning retried kind))
  | rename (s : Disk) (i : Nat) (p : Put) (retried : Bool) (file : Nat) (dir : Directory Str)
      (hp : s.put i = some p) (hphase : p.phase = .writing retried file [])
      (hrename : s.dir.rename (tempFileName p.fingerprint) (blockFileName p.fingerprint) =
        some dir) :
      Step postcard s (.rename i) ((s.setDir dir).setPhase i p (.done (.ok ())))
  | cleanUp (s : Disk) (i : Nat) (p : Put) (retried : Bool) (kind : ErrorKind)
      (hp : s.put i = some p) (hphase : p.phase = .cleaning retried kind) :
      Step postcard s (.cleanUp i)
        ((s.setDir (s.dir.remove (tempFileName p.fingerprint))).setPhase i p
          (afterCleanUp retried kind))
  | cleanUpFails (s : Disk) (i : Nat) (p : Put) (retried : Bool) (kind : ErrorKind)
      (hp : s.put i = some p) (hphase : p.phase = .cleaning retried kind) :
      Step postcard s (.fail i) (s.setPhase i p (afterCleanUp retried kind))
  | heal (s : Disk) (i : Nat) (p : Put) (hp : s.put i = some p) (hphase : p.phase = .healing) :
      Step postcard s (.heal i) (s.createRoot.setPhase i p (.opening true))
  | healFails (s : Disk) (i : Nat) (p : Put) (kind : ErrorKind) (hp : s.put i = some p)
      (hphase : p.phase = .healing) :
      Step postcard s (.fail i) (s.setPhase i p (.done (.error kind)))
  | crash (s : Disk) (i : Nat) (p : Put) (hp : s.put i = some p) :
      Step postcard s (.crash i) (s.setPhase i p .crashed)
  | purge (s : Disk) : Step postcard s .purge (s.setDir s.dir.purge)
  | openRead (s : Disk) (j : Nat) (fingerprint : BlockFingerprint) (file : Nat)
      (hnew : s.read j = none) (hfile : s.dir.entry (blockFileName fingerprint) = some file) :
      Step postcard s (.openRead j fingerprint)
        (s.setRead j { fingerprint, file, buffer := [], finished := false })
  | readSome (s : Disk) (j : Nat) (r : Read) (n : Nat) (hr : s.read j = some r)
      (hopen : r.finished = false) :
      Step postcard s (.readSome j n) (s.setRead j { r with
        buffer := r.buffer ++ ((s.dir.content r.file).drop r.buffer.length).take n })
  | readEnd (s : Disk) (j : Nat) (r : Read) (hr : s.read j = some r)
      (hend : (s.dir.content r.file).length ≤ r.buffer.length) :
      Step postcard s (.readEnd j) (s.setRead j { r with finished := true })

/-- A put opens its temporary file only while no other put of the block is writing. -/
def OneWriter (s : Disk) (op : Op) : Prop :=
  ∀ i p, op = .open i → s.put i = some p →
    ∀ j q, j ≠ i → s.put j = some q → q.fingerprint = p.fingerprint → q.phase.isWriting = false

end Disk

end Arle.KvTier.Transport
