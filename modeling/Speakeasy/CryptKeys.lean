import Speakeasy.DeviceListRuns

namespace Speakeasy

open PageEngine MemoryManager

/-- A cipher of the library: its key, and how many bytes of the key stream it has used. -/
structure Arc4 where
  key : List UInt8
  pos : Nat
deriving DecidableEq, Repr

/-- Data with the bytes of a key stream from a position on. -/
def xorStream (stream : List UInt8 → Nat → UInt8) (key : List UInt8) : Nat → List UInt8 → List UInt8
  | _, [] => []
  | pos, b :: data => (b ^^^ stream key pos) :: xorStream stream key (pos + 1) data

namespace Arc4

/-- The library takes keys of 1 to 256 bytes. -/
def new (key : List UInt8) : Option Arc4 :=
  if 0 < key.length ∧ key.length ≤ 256 then some ⟨key, 0⟩ else none

def decrypt (stream : List UInt8 → Nat → UInt8) (c : Arc4) (data : List UInt8) : List UInt8 × Arc4 :=
  (xorStream stream c.key c.pos data, { c with pos := c.pos + data.length })

end Arc4

def calgRc4 : Nat := 0x6801

def cryptNoSalt : Nat := 0x10

/-- The digest of a hash object: those of the supported algorithms have 16 to 64 bytes. -/
structure HashDigest where
  bytes : List UInt8
  size : 16 ≤ bytes.length ∧ bytes.length ≤ 64

/-- `HCRYPTKEY`. -/
structure CryptKeyRecord where
  algid : Nat
  keylen : Nat
  keyp : Nat
deriving DecidableEq, Repr

namespace CryptKeyRecord

variable (arch : Arch)

def size : Nat := 8 + arch.ptrSize

def cast (data : List UInt8) : CryptKeyRecord where
  algid := fromBytes (data.take 4)
  keylen := fromBytes ((data.drop 4).take 4)
  keyp := fromBytes (data.drop 8)

def bytes (r : CryptKeyRecord) : List UInt8 :=
  toBytes 4 r.algid ++ toBytes 4 r.keylen ++ toBytes arch.ptrSize r.keyp

end CryptKeyRecord

inductive CryptFault
  | mem (e : MemError)
  | keyLength
deriving DecidableEq, Repr

structure DeriveArgs where
  algid : Nat
  /-- The digest of `hBaseData`, when it is the handle of a hash. -/
  baseData : Option HashDigest
  dwFlags : Nat
  phKey : Nat

structure DecryptArgs where
  hKey : Nat
  hHash : Nat
  final : Nat
  pbData : Nat
  pdwDataLen : Nat

/-- What a decryption returns and writes. -/
structure DecryptReply where
  rv : Nat
  written : Option (List UInt8) := none
deriving DecidableEq, Repr

/-- The bytes of the digest that are the key. A 40-bit key gets a salt of zero bytes. -/
def fixedDigest (digest : List UInt8) (dwFlags : Nat) : List UInt8 :=
  let keyBits := dwFlags / 2 ^ 16
  if 40 < keyBits ∧ keyBits ≤ digest.length * 8 then digest.take (keyBits / 8)
  else if dwFlags &&& cryptNoSalt ≠ 0 then digest.take 5
  else digest.take 5 ++ List.replicate 11 0

variable {ε : Type} [PageEngine ε]

/-- The guest and the one cipher of the handler. -/
structure CryptSession (ε : Type) where
  guest : GuestMemory ε
  rc4 : Option Arc4

namespace CryptSession

variable (arch : Arch) (env : MemEnv)

def storeAll (g : GuestMemory ε) : List (Nat × List UInt8) → Except CryptFault Unit × GuestMemory ε
  | [] => (.ok (), g)
  | (a, data) :: writes =>
    match g.memWrite a data with
    | .error e => (.error (.mem e), g)
    | .ok g => storeAll g writes

/-- `CryptDeriveKey`. It gives the handle of the key when it returns 1. -/
def cryptDeriveKey (t : CryptSession ε) (a : DeriveArgs) :
    Except CryptFault (Option Nat) × CryptSession ε :=
  if a.algid ≠ calgRc4 then (.ok none, t)
  else
    match a.baseData with
    | none => (.ok none, t)
    | some digest =>
      let fixed := fixedDigest digest.bytes a.dwFlags
      match memMap env t.guest.mgr { size := fixed.length } with
      | (.error e, mgr) => (.error (.mem e), { t with guest := ⟨mgr, t.guest.bytes⟩ })
      | (.ok keyp, mgr) =>
        match memMap env mgr { size := CryptKeyRecord.size arch } with
        | (.error e, mgr) => (.error (.mem e), { t with guest := ⟨mgr, t.guest.bytes⟩ })
        | (.ok hKeyp, mgr) =>
          let hKey : CryptKeyRecord := ⟨a.algid, fixed.length, keyp⟩
          let (r, guest) := storeAll ⟨mgr, t.guest.bytes⟩
            [(keyp, fixed), (hKeyp, hKey.bytes arch), (a.phKey, toBytes arch.ptrSize hKeyp)]
          (r.map fun _ => some hKeyp, { t with guest })

/-- The cipher of the handler, or a new one of the key of the call. -/
def cipher (t : CryptSession ε) (key : List UInt8) : Option Arc4 :=
  match t.rc4 with
  | none => Arc4.new key
  | some c => some c

def readMem (t : CryptSession ε) (a n : Nat) : Except CryptFault (List UInt8) :=
  (t.guest.memRead a n).mapError .mem

def cryptDecrypt (stream : List UInt8 → Nat → UInt8) (t : CryptSession ε) (a : DecryptArgs) :
    Except CryptFault (DecryptReply × CryptSession ε) :=
  if a.hHash ≠ 0 then .ok (⟨0, none⟩, t)
  else do
    let hKey ← t.readMem a.hKey (CryptKeyRecord.size arch)
    let hKey := CryptKeyRecord.cast hKey
    if hKey.algid ≠ calgRc4 then .ok (⟨0, none⟩, t)
    else
      let encdatalen ← t.readMem a.pdwDataLen 4
      let encdata ← t.readMem a.pbData (fromBytes encdatalen)
      let key ← t.readMem hKey.keyp hKey.keylen
      match t.cipher key with
      | none => .error .keyLength
      | some rc4 =>
        let (dec, rc4) := rc4.decrypt stream encdata
        match storeAll t.guest [(a.pbData, dec), (a.pdwDataLen, toBytes 4 dec.length)] with
        | (.error e, _) => .error e
        | (.ok _, guest) => .ok (⟨1, some dec⟩, ⟨guest, if a.final ≠ 0 then none else some rc4⟩)

end CryptSession

/-- A key that `CryptDeriveKey` made, and the position of its stream. -/
structure StreamKey where
  handle : Nat
  keyp : Nat
  material : List UInt8
  pos : Nat
deriving DecidableEq, Repr

inductive CryptOp
  | deriveKey (a : DeriveArgs)
  | decrypt (a : DecryptArgs)
  /-- The guest writes to its memory between the calls. -/
  | guestWrite (address : Nat) (data : List UInt8)

/-- A session with the streams that the calls so far owe to each key, and the key whose call made the
cipher that is in use. -/
structure CryptHistory (ε : Type) where
  session : CryptSession ε
  keys : List StreamKey
  user : Option Nat

namespace CryptHistory

variable (arch : Arch) (env : MemEnv) (stream : List UInt8 → Nat → UInt8)

/-- The bytes that a call takes. -/
def input (t : CryptHistory ε) (a : DecryptArgs) : List UInt8 :=
  t.session.guest.bytes.readBytes a.pbData (t.session.guest.bytes.readInt a.pdwDataLen 4)

/-- A stream goes on behind the input, and it begins again after a final call. -/
def advance (t : CryptHistory ε) (a : DecryptArgs) (k : StreamKey) : StreamKey :=
  if k.handle = a.hKey then { k with pos := if a.final ≠ 0 then 0 else k.pos + (t.input a).length } else k

def nextUser (t : CryptHistory ε) (a : DecryptArgs) : Option Nat :=
  if a.final ≠ 0 then none else t.user <|> some a.hKey

def step (t : CryptHistory ε) : CryptOp → CryptHistory ε
  | .deriveKey a =>
    match t.session.cryptDeriveKey arch env a with
    | (.ok (some handle), session) =>
      let digest := (a.baseData.map HashDigest.bytes).getD []
      let record := CryptKeyRecord.cast (session.guest.bytes.readBytes handle (CryptKeyRecord.size arch))
      { t with session, keys := t.keys ++ [⟨handle, record.keyp, fixedDigest digest a.dwFlags, 0⟩] }
    | (_, session) => { t with session }
  | .decrypt a =>
    match t.session.cryptDecrypt arch stream a with
    | .error _ => t
    | .ok (reply, session) =>
      if reply.rv = 1 then ⟨session, t.keys.map (t.advance a), t.nextUser a⟩ else { t with session }
  | .guestWrite address data =>
    match t.session.guest.memWrite address data with
    | .error _ => t
    | .ok guest => { t with session := { t.session with guest } }

/-- Two ranges do not overlap. -/
def Apart (a n b k : Nat) : Prop := a + n ≤ b ∨ b + k ≤ a

/-- A call on a key writes its input with the next bytes of the stream of the key over the input. -/
def Law (t : CryptHistory ε) : CryptOp → Prop
  | .deriveKey _ => True
  | .decrypt a => ∀ k ∈ t.keys, k.handle = a.hKey → a.hHash = 0 →
    t.session.guest.RangeMapped a.pdwDataLen 4 →
    t.session.guest.RangeMapped a.pbData (t.session.guest.bytes.readInt a.pdwDataLen 4) →
      ∃ session, t.session.cryptDecrypt arch stream a =
          .ok (⟨1, some (xorStream stream k.material k.pos (t.input a))⟩, session) ∧
        (Apart a.pbData (t.input a).length a.pdwDataLen 4 →
          session.guest.bytes.Holds a.pbData (xorStream stream k.material k.pos (t.input a)))
  | .guestWrite _ _ => True

/-- A write leaves the record and the bytes of every key. -/
def LeavesKeys (t : CryptHistory ε) (a n : Nat) : Prop :=
  ∀ k ∈ t.keys, Apart a n k.handle (CryptKeyRecord.size arch) ∧ Apart a n k.keyp k.material.length

/-- No other key is in the middle of its stream, and the call writes over no key. -/
structure DecryptGood (t : CryptHistory ε) (a : DecryptArgs) : Prop where
  alone : t.user = none ∨ t.user = some a.hKey ∨
    (t.session.guest.bytes.readInt a.pdwDataLen 4 = 0 ∧ a.final = 0)
  data : t.LeavesKeys arch a.pbData (t.session.guest.bytes.readInt a.pdwDataLen 4)
  length : t.LeavesKeys arch a.pdwDataLen 4

/-- The handle of a new key goes into an allocation, beside the other keys. -/
structure DeriveGood (t : CryptHistory ε) (a : DeriveArgs) : Prop where
  inside : ∃ mm ∈ t.session.guest.mgr.maps, mm.base ≤ a.phKey ∧ a.phKey + arch.ptrSize ≤ mm.base + mm.size
  handle : t.LeavesKeys arch a.phKey arch.ptrSize

def Good (t : CryptHistory ε) : CryptOp → Prop
  | .deriveKey a => t.DeriveGood arch a
  | .decrypt a => (∃ k ∈ t.keys, k.handle = a.hKey) ∧ t.DecryptGood arch a
  | .guestWrite address data => t.LeavesKeys arch address data.length

end CryptHistory

end Speakeasy
