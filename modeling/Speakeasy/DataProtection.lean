import Speakeasy.CountedStrings
import Speakeasy.WideStringRuns

namespace Speakeasy

open ByteMemory

def dpapiVersion : Nat := 1

def dpapiProvider : List UInt8 :=
  [0xD0, 0x8C, 0x9D, 0xDF, 0x01, 0x15, 0xD1, 0x11, 0x8C, 0x7A, 0x00, 0xC0, 0x4F, 0xC2, 0x97, 0xEB]

def dpapiMasterKey : List UInt8 :=
  [0x5C, 0x7B, 0x0E, 0x3A, 0x9D, 0x6F, 0x4E, 0x21, 0xB3, 0xA8, 0xC4, 0xD2, 0xE1, 0xF0, 0x9A, 0x77]

/-- The primitives of the crypto library: `encrypt` pads its data and runs AES in CBC mode from the zero vector, and
`decrypt` gives nothing where the cipher text or its padding is malformed. -/
structure DpapiCiphers where
  sha256 : List UInt8 → List UInt8
  hmacSha256 : List UInt8 → List UInt8 → List UInt8
  encrypt : List UInt8 → List UInt8 → List UInt8
  decrypt : List UInt8 → List UInt8 → Option (List UInt8)

namespace DpapiCiphers

variable (P : DpapiCiphers)

structure Lawful : Prop where
  decrypt_encrypt : ∀ key data, P.decrypt key (P.encrypt key data) = some data
  length_encrypt : ∀ key data, (P.encrypt key data).length = (data.length / 16 + 1) * 16
  length_hmac : ∀ key data, (P.hmacSha256 key data).length = 32

def dpapiKey : List UInt8 := P.sha256 ("speakeasy dpapi master key".toList.map fun c => UInt8.ofNat c.toNat)

/-- The keys for the cipher and for the signature. -/
def getDpapiKeys (entropy : List UInt8) : List UInt8 × List UInt8 :=
  let key := P.sha256 (P.dpapiKey ++ entropy)
  (key.take 16, key.drop 16)

def dpapiHeader (dwFlags descrLen : Nat) : List UInt8 :=
  toBytes 4 dpapiVersion ++ dpapiProvider ++ toBytes 4 1 ++ dpapiMasterKey ++ toBytes 4 (dwFlags % 2 ^ 32) ++
    toBytes 4 descrLen

/-- The blob of `CryptProtectData`. A length that its field cannot hold raises. -/
def protectBlob (data entropy : List UInt8) (descr : List Nat) (dwFlags : Nat) : Option (List UInt8) :=
  let descrBytes := charBytes 2 (encodeUnits (descr ++ [0]))
  let (encKey, macKey) := P.getDpapiKeys entropy
  let cipher := P.encrypt encKey data
  if 2 ^ 32 ≤ descrBytes.length ∨ 2 ^ 32 ≤ cipher.length then none
  else
    let blob := dpapiHeader dwFlags descrBytes.length ++ (descrBytes ++ (toBytes 4 cipher.length ++ cipher))
    let sign := P.hmacSha256 macKey blob
    some (blob ++ (toBytes 4 sign.length ++ sign))

/-- `struct.unpack_from("<I", blob, off)`. -/
def unpackDword (blob : List UInt8) (off : Nat) : Option Nat :=
  if blob.length < off + 4 then none else some (fromBytes ((blob.drop off).take 4))

/-- What `CryptUnprotectData` takes from a blob, the data and the description, or nothing where it catches an error. -/
def unprotectBlob (blob entropy : List UInt8) : Option (List UInt8 × List UInt8) :=
  let (encKey, macKey) := P.getDpapiKeys entropy
  if blob.length < 48 then none
  else
    let version := fromBytes (blob.take 4)
    let provider := (blob.drop 4).take 16
    let descrLen := fromBytes ((blob.drop 44).take 4)
    if version ≠ dpapiVersion ∨ provider ≠ dpapiProvider then none
    else
      let off := 48 + descrLen
      (unpackDword blob off).bind fun cipherLen =>
        let off := off + (4 + cipherLen)
        (unpackDword blob off).bind fun signLen =>
          let sign := P.hmacSha256 macKey (blob.take off)
          if blob.drop (off + 4) ≠ sign ∨ signLen ≠ sign.length then none
          else
            let cipher := (blob.take off).drop (off - cipherLen)
            (P.decrypt encKey cipher).map fun data => (data, (blob.drop 48).take descrLen)

end DpapiCiphers

/-- The answer of a call: what it returns, the last error where it sets one, and what it writes. -/
structure CryptReply where
  result : Nat
  lastError : Option Nat
  writes : List (Nat × List UInt8)

def cryptErrorSuccess : Nat := 0

def cryptErrorInvalidData : Nat := 13

def cryptErrorInvalidParameter : Nat := 87

namespace ByteMemory

def readDataBlob (m : ByteMemory) (ptrSize addr : Nat) : List UInt8 :=
  let size := m.readInt addr 4
  let data := m.readInt (addr + ptrSize) ptrSize
  if size = 0 then [] else m.readBytes data size

/-- The entropy that the keys depend on. -/
def readEntropy (m : ByteMemory) (ptrSize pOptionalEntropy : Nat) : List UInt8 :=
  if pOptionalEntropy = 0 then [] else m.readDataBlob ptrSize pOptionalEntropy

/-- The writes of `write_data_blob`, to a block of the heap. -/
def writeDataBlob (ptrSize addr buf : Nat) (data : List UInt8) : List (Nat × List UInt8) :=
  [(buf, data), (addr, toBytes 4 data.length), (addr + ptrSize, toBytes ptrSize buf)]

variable (P : DpapiCiphers) (heapAlloc : Nat → Nat → Nat) (m : ByteMemory) (fuel ptrSize : Nat)

/-- `CryptProtectData`. The heap gives an address for the number of a block and its size. -/
def cryptProtectData (pDataIn szDataDescr pOptionalEntropy dwFlags pDataOut : Nat) : Option CryptReply :=
  if pDataIn = 0 ∨ pDataOut = 0 then some ⟨0, some cryptErrorInvalidParameter, []⟩
  else
    let data := m.readDataBlob ptrSize pDataIn
    (if szDataDescr = 0 then some [] else m.readWideString fuel szDataDescr 0).bind fun descr =>
      (P.protectBlob data (m.readEntropy ptrSize pOptionalEntropy) descr dwFlags).map fun blob =>
        ⟨1, some cryptErrorSuccess, writeDataBlob ptrSize pDataOut (heapAlloc 0 (max blob.length 1)) blob⟩

def cryptUnprotectData (pDataIn ppszDataDescr pOptionalEntropy pDataOut : Nat) : CryptReply :=
  if pDataIn = 0 ∨ pDataOut = 0 then ⟨0, some cryptErrorInvalidParameter, []⟩
  else
    let blob := m.readDataBlob ptrSize pDataIn
    match P.unprotectBlob blob (m.readEntropy ptrSize pOptionalEntropy) with
    | none => ⟨0, some cryptErrorInvalidData, []⟩
    | some (data, descr) =>
      let buf := heapAlloc 1 (max descr.length 2)
      ⟨1, some cryptErrorSuccess, writeDataBlob ptrSize pDataOut (heapAlloc 0 (max data.length 1)) data ++
        if ppszDataDescr = 0 then [] else [(buf, descr), (ppszDataDescr, toBytes ptrSize buf)]⟩

end ByteMemory

namespace DpapiCiphers

variable {P : DpapiCiphers} {data entropy blob descr : List UInt8}

/-- The fields of a blob, one after the other. -/
structure Fields where
  head : List UInt8
  descr : List UInt8
  cipher : List UInt8
  sign : List UInt8

namespace Fields

def signed (f : Fields) : List UInt8 := f.head ++ (f.descr ++ (toBytes 4 f.cipher.length ++ f.cipher))

def bytes (f : Fields) : List UInt8 := f.signed ++ (toBytes 4 f.sign.length ++ f.sign)

/-- The header has the version, the provider and the length of the description, and the lengths fit their fields. -/
structure Valid (f : Fields) : Prop where
  length_head : f.head.length = 48
  version : fromBytes (f.head.take 4) = dpapiVersion
  provider : (f.head.drop 4).take 16 = dpapiProvider
  descrLen : fromBytes ((f.head.drop 44).take 4) = f.descr.length
  length_cipher : f.cipher.length < 2 ^ 32
  length_sign : f.sign.length < 2 ^ 32

theorem length_signed (f : Fields) :
    f.signed.length = f.head.length + (f.descr.length + (4 + f.cipher.length)) := by
  rw [signed, List.length_append, List.length_append, List.length_append, toBytes_length]

theorem length_bytes (f : Fields) : f.bytes.length = f.signed.length + (4 + f.sign.length) := by
  rw [bytes, List.length_append, List.length_append, toBytes_length]

end Fields

theorem unpackDword_iff {off v : Nat} :
    unpackDword blob off = some v ↔ v < 2 ^ 32 ∧ ∃ rest, blob.drop off = toBytes 4 v ++ rest := by
  unfold unpackDword
  constructor
  · intro h
    split at h
    next => cases h
    next hroom =>
      have hlen : ((blob.drop off).take 4).length = 4 := by
        rw [List.length_take, List.length_drop]
        omega
      have hlt := fromBytes_lt ((blob.drop off).take 4)
      have hbytes := toBytes_fromBytes ((blob.drop off).take 4)
      rw [hlen] at hlt hbytes
      rw [Option.some.injEq] at h
      rw [h] at hlt hbytes
      exact ⟨hlt, (blob.drop off).drop 4, by rw [hbytes, List.take_append_drop]⟩
  · rintro ⟨hlt, rest, hrest⟩
    have hlen := congrArg List.length hrest
    rw [List.length_drop, List.length_append, toBytes_length] at hlen
    rw [if_neg (by omega), hrest, List.take_left' (toBytes_length 4 v), fromBytes_toBytes_of_lt hlt]

/-- What is accepted is the fields of a valid blob, with its signature; and every such blob is accepted. -/
theorem unprotectBlob_iff :
    P.unprotectBlob blob entropy = some (data, descr) ↔
      ∃ f : Fields, f.Valid ∧ f.bytes = blob ∧ P.hmacSha256 (P.getDpapiKeys entropy).2 f.signed = f.sign ∧
        P.decrypt (P.getDpapiKeys entropy).1 f.cipher = some data ∧ f.descr = descr := by
  constructor
  · intro h
    unfold unprotectBlob at h
    simp only at h
    split at h
    next => cases h
    next hlength =>
      split at h
      next => cases h
      next hhead =>
        rw [not_or, not_not, not_not] at hhead
        obtain ⟨c, hc, h⟩ := Option.bind_eq_some_iff.mp h
        obtain ⟨n, hn, h⟩ := Option.bind_eq_some_iff.mp h
        obtain ⟨hclt, rest, hrest⟩ := unpackDword_iff.mp hc
        obtain ⟨hnlt, tail, htail⟩ := unpackDword_iff.mp hn
        split at h
        next => cases h
        next hsign =>
          rw [not_or, not_not, not_not] at hsign
          obtain ⟨plain, hplain, hpair⟩ := Option.map_eq_some_iff.mp h
          rw [Prod.mk.injEq] at hpair
          obtain ⟨rfl, hdescr⟩ := hpair
          generalize hd : fromBytes ((blob.drop 44).take 4) = d at hrest htail hsign hplain hdescr
          have hroom := congrArg List.length htail
          rw [List.length_drop, List.length_append, toBytes_length] at hroom
          have htailEq : tail = blob.drop (48 + d + (4 + c) + 4) := by
            rw [← List.drop_drop, htail, List.drop_left' (toBytes_length 4 n)]
          have hcipher : (blob.take (48 + d + (4 + c))).drop (48 + d + (4 + c) - c) = (blob.drop (48 + d + 4)).take c := by
            rw [List.drop_take]
            congr 1
            omega
            congr 1
            omega
          have hcipherLength : ((blob.drop (48 + d + 4)).take c).length = c := by
            rw [List.length_take, List.length_drop]
            omega
          have hdescrLength : ((blob.drop 48).take d).length = d := by
            rw [List.length_take, List.length_drop]
            omega
          have hsigned : blob.take (48 + d + (4 + c)) =
              blob.take 48 ++ ((blob.drop 48).take d ++ (toBytes 4 c ++ (blob.drop (48 + d + 4)).take c)) := by
            have hdword : (blob.drop (48 + d)).take 4 = toBytes 4 c := by
              rw [hrest, List.take_left' (toBytes_length 4 c)]
            rw [Nat.add_assoc, List.take_add, List.take_add, List.drop_drop, List.take_add, hdword, List.drop_drop]
          refine ⟨⟨blob.take 48, (blob.drop 48).take d, (blob.drop (48 + d + 4)).take c, tail⟩, ⟨?_, ?_, ?_, ?_, ?_, ?_⟩, ?_,
            ?_, ?_, hdescr⟩
          · exact List.length_take_of_le (by omega)
          · rw [List.take_take]
            exact hhead.1
          · rw [List.drop_take, List.take_take]
            exact hhead.2
          · rw [List.drop_take, List.take_take, hdescrLength]
            exact hd
          · rw [hcipherLength]
            exact hclt
          · rw [htailEq, hsign.1, ← hsign.2]
            exact hnlt
          · have hnTail : n = tail.length := by rw [htailEq, hsign.1, hsign.2]
            rw [Fields.bytes, Fields.signed, hcipherLength, ← hsigned, ← hnTail, ← htail, List.take_append_drop]
          · rw [Fields.signed, hcipherLength, ← hsigned, htailEq]
            exact hsign.1.symm
          · rw [← hcipher]
            exact hplain
  · rintro ⟨f, hvalid, rfl, hsign, hdata, rfl⟩
    have hhead := hvalid.length_head
    have hsplit : f.bytes =
        f.head ++ (f.descr ++ (toBytes 4 f.cipher.length ++ (f.cipher ++ (toBytes 4 f.sign.length ++ f.sign)))) := by
      simp only [Fields.bytes, Fields.signed, List.append_assoc]
    have hfront : f.bytes.take 48 = f.head := by rw [hsplit, List.take_left' hhead]
    have hversion : fromBytes (f.bytes.take 4) = dpapiVersion := by
      have h := hvalid.version
      rwa [← hfront, List.take_take] at h
    have hprovider : (f.bytes.drop 4).take 16 = dpapiProvider := by
      have h := hvalid.provider
      rwa [← hfront, List.drop_take, List.take_take] at h
    have hlen : fromBytes ((f.bytes.drop 44).take 4) = f.descr.length := by
      have h := hvalid.descrLen
      rwa [← hfront, List.drop_take, List.take_take] at h
    have hafter : f.bytes.drop (48 + f.descr.length) =
        toBytes 4 f.cipher.length ++ (f.cipher ++ (toBytes 4 f.sign.length ++ f.sign)) := by
      rw [← List.drop_drop, hsplit, List.drop_left' hhead, List.drop_left]
    have hcipherLen : unpackDword f.bytes (48 + f.descr.length) = some f.cipher.length :=
      unpackDword_iff.mpr ⟨hvalid.length_cipher, _, hafter⟩
    have hsignedLength : f.signed.length = 48 + f.descr.length + (4 + f.cipher.length) := by
      rw [Fields.length_signed, hhead, Nat.add_assoc]
    have hlast : f.bytes.drop (48 + f.descr.length + (4 + f.cipher.length)) = toBytes 4 f.sign.length ++ f.sign := by
      rw [← hsignedLength, Fields.bytes, List.drop_left]
    have hsignLen : unpackDword f.bytes (48 + f.descr.length + (4 + f.cipher.length)) = some f.sign.length :=
      unpackDword_iff.mpr ⟨hvalid.length_sign, _, hlast⟩
    have hsignature : f.bytes.drop (48 + f.descr.length + (4 + f.cipher.length) + 4) = f.sign := by
      rw [← List.drop_drop, hlast, List.drop_left' (toBytes_length 4 _)]
    have hsigned : f.bytes.take (48 + f.descr.length + (4 + f.cipher.length)) = f.signed := by
      rw [← hsignedLength, Fields.bytes, List.take_left]
    have hcipher : f.signed.drop (48 + f.descr.length + (4 + f.cipher.length) - f.cipher.length) = f.cipher := by
      have hfronts : f.signed = (f.head ++ (f.descr ++ toBytes 4 f.cipher.length)) ++ f.cipher := by
        simp only [Fields.signed, List.append_assoc]
      rw [hfronts]
      apply List.drop_left'
      rw [List.length_append, List.length_append, toBytes_length]
      omega
    have hdescr : (f.bytes.drop 48).take f.descr.length = f.descr := by
      rw [hsplit, List.drop_left' hhead, List.take_left]
    have hroom : ¬f.bytes.length < 48 := by
      rw [hsplit, List.length_append]
      omega
    unfold unprotectBlob
    simp only
    rw [if_neg hroom, hversion, hprovider, if_neg (by simp), hlen, hcipherLen, Option.bind_some, hsignLen, Option.bind_some,
      hsignature, hsigned, hsign, if_neg (by simp), hcipher, hdata, hdescr]
    rfl

/-- Of two valid blobs, one before the end of the other, the signed parts are of one length. -/
theorem Fields.length_signed_of_prefix {f g : Fields} (hf : f.Valid) (hg : g.Valid) (h : f.bytes <+: g.bytes) :
    f.signed.length = g.signed.length := by
  obtain ⟨rest, hrest⟩ := h
  have hhead : f.head = g.head := by
    have htake := congrArg (List.take 48) hrest
    have hfs : f.bytes ++ rest = f.head ++ (f.descr ++ (toBytes 4 f.cipher.length ++ f.cipher) ++
        (toBytes 4 f.sign.length ++ f.sign) ++ rest) := by
      simp only [Fields.bytes, Fields.signed, List.append_assoc]
    have hgs : g.bytes = g.head ++ (g.descr ++ (toBytes 4 g.cipher.length ++ g.cipher) ++
        (toBytes 4 g.sign.length ++ g.sign)) := by
      simp only [Fields.bytes, Fields.signed, List.append_assoc]
    rwa [hfs, hgs, List.take_left' hf.length_head, List.take_left' hg.length_head] at htake
  have hdescr : f.descr.length = g.descr.length := by rw [← hf.descrLen, ← hg.descrLen, hhead]
  have hcipher : toBytes 4 f.cipher.length = toBytes 4 g.cipher.length := by
    have hdrop := congrArg (fun bs => (bs.drop (48 + f.descr.length)).take 4) hrest
    have hfs : f.bytes ++ rest = (f.head ++ f.descr) ++ (toBytes 4 f.cipher.length ++ (f.cipher ++
        (toBytes 4 f.sign.length ++ f.sign) ++ rest)) := by
      simp only [Fields.bytes, Fields.signed, List.append_assoc]
    have hgs : g.bytes = (g.head ++ g.descr) ++ (toBytes 4 g.cipher.length ++ (g.cipher ++
        (toBytes 4 g.sign.length ++ g.sign))) := by
      simp only [Fields.bytes, Fields.signed, List.append_assoc]
    have hflen : (f.head ++ f.descr).length = 48 + f.descr.length := by rw [List.length_append, hf.length_head]
    have hglen : (g.head ++ g.descr).length = 48 + f.descr.length := by rw [List.length_append, hg.length_head, hdescr]
    rwa [hfs, hgs, List.drop_left' hflen, List.drop_left' hglen, List.take_left' (toBytes_length 4 _),
      List.take_left' (toBytes_length 4 _)] at hdrop
  have hvalue := congrArg fromBytes hcipher
  rw [fromBytes_toBytes_of_lt hf.length_cipher, fromBytes_toBytes_of_lt hg.length_cipher] at hvalue
  rw [length_signed, length_signed, hf.length_head, hg.length_head, hdescr, hvalue]

/-- The bytes of a description, with its terminator. -/
def descrBytes (text : List Nat) : List UInt8 := charBytes 2 (encodeUnits (text ++ [0]))

/-- The fields of a blob that is made. -/
def madeFields (P : DpapiCiphers) (data entropy : List UInt8) (text : List Nat) (dwFlags : Nat) : Fields :=
  let head := dpapiHeader dwFlags (descrBytes text).length
  let cipher := P.encrypt (P.getDpapiKeys entropy).1 data
  let signed := head ++ (descrBytes text ++ (toBytes 4 cipher.length ++ cipher))
  ⟨head, descrBytes text, cipher, P.hmacSha256 (P.getDpapiKeys entropy).2 signed⟩

theorem protectBlob_eq (P : DpapiCiphers) (data entropy : List UInt8) (text : List Nat) (dwFlags : Nat) :
    P.protectBlob data entropy text dwFlags =
      if 2 ^ 32 ≤ (descrBytes text).length ∨ 2 ^ 32 ≤ (P.encrypt (P.getDpapiKeys entropy).1 data).length then none
      else some (P.madeFields data entropy text dwFlags).bytes := rfl

theorem madeFields_valid (hP : P.Lawful) {text : List Nat} (dwFlags : Nat) (hdescr : (descrBytes text).length < 2 ^ 32)
    (hcipher : (P.encrypt (P.getDpapiKeys entropy).1 data).length < 2 ^ 32) :
    (P.madeFields data entropy text dwFlags).Valid where
  length_head := rfl
  version := by
    show fromBytes (toBytes 4 dpapiVersion) = dpapiVersion
    decide
  provider := rfl
  descrLen := by
    show fromBytes (toBytes 4 (descrBytes text).length) = (descrBytes text).length
    exact fromBytes_toBytes_of_lt hdescr
  length_cipher := hcipher
  length_sign := by
    show (P.hmacSha256 _ _).length < 2 ^ 32
    rw [hP.length_hmac]
    decide

/-- A blob that is made is accepted, and no part of it that lacks its end is. -/
theorem unprotectBlob_made (hP : P.Lawful) {text : List Nat} (dwFlags : Nat) (hdescr : (descrBytes text).length < 2 ^ 32)
    (hcipher : (P.encrypt (P.getDpapiKeys entropy).1 data).length < 2 ^ 32) :
    P.unprotectBlob (P.madeFields data entropy text dwFlags).bytes entropy = some (data, descrBytes text) ∧
      ∀ k, k < (P.madeFields data entropy text dwFlags).bytes.length →
        P.unprotectBlob ((P.madeFields data entropy text dwFlags).bytes.take k) entropy = none := by
  have hvalid := @madeFields_valid P data entropy hP text dwFlags hdescr hcipher
  constructor
  · exact unprotectBlob_iff.mpr ⟨_, hvalid, rfl, rfl, hP.decrypt_encrypt _ _, rfl⟩
  · intro k hk
    cases hfound : P.unprotectBlob ((P.madeFields data entropy text dwFlags).bytes.take k) entropy with
    | none => rfl
    | some found =>
      obtain ⟨f, hf, hbytes, hsign, -⟩ := unprotectBlob_iff.mp hfound
      have hprefix : f.bytes <+: (P.madeFields data entropy text dwFlags).bytes := hbytes ▸ List.take_prefix _ _
      have hsigned := Fields.length_signed_of_prefix hf hvalid hprefix
      have hlength := congrArg List.length hbytes
      rw [List.length_take_of_le (Nat.le_of_lt hk)] at hlength
      have hmade : (P.madeFields data entropy text dwFlags).sign.length = 32 := hP.length_hmac _ _
      rw [Fields.length_bytes] at hk hlength
      rw [← hsign, hP.length_hmac] at hlength
      omega

end DpapiCiphers

namespace ByteMemory

variable {P : DpapiCiphers} {heapAlloc heapAlloc' : Nat → Nat → Nat} {m m' : ByteMemory} {fuel ptrSize : Nat}
  {pDataIn szDataDescr pOptionalEntropy dwFlags pDataOut pDataIn' ppszDataDescr pOptionalEntropy' pDataOut' : Nat}
  {us : List Nat} {data : List UInt8}

/-- What a call left of a blob stands in a memory, in a structure at an address. -/
structure HoldsDataBlob (m : ByteMemory) (ptrSize addr buf : Nat) (data : List UInt8) : Prop where
  size : m.Holds addr (toBytes 4 data.length)
  pointer : m.Holds (addr + ptrSize) (toBytes ptrSize buf)
  data : m.Holds buf data

theorem HoldsDataBlob.read {buf addr : Nat} (h : m.HoldsDataBlob ptrSize addr buf data) (hbuf : buf < 256 ^ ptrSize) :
    m.readDataBlob ptrSize addr = data.take (data.length % 2 ^ 32) := by
  have hsize : m.readInt addr 4 = data.length % 2 ^ 32 := by
    have hread := h.size
    unfold Holds at hread
    rw [toBytes_length] at hread
    rw [readInt, hread, fromBytes_toBytes]
    exact congrArg (data.length % ·) (by decide : 256 ^ 4 = 2 ^ 32)
  have hpointer : m.readInt (addr + ptrSize) ptrSize = buf := by
    have hread := h.pointer
    unfold Holds at hread
    rw [toBytes_length] at hread
    rw [readInt, hread, fromBytes_toBytes_of_lt hbuf]
  have hmod : data.length % 2 ^ 32 ≤ data.length := Nat.mod_le _ _
  have hdata := h.data.part (show 0 + data.length % 2 ^ 32 ≤ data.length by omega)
  rw [Nat.add_zero, List.drop_zero] at hdata
  unfold readDataBlob
  simp only
  rw [hsize, hpointer]
  split
  next hzero => rw [hzero, List.take_zero]
  next => exact hdata

/-- A description: none, or a string. -/
def DescriptionAt (m : ByteMemory) (szDataDescr : Nat) (us : List Nat) : Prop :=
  if szDataDescr = 0 then us = [] else m.HoldsString 2 szDataDescr us

/-- The data come back from `CryptUnprotectData`, and the description. -/
def Unprotects (heapAlloc : Nat → Nat → Nat) (ptrSize ppszDataDescr pDataOut : Nat) (data : List UInt8) (us : List Nat)
    (reply : CryptReply) : Prop :=
  let descr := charBytes 2 (us ++ [0])
  let buf := heapAlloc 1 (max descr.length 2)
  reply = ⟨1, some cryptErrorSuccess, writeDataBlob ptrSize pDataOut (heapAlloc 0 (max data.length 1)) data ++
    [(buf, descr), (ppszDataDescr, toBytes ptrSize buf)]⟩

/-- The bytes that a blob takes. -/
def protectedSize (data : List UInt8) (us : List Nat) : Nat := 90 + 2 * us.length + (data.length / 16 + 1) * 16

theorem descrBytes_decode (hus : ∀ u ∈ us, u < 0x10000) :
    DpapiCiphers.descrBytes (decodeUnits replace us) = charBytes 2 (rereadUnits replace us ++ [0]) := by
  rw [DpapiCiphers.descrBytes, encodeUnits_append, encodeUnits_decode_replace hus]
  rfl

/-- A description comes back just where it has no unpaired surrogate. -/
theorem descrBytes_iff (hus : ∀ u ∈ us, u < 0x10000) :
    DpapiCiphers.descrBytes (decodeUnits replace us) = charBytes 2 (us ++ [0]) ↔ ¬HasUnpaired us := by
  rw [descrBytes_decode hus, ← reread_replace_iff]
  constructor
  · intro h
    have hlen : (rereadUnits replace us ++ [0]).length = (us ++ [0]).length := by
      rw [List.length_append, List.length_append, length_rereadUnits]
    have hbound : ∀ vs : List Nat, (∀ v ∈ vs, v < 0x10000) → ∀ v ∈ vs ++ [0], v < 256 ^ 2 := by
      intro vs hvs v hv
      rcases List.mem_append.mp hv with hv | hv
      · exact hvs v hv
      · rw [List.mem_singleton.mp hv]
        decide
    exact List.append_cancel_right (charBytes_injective (hbound _ (rereadUnits_lt hus)) (hbound _ hus) hlen h)
  · intro h
    rw [h]

theorem DescriptionAt.read (h : DescriptionAt m szDataDescr us) (hfuel : us.length < fuel) :
    (if szDataDescr = 0 then some [] else m.readWideString fuel szDataDescr 0) = some (decodeUnits replace us) := by
  unfold DescriptionAt at h
  split at h
  next hnull =>
    rw [if_pos hnull, h]
    rfl
  next hnull =>
    rw [if_neg hnull, h.readWideString_eq 0 hfuel]
    rfl

theorem DescriptionAt.units (h : DescriptionAt m szDataDescr us) : ∀ u ∈ us, u < 0x10000 := by
  unfold DescriptionAt at h
  split at h
  next =>
    intro u hu
    rw [h] at hu
    cases hu
  next => exact h.units

theorem length_madeFields (hP : P.Lawful) (hus : ∀ u ∈ us, u < 0x10000) (entropy : List UInt8) :
    (P.madeFields data entropy (decodeUnits replace us) dwFlags).bytes.length = protectedSize data us := by
  have hhead : (P.madeFields data entropy (decodeUnits replace us) dwFlags).head.length = 48 := rfl
  have hdescr : (P.madeFields data entropy (decodeUnits replace us) dwFlags).descr.length = (us.length + 1) * 2 := by
    show (DpapiCiphers.descrBytes (decodeUnits replace us)).length = _
    rw [descrBytes_decode hus, charBytes_length, List.length_append, length_rereadUnits, List.length_singleton]
  have hcipher : (P.madeFields data entropy (decodeUnits replace us) dwFlags).cipher.length = (data.length / 16 + 1) * 16 :=
    hP.length_encrypt _ _
  have hsign : (P.madeFields data entropy (decodeUnits replace us) dwFlags).sign.length = 32 := hP.length_hmac _ _
  rw [DpapiCiphers.Fields.length_bytes, DpapiCiphers.Fields.length_signed, hhead, hdescr, hcipher, hsign, protectedSize]
  omega

theorem cryptProtectData_eq (P : DpapiCiphers) (heapAlloc : Nat → Nat → Nat) (hin : pDataIn ≠ 0) (hout : pDataOut ≠ 0)
    (hdescr : DescriptionAt m szDataDescr us) (hfuel : us.length < fuel) :
    m.cryptProtectData P heapAlloc fuel ptrSize pDataIn szDataDescr pOptionalEntropy dwFlags pDataOut =
      (P.protectBlob (m.readDataBlob ptrSize pDataIn) (m.readEntropy ptrSize pOptionalEntropy) (decodeUnits replace us)
        dwFlags).map fun blob =>
          ⟨1, some cryptErrorSuccess, writeDataBlob ptrSize pDataOut (heapAlloc 0 (max blob.length 1)) blob⟩ := by
  have hnull : ¬(pDataIn = 0 ∨ pDataOut = 0) := by omega
  rw [cryptProtectData, if_neg hnull]
  simp only
  rw [hdescr.read hfuel, Option.bind_some]

/-- The only blob that a call makes. -/
theorem protected_eq (hin : pDataIn ≠ 0) (hout : pDataOut ≠ 0) (hdescr : DescriptionAt m szDataDescr us)
    (hfuel : us.length < fuel) {blob : List UInt8}
    (h : m.cryptProtectData P heapAlloc fuel ptrSize pDataIn szDataDescr pOptionalEntropy dwFlags pDataOut =
      some ⟨1, some cryptErrorSuccess, writeDataBlob ptrSize pDataOut (heapAlloc 0 (max blob.length 1)) blob⟩) :
    blob = (P.madeFields (m.readDataBlob ptrSize pDataIn) (m.readEntropy ptrSize pOptionalEntropy) (decodeUnits replace us)
      dwFlags).bytes := by
  rw [cryptProtectData_eq P heapAlloc hin hout hdescr hfuel, DpapiCiphers.protectBlob_eq] at h
  split at h
  next => cases h
  next =>
    have hwrites := congrArg (fun reply : CryptReply => (reply.writes[0]?).map Prod.snd) (Option.some.inj h)
    exact (Option.some.inj hwrites).symm

theorem unprotects_iff (hP : P.Lawful) (hheap : ∀ n size, heapAlloc n size < 256 ^ ptrSize)
    (hin : pDataIn ≠ 0) (hout : pDataOut ≠ 0) (hin' : pDataIn' ≠ 0) (hout' : pDataOut' ≠ 0) (hdescr' : ppszDataDescr ≠ 0)
    (hdescr : DescriptionAt m szDataDescr us) (hfuel : us.length < fuel)
    (hentropy : m'.readEntropy ptrSize pOptionalEntropy' = m.readEntropy ptrSize pOptionalEntropy)
    (hkept : ∀ blob, m.cryptProtectData P heapAlloc fuel ptrSize pDataIn szDataDescr pOptionalEntropy dwFlags pDataOut =
      some ⟨1, some cryptErrorSuccess, writeDataBlob ptrSize pDataOut (heapAlloc 0 (max blob.length 1)) blob⟩ →
      m'.HoldsDataBlob ptrSize pDataIn' (heapAlloc 0 (max blob.length 1)) blob) :
    (∃ blob, m.cryptProtectData P heapAlloc fuel ptrSize pDataIn szDataDescr pOptionalEntropy dwFlags pDataOut =
        some ⟨1, some cryptErrorSuccess, writeDataBlob ptrSize pDataOut (heapAlloc 0 (max blob.length 1)) blob⟩ ∧
      Unprotects heapAlloc' ptrSize ppszDataDescr pDataOut' (m.readDataBlob ptrSize pDataIn) us
        (m'.cryptUnprotectData P heapAlloc' ptrSize pDataIn' ppszDataDescr pOptionalEntropy' pDataOut')) ↔
      ¬HasUnpaired us ∧ protectedSize (m.readDataBlob ptrSize pDataIn) us < 2 ^ 32 := by
  have hus := hdescr.units
  have hprotect := @cryptProtectData_eq m fuel ptrSize pDataIn szDataDescr pOptionalEntropy dwFlags pDataOut us P heapAlloc
    hin hout hdescr hfuel
  generalize m.readDataBlob ptrSize pDataIn = data at hprotect ⊢
  generalize m.readEntropy ptrSize pOptionalEntropy = entropy at hentropy hprotect
  have hlength := @length_madeFields P dwFlags us data hP hus entropy
  have hdescrLength : (DpapiCiphers.descrBytes (decodeUnits replace us)).length = (us.length + 1) * 2 := by
    rw [descrBytes_decode hus, charBytes_length, List.length_append, length_rereadUnits, List.length_singleton]
  have hcipherLength := hP.length_encrypt (P.getDpapiKeys entropy).1 data
  have hnull' : ¬(pDataIn' = 0 ∨ pDataOut' = 0) := by omega
  by_cases hfields : 2 ^ 32 ≤ (DpapiCiphers.descrBytes (decodeUnits replace us)).length ∨
      2 ^ 32 ≤ (P.encrypt (P.getDpapiKeys entropy).1 data).length
  · rw [hprotect, DpapiCiphers.protectBlob_eq, if_pos hfields]
    refine iff_of_false ?_ ?_
    · rintro ⟨blob, hblob, -⟩
      cases hblob
    · rintro ⟨-, hsize⟩
      rw [protectedSize] at hsize
      omega
  · rw [not_or, Nat.not_le, Nat.not_le] at hfields
    obtain ⟨haccepts, hshort⟩ := @DpapiCiphers.unprotectBlob_made P data entropy hP (decodeUnits replace us) dwFlags
      hfields.1 hfields.2
    rw [DpapiCiphers.protectBlob_eq, if_neg (by omega), Option.map_some] at hprotect
    generalize (P.madeFields data entropy (decodeUnits replace us) dwFlags).bytes = made at hlength haccepts hshort hprotect
    have hstands := (hkept made hprotect).read (hheap _ _)
    have hreply : m'.cryptUnprotectData P heapAlloc' ptrSize pDataIn' ppszDataDescr pOptionalEntropy' pDataOut' =
        match P.unprotectBlob (made.take (made.length % 2 ^ 32)) entropy with
        | none => ⟨0, some cryptErrorInvalidData, []⟩
        | some (data, descr) =>
          ⟨1, some cryptErrorSuccess, writeDataBlob ptrSize pDataOut' (heapAlloc' 0 (max data.length 1)) data ++
            [(heapAlloc' 1 (max descr.length 2), descr),
              (ppszDataDescr, toBytes ptrSize (heapAlloc' 1 (max descr.length 2)))]⟩ := by
      rw [cryptUnprotectData, if_neg hnull']
      simp only
      rw [hstands, hentropy]
      cases P.unprotectBlob (made.take (made.length % 2 ^ 32)) entropy with
      | none => rfl
      | some found => simp only [if_neg hdescr']
    rw [hprotect, hreply]
    by_cases hsize : made.length < 2 ^ 32
    · rw [Nat.mod_eq_of_lt hsize, List.take_length, haccepts]
      simp only
      constructor
      · rintro ⟨-, -, hright⟩
        have hwrites := congrArg (fun reply => (reply.writes[3]?).map Prod.snd) hright
        exact ⟨(descrBytes_iff hus).mp (Option.some.inj hwrites), by omega⟩
      · rintro ⟨hpaired, -⟩
        refine ⟨made, rfl, ?_⟩
        unfold Unprotects
        rw [(descrBytes_iff hus).mpr hpaired]
    · have hlt : made.length % 2 ^ 32 < made.length := Nat.lt_of_lt_of_le (Nat.mod_lt _ (by decide)) (Nat.not_lt.mp hsize)
      rw [hshort _ hlt]
      refine iff_of_false ?_ ?_
      · rintro ⟨blob, -, hright⟩
        unfold Unprotects at hright
        exact absurd (congrArg CryptReply.result hright) (by simp)
      · rintro ⟨-, hroom⟩
        omega

end ByteMemory

end Speakeasy
