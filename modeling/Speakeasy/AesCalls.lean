import Speakeasy.BlockModes
import Speakeasy.CryptRuns
import Speakeasy.HandleTables

namespace Speakeasy

open PageEngine MemoryManager BlockModes

/-- `CHAINING_MODES` -/
inductive ChainingMode
  | notAvailable
  | cbc
  | ecb
  | cfb
  | ccm
  | gcm
deriving DecidableEq, Repr

/-- `CryptContext` -/
structure AlgContext where
  ptype : Option String
  chainingMode : ChainingMode := .cbc

/-- `CryptKey`, with the `ptype` of its context. -/
structure BcryptKey where
  ptype : Option String
  blob : List UInt8
  chainingMode : Option ChainingMode

inductive CryptObject
  | context (c : AlgContext)
  | key (k : BcryptKey)

inductive NtStatus
  | success
  | invalidHandle
  | invalidParameter
  | notSupported
  | bufferTooSmall
  | dataError
  | invalidBufferSize
  | authTagMismatch
deriving DecidableEq, Repr

structure GenerateArgs where
  hAlgorithm : Nat
  phKey : Nat
  pbSecret : Nat
  cbSecret : Nat

structure AesArgs where
  hKey : Nat
  pbInput : Nat
  cbInput : Nat
  pPaddingInfo : Nat
  pbIV : Nat
  cbIV : Nat
  pbOutput : Nat
  cbOutput : Nat
  pcbResult : Nat
  dwFlags : Nat

/-- What is read of a `BCRYPT_AUTHENTICATED_CIPHER_MODE_INFO`. -/
structure AuthInfo where
  nonce : List UInt8
  aad : List UInt8
  tag : Nat
  tagLength : Nat
  flags : Nat
deriving DecidableEq, Repr

/-- What a call returns, and what it writes: the tag or the IV, the output, and the size. -/
structure AesReply where
  status : NtStatus
  chain : List (Nat × List UInt8) := []
  out : List UInt8 := []
  size : Option Nat := none
deriving DecidableEq, Repr

namespace AesReply

/-- `write_result_size` -/
def sizeWrites (r : AesReply) (pcbResult : Nat) : List (Nat × List UInt8) :=
  match r.size with
  | none => []
  | some size => if pcbResult = 0 then [] else [(pcbResult, toBytes 4 size)]

/-- The writes of a call in their order. -/
def writes (r : AesReply) (a : AesArgs) : List (Nat × List UInt8) :=
  r.chain ++ (if r.out = [] then [] else [(a.pbOutput, r.out)]) ++ r.sizeWrites a.pcbResult

end AesReply

namespace AesArgs

variable (a : AesArgs)

def inputLength : Nat := a.cbInput % 2 ^ 32

def ivLength : Nat := a.cbIV % 2 ^ 32

def outputLength : Nat := a.cbOutput % 2 ^ 32

/-- `BCRYPT_BLOCK_PADDING` -/
def padding : Bool := a.dwFlags.testBit 0

end AesArgs

def aesKeyLengths : List Nat := [16, 24, 32]

/-- `AES.new`, of a family of block permutations. -/
def aesNew (aes : List UInt8 → Equiv.Perm (Block 16)) (key : List UInt8) : Except CryptFault (Equiv.Perm (Block 16)) :=
  if key.length ∈ aesKeyLengths then .ok (aes key) else .error .keyLength

/-- What a cipher object makes of whole blocks, with CBC from an IV on. -/
def cryptBlocks (E : Equiv.Perm (Block 16)) (cbc encrypt : Bool) (iv data : List UInt8) : List UInt8 :=
  let blocks := toBlocks 16 data
  let first := blockAt 16 iv 0
  ofBlocks (match cbc, encrypt with
    | true, true => cbcEncrypt E first blocks
    | true, false => cbcDecrypt E first blocks
    | false, true => ecbEncrypt E blocks
    | false, false => ecbDecrypt E blocks)

/-- `data[-AES_BLOCK_LENGTH:]` -/
def lastBytes (data : List UInt8) : List UInt8 := data.drop (data.length - 16)

/-- The end of a CBC or ECB call, whose data are whole blocks. -/
def blockReply (E : Equiv.Perm (Block 16)) (cbc encrypt : Bool) (iv data : List UInt8) (a : AesArgs) : AesReply :=
  let out := cryptBlocks E cbc encrypt iv data
  let nextIv := lastBytes (if encrypt then out else data)
  match (if !encrypt && a.padding then unpad 16 out else some out) with
  | none => { status := .dataError }
  | some out =>
    if a.outputLength < out.length then { status := .bufferTooSmall, size := some out.length }
    else
      { status := .success
        chain := if cbc = true ∧ a.pbIV ≠ 0 ∧ nextIv ≠ [] then [(a.pbIV, nextIv)] else []
        out := out
        size := some out.length }

variable {ε : Type} [PageEngine ε]

/-- The guest, and the handles of the crypto manager. -/
structure BcryptSession (ε : Type) where
  guest : GuestMemory ε
  allocator : HandleAllocator
  objects : Nat → Option CryptObject

namespace BcryptSession

section Calls

variable (arch : Arch) (upper : String → String) (aes : List UInt8 → Equiv.Perm (Block 16))
  (s : BcryptSession ε)

def isAes (ptype : Option String) : Bool := upper (ptype.getD "") == "AES"

def getContext (hnd : Nat) : Option AlgContext :=
  match s.objects (maskHandle hnd) with
  | some (.context c) => some c
  | _ => none

def getKey (hnd : Nat) : Option BcryptKey :=
  match s.objects (maskHandle hnd) with
  | some (.key k) => some k
  | _ => none

def read (address size : Nat) : Except CryptFault (List UInt8) := (s.guest.memRead address size).mapError .mem

def importKey (key : BcryptKey) : Nat × BcryptSession ε :=
  let (hnd, allocator) := s.allocator.allocateHandle
  (hnd, { s with allocator, objects := Function.update s.objects hnd (some (.key key)) })

/-- `BCryptGenerateSymmetricKey`. It gives the handle of the key when it succeeds. -/
def generateSymmetricKey (a : GenerateArgs) : Except CryptFault (NtStatus × Nat) × BcryptSession ε :=
  match s.getContext a.hAlgorithm with
  | none => (.ok (.invalidHandle, 0), s)
  | some alg =>
    let cbSecret := a.cbSecret % 2 ^ 32
    if a.phKey = 0 ∨ (isAes upper alg.ptype ∧ cbSecret ∉ aesKeyLengths) then (.ok (.invalidParameter, 0), s)
    else
      match s.read a.pbSecret cbSecret with
      | .error e => (.error e, s)
      | .ok secret =>
        let (hnd, s) := s.importKey ⟨alg.ptype, secret, some alg.chainingMode⟩
        match s.guest.memWrite a.phKey (toBytes arch.ptrSize hnd) with
        | .error e => (.error (.mem e), s)
        | .ok guest => (.ok (.success, hnd), { s with guest })

/-- The number of bytes of the format that `read_auth_info` unpacks. -/
def authInfoSize : Nat :=
  match arch with
  | .amd64 => 84
  | .x86 => 60

/-- The pointer and the length of a buffer of the structure. -/
def authBuffer (raw : List UInt8) (i : Nat) : Nat × Nat :=
  let field := 8 + 2 * arch.ptrSize * i
  (fromBytes ((raw.drop field).take arch.ptrSize), fromBytes ((raw.drop (field + arch.ptrSize)).take 4))

def readAuthInfo (addr : Nat) : Except CryptFault AuthInfo :=
  match s.read addr (authInfoSize arch) with
  | .error e => .error e
  | .ok raw =>
    let nonce := authBuffer arch raw 0
    let aad := authBuffer arch raw 1
    let tag := authBuffer arch raw 2
    let flags := fromBytes (raw.drop (authInfoSize arch - 4))
    match s.read nonce.1 nonce.2 with
    | .error e => .error e
    | .ok nonce =>
      match s.read aad.1 aad.2 with
      | .error e => .error e
      | .ok aad => .ok ⟨nonce, aad, tag.1, tag.2, flags⟩

/-- The GCM branch of `aes_crypt`. -/
def gcmCall (key : BcryptKey) (encrypt : Bool) (data : List UInt8) (a : AesArgs) : Except CryptFault AesReply :=
  if a.pPaddingInfo = 0 then .ok { status := .invalidParameter }
  else
    match s.readAuthInfo arch a.pPaddingInfo with
    | .error e => .error e
    | .ok auth =>
      if auth.flags.testBit 0 then .ok { status := .notSupported }
      else if auth.nonce.length ≠ 12 ∨ ¬(12 ≤ auth.tagLength ∧ auth.tagLength ≤ 16) then
        .ok { status := .invalidParameter }
      else if a.pbOutput = 0 then .ok { status := .success, size := some data.length }
      else if a.outputLength < data.length then .ok { status := .bufferTooSmall }
      else
        match aesNew aes key.blob with
        | .error e => .error e
        | .ok E =>
          if encrypt then
            let (out, digest) := gcmEncrypt E auth.nonce auth.aad auth.tagLength data
            .ok { status := .success, chain := [(auth.tag, digest)], out := out, size := some out.length }
          else
            match s.read auth.tag auth.tagLength with
            | .error e => .error e
            | .ok tag =>
              match gcmDecrypt E auth.nonce auth.aad auth.tagLength data tag with
              | none => .ok { status := .authTagMismatch }
              | some out => .ok { status := .success, out := out, size := some out.length }

/-- The CBC and ECB branch of `aes_crypt`. -/
def blockCall (key : BcryptKey) (cbc encrypt : Bool) (data : List UInt8) (a : AesArgs) :
    Except CryptFault AesReply :=
  let data := if encrypt && a.padding then pad 16 data else data
  if data.length % 16 ≠ 0 then .ok { status := .invalidBufferSize }
  else if a.pbOutput = 0 then .ok { status := .success, size := some data.length }
  else if cbc = true ∧ a.pbIV ≠ 0 ∧ a.ivLength ≠ 16 then .ok { status := .invalidParameter }
  else
    match (if cbc = true ∧ a.pbIV ≠ 0 then s.read a.pbIV 16 else .ok (List.replicate 16 0)) with
    | .error e => .error e
    | .ok iv =>
      match aesNew aes key.blob with
      | .error e => .error e
      | .ok E => .ok (blockReply E cbc encrypt iv data a)

/-- `aes_crypt` up to its first write. -/
def aesReply (encrypt : Bool) (a : AesArgs) : Except CryptFault AesReply :=
  match s.getKey a.hKey with
  | none => .ok { status := .invalidHandle }
  | some key =>
    if isAes upper key.ptype = false ∨ key.chainingMode ∉ [some .cbc, some .ecb, some .gcm] then
      .ok { status := .notSupported }
    else
      match s.read a.pbInput a.inputLength with
      | .error e => .error e
      | .ok data =>
        if key.chainingMode = some .gcm then s.gcmCall arch aes key encrypt data a
        else s.blockCall aes key (key.chainingMode = some .cbc) encrypt data a

/-- `BCryptEncrypt` and `BCryptDecrypt` -/
def aesCrypt (encrypt : Bool) (a : AesArgs) : Except CryptFault AesReply × BcryptSession ε :=
  match s.aesReply arch upper aes encrypt a with
  | .error e => (.error e, s)
  | .ok reply =>
    let (r, guest) := CryptSession.storeAll s.guest (reply.writes a)
    (r.map fun _ => reply, { s with guest })

end Calls

end BcryptSession

end Speakeasy
