import Speakeasy.AesChunks

namespace Speakeasy

open PageEngine MemoryManager BlockModes

variable {ε : Type} [PageEngine ε]

namespace BcryptSession

section Law

variable (arch : Arch) (upper : String → String) (aes : List UInt8 → Equiv.Perm (Block 16))

/-- A call that returned. -/
def Call (s : BcryptSession ε) (encrypt : Bool) (a : AesArgs) (r : AesReply) (s' : BcryptSession ε) : Prop :=
  s.aesCrypt arch upper aes encrypt a = (.ok r, s')

/-- The message of a call. -/
def input (s : BcryptSession ε) (a : AesArgs) : List UInt8 := s.guest.bytes.readBytes a.pbInput a.inputLength

def iv (s : BcryptSession ε) (a : AesArgs) : List UInt8 :=
  if a.pbIV = 0 then List.replicate 16 0 else s.guest.bytes.readBytes a.pbIV 16

def mode (s : BcryptSession ε) (a : AesArgs) : Option ChainingMode :=
  (s.getKey a.hKey).bind BcryptKey.chainingMode

/-- The structures of the two calls have the same nonce, data and tag size, and the tag of the second is the
one that the first wrote. -/
structure SameAuth (s : BcryptSession ε) (a : AesArgs) (r : AesReply) (t : BcryptSession ε) (b : AesArgs)
    (x y : AuthInfo) : Prop where
  first : s.readAuthInfo arch a.pPaddingInfo = .ok x
  second : t.readAuthInfo arch b.pPaddingInfo = .ok y
  pointer : b.pPaddingInfo ≠ 0
  nonce : y.nonce = x.nonce
  aad : y.aad = x.aad
  tagLength : y.tagLength = x.tagLength
  flags : y.flags.testBit 0 = false
  tag : ∀ w ∈ r.chain, t.guest.bytes.readBytes y.tag y.tagLength = w.2

/-- A decryption call on what an encryption call wrote. -/
structure Reverses (s : BcryptSession ε) (a : AesArgs) (r : AesReply) (t : BcryptSession ε) (b : AesArgs) :
    Prop where
  key : t.getKey b.hKey = s.getKey a.hKey
  input : t.input b = r.out
  output : b.pbOutput ≠ 0
  room : (s.input a).length ≤ b.outputLength
  padding : b.padding = a.padding
  iv : s.mode a = some .cbc → t.iv b = s.iv a ∧ (b.pbIV ≠ 0 → b.ivLength = 16)
  auth : s.mode a = some .gcm → ∃ x y, SameAuth arch s a r t b x y

/-- The memory that a call needs. -/
structure Buffers (s : BcryptSession ε) (a : AesArgs) : Prop where
  input : s.guest.RangeMapped a.pbInput a.inputLength
  iv : a.pbIV ≠ 0 → s.guest.RangeMapped a.pbIV 16
  auth : a.pPaddingInfo ≠ 0 → s.mode a = some .gcm → ∃ x, s.readAuthInfo arch a.pPaddingInfo = .ok x ∧
    s.guest.RangeMapped x.tag x.tagLength
  output : a.pbOutput ≠ 0 → s.guest.RangeMapped a.pbOutput a.outputLength
  size : a.pcbResult ≠ 0 → s.guest.RangeMapped a.pcbResult 4

/-- A call on an IV buffer with room for its output, which leaves the IV to the next call. -/
structure CbcCall (k : BcryptKey) (encrypt : Bool) (s : BcryptSession ε) (a : AesArgs) (r : AesReply)
    (s' : BcryptSession ε) : Prop where
  call : Call arch upper aes s encrypt a r s'
  key : s.getKey a.hKey = some k
  buffer : a.pbIV ≠ 0
  length : a.ivLength = 16
  output : a.pbOutput ≠ 0
  room : r.status ≠ .bufferTooSmall
  apart : CryptHistory.Apart a.pbIV 16 a.pbOutput r.out.length
  sizeApart : a.pcbResult ≠ 0 → CryptHistory.Apart a.pbIV 16 a.pcbResult 4

/-- A call of a run, with its chunk. -/
structure ChunkCall where
  args : AesArgs
  chunk : List UInt8
  reply : AesReply

/-- Calls one after the other on one IV buffer, from the IV before the first to the IV after the last.
Between the calls the guest leaves the buffer. -/
inductive ChunkRun (ε : Type) [PageEngine ε] (k : BcryptKey) (encrypt : Bool) (pbIV : Nat) :
    List UInt8 → List ChunkCall → List UInt8 → Prop
  | nil (iv : List UInt8) : ChunkRun ε k encrypt pbIV iv [] iv
  | call {s s' : BcryptSession ε} {a : AesArgs} {r : AesReply} {calls : List ChunkCall} {iv : List UInt8}
      (h : CbcCall arch upper aes k encrypt s a r s') (hiv : a.pbIV = pbIV)
      (rest : ChunkRun ε k encrypt pbIV (s'.guest.bytes.readBytes pbIV 16) calls iv) :
      ChunkRun ε k encrypt pbIV (s.guest.bytes.readBytes pbIV 16) (⟨a, s.input a, r⟩ :: calls) iv

/-- Chunks that are whole blocks except for the last, and the padding flag on the last only. -/
def Split (padding : Bool) : List ChunkCall → Prop
  | [] => False
  | [c] => c.args.padding = padding
  | c :: d :: calls => c.args.padding = false ∧ c.chunk.length % 16 = 0 ∧ Split padding (d :: calls)

/-- The checks of the structure of a GCM call. -/
structure AuthGood (s : BcryptSession ε) (a : AesArgs) (x : AuthInfo) : Prop where
  pointer : a.pPaddingInfo ≠ 0
  read : s.readAuthInfo arch a.pPaddingInfo = .ok x
  flags : x.flags.testBit 0 = false
  nonce : x.nonce.length = 12
  tagLength : 12 ≤ x.tagLength ∧ x.tagLength ≤ 16

/-- A GCM call with a good structure. One that is no query has room, and a decryption the tag of its input. -/
structure GcmAccepted (s : BcryptSession ε) (k : BcryptKey) (encrypt : Bool) (a : AesArgs) (x : AuthInfo) :
    Prop where
  auth : AuthGood arch s a x
  room : a.pbOutput ≠ 0 → (s.input a).length ≤ a.outputLength
  tag : a.pbOutput ≠ 0 → encrypt = false →
    s.guest.bytes.readBytes x.tag x.tagLength = gcmTag (aes k.blob) x.nonce x.aad x.tagLength (s.input a)

/-- A CBC or ECB call on whole blocks, or on a message that is padded. One that is no query has a whole IV and room,
and a decryption with padding the blocks of a padded text. -/
structure BlockAccepted (s : BcryptSession ε) (k : BcryptKey) (cbc encrypt : Bool) (a : AesArgs) : Prop where
  whole : encrypt = true ∧ a.padding = true ∨ (s.input a).length % 16 = 0
  iv : a.pbOutput ≠ 0 → cbc = true → a.pbIV ≠ 0 → a.ivLength = 16
  room : a.pbOutput ≠ 0 → encrypt = true ∨ a.padding = false →
    (cbcData encrypt a.padding (s.input a)).length ≤ a.outputLength
  padded : a.pbOutput ≠ 0 → encrypt = false → a.padding = true → ∃ text, text.length ≤ a.outputLength ∧
    pad 16 text = cryptBlocks (aes k.blob) cbc false (if cbc then s.iv a else List.replicate 16 0) (s.input a)

/-- The calls that succeed. -/
def Accepted (s : BcryptSession ε) (encrypt : Bool) (a : AesArgs) : Prop :=
  ∃ k, s.getKey a.hKey = some k ∧ isAes upper k.ptype = true ∧
    ((k.chainingMode = some .gcm ∧ ∃ x, GcmAccepted arch aes s k encrypt a x) ∨
      ∃ cbc : Bool, k.chainingMode = some (if cbc then .cbc else .ecb) ∧ BlockAccepted aes s k cbc encrypt a)

/-- The law of `aes_crypt`; which splits of a message it is about is given by a predicate. -/
structure AesLaw (ε : Type) [PageEngine ε] (joins : Bool → Bool → List (List UInt8) → Prop) : Prop where
  succeeds : ∀ (s s' : BcryptSession ε) (encrypt : Bool) (a : AesArgs) (r : AesReply),
    Call arch upper aes s encrypt a r s' → (r.status = .success ↔ Accepted arch upper aes s encrypt a)
  undoes : ∀ (s s' t t' : BcryptSession ε) (a b : AesArgs) (r r' : AesReply),
    Call arch upper aes s true a r s' → r.status = .success → a.pbOutput ≠ 0 →
    Call arch upper aes t false b r' t' → Reverses arch s a r t b →
    r'.status = .success ∧ r'.out = s.input a
  chunks : ∀ (k : BcryptKey) (encrypt padding : Bool) (pbIV : Nat) (iv iv' : List UInt8) (calls : List ChunkCall)
    (s s' : BcryptSession ε) (a : AesArgs) (r : AesReply), k.chainingMode = some .cbc →
    ChunkRun arch upper aes ε k encrypt pbIV iv calls iv' → CbcCall arch upper aes k encrypt s a r s' →
    s.guest.bytes.readBytes a.pbIV 16 = iv → a.padding = padding →
    s.input a = (calls.map ChunkCall.chunk).flatten → Split padding calls →
    joins encrypt padding (calls.map ChunkCall.chunk) →
    ((∀ c ∈ calls, c.reply.status = .success) ↔ r.status = .success) ∧
    (r.status = .success → (calls.map fun c => c.reply.out).flatten = r.out ∧
      iv' = s'.guest.bytes.readBytes a.pbIV 16)
  sizes : ∀ (s s' s'' : BcryptSession ε) (encrypt : Bool) (a : AesArgs) (q r : AesReply),
    Call arch upper aes s encrypt { a with pbOutput := 0 } q s' → Call arch upper aes s' encrypt a r s'' →
    a.pbOutput ≠ 0 → a.pcbResult ≠ 0 → r.status = .success →
    q.status = .success ∧ r.out.length ≤ s'.guest.bytes.readInt a.pcbResult 4 ∧
    (encrypt = true → s'.guest.bytes.readInt a.pcbResult 4 = r.out.length)
  sameBuffer : ∀ (s s' s'' : BcryptSession ε) (encrypt : Bool) (a : AesArgs) (r r' : AesReply),
    a.pbOutput ≠ 0 → a.pbInput ≠ 0 → Call arch upper aes s encrypt a r s' →
    Call arch upper aes s encrypt { a with pbOutput := a.pbInput } r' s'' → r' = r
  writes : ∀ (s s' : BcryptSession ε) (encrypt : Bool) (a : AesArgs) (r : AesReply),
    Call arch upper aes s encrypt a r s' →
    s' = { s with guest := ⟨s.guest.mgr, s.guest.bytes.writeAll (r.writes a)⟩ } ∧
    ((a.pcbResult ≠ 0 → CryptHistory.Apart a.pbOutput r.out.length a.pcbResult 4) →
      s'.guest.bytes.readBytes a.pbOutput r.out.length = r.out)
  failure : ∀ (s s' : BcryptSession ε) (encrypt : Bool) (a : AesArgs) (r : AesReply),
    Call arch upper aes s encrypt a r s' → r.status ≠ .success →
    ∀ x, (a.pcbResult ≠ 0 → x < a.pcbResult ∨ a.pcbResult + 4 ≤ x) → s'.guest.bytes x = s.guest.bytes x
  returns : ∀ (s : BcryptSession ε) (encrypt : Bool) (a : AesArgs) (k : BcryptKey),
    s.getKey a.hKey = some k → k.blob.length ∈ aesKeyLengths → Buffers arch s a →
    ∃ r s', Call arch upper aes s encrypt a r s'

end Law

variable {arch : Arch} {upper : String → String} {aes : List UInt8 → Equiv.Perm (Block 16)}
  {s s' t t' : BcryptSession ε} {k : BcryptKey} {cbc encrypt : Bool} {data : List UInt8} {a b : AesArgs}
  {r r' : AesReply}

theorem read_eq_ok {x n : Nat} {bs : List UInt8} :
    s.read x n = .ok bs ↔ s.guest.RangeMapped x n ∧ bs = s.guest.bytes.readBytes x n := by
  unfold read GuestMemory.memRead
  split
  next hmapped =>
    constructor
    · intro h
      cases h
      exact ⟨hmapped, rfl⟩
    · rintro ⟨_, rfl⟩
      rfl
  next hmapped =>
    refine iff_of_false (fun h => by cases h) fun h => hmapped h.1

/-- Both branches with the IV that the call uses. -/
def blockIv (s : BcryptSession ε) (cbc : Bool) (a : AesArgs) : List UInt8 :=
  if cbc then s.iv a else List.replicate 16 0

/-- What a CBC or ECB call came to. -/
inductive BlockOutcome (aes : List UInt8 → Equiv.Perm (Block 16)) (s : BcryptSession ε) (k : BcryptKey)
    (cbc encrypt : Bool) (data : List UInt8) (a : AesArgs) : AesReply → Prop
  | badLength (hlen : (cbcData encrypt a.padding data).length % 16 ≠ 0) :
      BlockOutcome aes s k cbc encrypt data a { status := .invalidBufferSize }
  | query (hlen : (cbcData encrypt a.padding data).length % 16 = 0) (hout : a.pbOutput = 0) :
      BlockOutcome aes s k cbc encrypt data a
        { status := .success, size := some (cbcData encrypt a.padding data).length }
  | badIv (hcbc : cbc = true) (hbuffer : a.pbIV ≠ 0) (hiv : a.ivLength ≠ 16) :
      BlockOutcome aes s k cbc encrypt data a { status := .invalidParameter }
  | crypt (hlen : (cbcData encrypt a.padding data).length % 16 = 0) (hout : a.pbOutput ≠ 0)
      (hiv : cbc = true → a.pbIV ≠ 0 → a.ivLength = 16) (hkey : k.blob.length ∈ aesKeyLengths) :
      BlockOutcome aes s k cbc encrypt data a
        (blockReply (aes k.blob) cbc encrypt (s.blockIv cbc a) (cbcData encrypt a.padding data) a)

/-- The IV that a call reads. -/
theorem readIv_eq_ok {bs : List UInt8}
    (h : (if cbc = true ∧ a.pbIV ≠ 0 then s.read a.pbIV 16 else .ok (List.replicate 16 0)) = .ok bs) :
    bs = s.blockIv cbc a := by
  unfold blockIv iv
  split at h
  next hused =>
    rw [if_pos hused.1, if_neg hused.2]
    exact (read_eq_ok.mp h).2
  next hunused =>
    cases h
    by_cases hcbc : cbc = true
    · rw [if_pos hcbc, if_pos (by simpa [hcbc] using hunused)]
    · rw [if_neg hcbc]

theorem aesNew_eq_ok {key : List UInt8} {E : Equiv.Perm (Block 16)} :
    aesNew aes key = .ok E ↔ key.length ∈ aesKeyLengths ∧ E = aes key := by
  unfold aesNew
  split
  next hlen =>
    constructor
    · intro h
      cases h
      exact ⟨hlen, rfl⟩
    · rintro ⟨_, rfl⟩
      rfl
  next hlen => exact iff_of_false (fun h => by cases h) fun h => hlen h.1

theorem blockCall_outcome (h : s.blockCall aes k cbc encrypt data a = .ok r) :
    BlockOutcome aes s k cbc encrypt data a r := by
  unfold blockCall at h
  change (if (cbcData encrypt a.padding data).length % 16 ≠ 0 then _ else _) = _ at h
  split at h
  next hlen =>
    cases h
    exact .badLength hlen
  next hlen =>
    have hwhole := not_not.mp hlen
    split at h
    next hout =>
      cases h
      exact .query hwhole hout
    next hout =>
      split at h
      next hbad =>
        cases h
        exact .badIv hbad.1 hbad.2.1 hbad.2.2
      next hgood =>
        have hiv : cbc = true → a.pbIV ≠ 0 → a.ivLength = 16 := fun hcbc hbuffer =>
          not_not.mp fun hne => hgood ⟨hcbc, hbuffer, hne⟩
        cases hread : (if cbc = true ∧ a.pbIV ≠ 0 then s.read a.pbIV 16 else .ok (List.replicate 16 0)) with
        | error e =>
          rw [hread] at h
          cases h
        | ok bs =>
          rw [hread] at h
          cases hnew : aesNew aes k.blob with
          | error e =>
            rw [hnew] at h
            cases h
          | ok E =>
            rw [hnew] at h
            cases h
            obtain ⟨hkey, rfl⟩ := aesNew_eq_ok.mp hnew
            rw [readIv_eq_ok hread]
            exact .crypt hwhole hout hiv hkey

/-- What a GCM call came to. -/
inductive GcmOutcome (arch : Arch) (aes : List UInt8 → Equiv.Perm (Block 16)) (s : BcryptSession ε)
    (k : BcryptKey) (encrypt : Bool) (data : List UInt8) (a : AesArgs) : AesReply → Prop
  | refused {status : NtStatus} (hstatus : status ≠ .success) :
      GcmOutcome arch aes s k encrypt data a { status }
  | query {x : AuthInfo} (hx : AuthGood arch s a x) (hout : a.pbOutput = 0) :
      GcmOutcome arch aes s k encrypt data a { status := .success, size := some data.length }
  | encrypted {x : AuthInfo} (hx : AuthGood arch s a x) (hout : a.pbOutput ≠ 0)
      (hroom : data.length ≤ a.outputLength) (hkey : k.blob.length ∈ aesKeyLengths) (henc : encrypt = true) :
      GcmOutcome arch aes s k encrypt data a
        { status := .success
          chain := [(x.tag, (gcmEncrypt (aes k.blob) x.nonce x.aad x.tagLength data).2)]
          out := (gcmEncrypt (aes k.blob) x.nonce x.aad x.tagLength data).1
          size := some (gcmEncrypt (aes k.blob) x.nonce x.aad x.tagLength data).1.length }
  | decrypted {x : AuthInfo} {tag out : List UInt8} (hx : AuthGood arch s a x) (hout : a.pbOutput ≠ 0)
      (hroom : data.length ≤ a.outputLength) (hkey : k.blob.length ∈ aesKeyLengths) (henc : encrypt = false)
      (htag : tag = s.guest.bytes.readBytes x.tag x.tagLength)
      (hdec : gcmDecrypt (aes k.blob) x.nonce x.aad x.tagLength data tag = some out) :
      GcmOutcome arch aes s k encrypt data a { status := .success, out := out, size := some out.length }

theorem gcmCall_outcome (h : s.gcmCall arch aes k encrypt data a = .ok r) :
    GcmOutcome arch aes s k encrypt data a r := by
  unfold gcmCall at h
  split at h
  next hpointer =>
    cases h
    exact .refused (by decide)
  next hpointer =>
    cases hread : s.readAuthInfo arch a.pPaddingInfo with
    | error e =>
      rw [hread] at h
      cases h
    | ok x =>
      rw [hread] at h
      dsimp only at h
      split at h
      next hflag =>
        cases h
        exact .refused (by decide)
      next hflag =>
        split at h
        next hbad =>
          cases h
          exact .refused (by decide)
        next hgood =>
          have hx : AuthGood arch s a x := by
            have hnonce : x.nonce.length = 12 := not_not.mp fun hne => hgood (Or.inl hne)
            have htag : 12 ≤ x.tagLength ∧ x.tagLength ≤ 16 := not_not.mp fun hne => hgood (Or.inr hne)
            exact ⟨hpointer, hread, Bool.eq_false_iff.mpr hflag, hnonce, htag⟩
          split at h
          next hout =>
            cases h
            exact .query hx hout
          next hout =>
            split at h
            next hsmall =>
              cases h
              exact .refused (by decide)
            next hlarge =>
              have hroom := Nat.not_lt.mp hlarge
              cases hnew : aesNew aes k.blob with
              | error e =>
                rw [hnew] at h
                cases h
              | ok E =>
                rw [hnew] at h
                obtain ⟨hkey, rfl⟩ := aesNew_eq_ok.mp hnew
                dsimp only at h
                split at h
                next henc =>
                  cases h
                  exact .encrypted hx hout hroom hkey henc
                next henc =>
                  have hdecrypt : encrypt = false := Bool.eq_false_iff.mpr henc
                  cases htag : s.read x.tag x.tagLength with
                  | error e =>
                    rw [htag] at h
                    cases h
                  | ok tag =>
                    rw [htag] at h
                    dsimp only at h
                    cases hdec : gcmDecrypt (aes k.blob) x.nonce x.aad x.tagLength data tag with
                    | none =>
                      rw [hdec] at h
                      cases h
                      exact .refused (by decide)
                    | some out =>
                      rw [hdec] at h
                      cases h
                      exact .decrypted hx hout hroom hkey hdecrypt (read_eq_ok.mp htag).2 hdec

/-- What a call came to. -/
inductive AesOutcome (arch : Arch) (upper : String → String) (aes : List UInt8 → Equiv.Perm (Block 16))
    (s : BcryptSession ε) (encrypt : Bool) (a : AesArgs) : AesReply → Prop
  | noKey (hkey : s.getKey a.hKey = none) : AesOutcome arch upper aes s encrypt a { status := .invalidHandle }
  | notAes {k : BcryptKey} (hkey : s.getKey a.hKey = some k) 
      (hother : isAes upper k.ptype = false ∨ k.chainingMode ∉ [some .cbc, some .ecb, some .gcm]) :
      AesOutcome arch upper aes s encrypt a { status := .notSupported }
  | gcm {k : BcryptKey} {r : AesReply} (hkey : s.getKey a.hKey = some k) (haes : isAes upper k.ptype = true)
      (hmode : k.chainingMode = some .gcm) (h : GcmOutcome arch aes s k encrypt (s.input a) a r) :
      AesOutcome arch upper aes s encrypt a r
  | block {k : BcryptKey} {r : AesReply} {cbc : Bool} (hkey : s.getKey a.hKey = some k)
      (haes : isAes upper k.ptype = true)
      (hmode : k.chainingMode = some (if cbc then .cbc else .ecb))
      (h : BlockOutcome aes s k cbc encrypt (s.input a) a r) : AesOutcome arch upper aes s encrypt a r

theorem aesReply_outcome (h : s.aesReply arch upper aes encrypt a = .ok r) :
    AesOutcome arch upper aes s encrypt a r := by
  unfold aesReply at h
  cases hkey : s.getKey a.hKey with
  | none =>
    rw [hkey] at h
    cases h
    exact .noKey hkey
  | some k =>
    rw [hkey] at h
    dsimp only at h
    split at h
    next hother =>
      cases h
      exact .notAes hkey hother
    next hsupported =>
      obtain ⟨haes, hmodes⟩ := not_or.mp hsupported
      have haes := Bool.eq_true_of_not_eq_false haes
      have hmodes := not_not.mp hmodes
      cases hread : s.read a.pbInput a.inputLength with
      | error e =>
        rw [hread] at h
        cases h
      | ok data =>
        rw [hread] at h
        dsimp only at h
        obtain rfl : data = s.input a := (read_eq_ok.mp hread).2
        split at h
        next hgcm => exact .gcm hkey haes hgcm (gcmCall_outcome h)
        next hgcm =>
          refine .block hkey haes ?_ (blockCall_outcome h)
          simp only [List.mem_cons, List.not_mem_nil, or_false] at hmodes
          rcases hmodes with hm | hm | hm
          · simp [hm]
          · simp [hm]
          · exact absurd hm hgcm

end BcryptSession

end Speakeasy
