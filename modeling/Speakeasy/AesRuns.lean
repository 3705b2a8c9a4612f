import Speakeasy.AesLaw

namespace Speakeasy

open PageEngine MemoryManager BlockModes

variable {ε : Type} [PageEngine ε]

namespace CryptSession

theorem storeAll_eq_ok {g g' : GuestMemory ε} {ws : List (Nat × List UInt8)}
    (h : storeAll g ws = (.ok (), g')) : g' = ⟨g.mgr, g.bytes.writeAll ws⟩ := by
  induction ws generalizing g with
  | nil =>
    cases h
    rfl
  | cons w ws ih =>
    obtain ⟨x, bs⟩ := w
    rw [storeAll] at h
    by_cases hmapped : g.RangeMapped x bs.length
    · rw [GuestMemory.memWrite, if_pos hmapped] at h
      exact ih h
    · rw [GuestMemory.memWrite, if_neg hmapped] at h
      cases h

end CryptSession

namespace AesReply

variable {r : AesReply}

theorem writes_nil {a : AesArgs} (hchain : r.chain = []) (hout : r.out = []) :
    r.writes a = r.sizeWrites a.pcbResult := by
  rw [writes, hchain, hout]
  rfl

theorem mem_sizeWrites {pcbResult : Nat} {w : Nat × List UInt8} (h : w ∈ r.sizeWrites pcbResult) :
    pcbResult ≠ 0 ∧ w.1 = pcbResult ∧ w.2.length = 4 := by
  unfold sizeWrites at h
  split at h
  next => cases h
  next =>
    split at h
    next => cases h
    next hne =>
      obtain rfl := List.mem_singleton.mp h
      exact ⟨hne, rfl, toBytes_length 4 _⟩

end AesReply

namespace BcryptSession

variable {arch : Arch} {upper : String → String} {aes : List UInt8 → Equiv.Perm (Block 16)}
  {s s' t t' : BcryptSession ε} {k : BcryptKey} {cbc encrypt : Bool} {data : List UInt8} {a b : AesArgs}
  {r r' : AesReply}

/-- A generated key is found under its handle, with the secret and the mode of its algorithm. -/
theorem generateSymmetricKey_getKey {g : GenerateArgs} {hnd : Nat}
    (h : s.generateSymmetricKey arch upper g = (.ok (.success, hnd), s')) (hlt : hnd < 2 ^ 32) :
    ∃ alg k, s.getContext g.hAlgorithm = some alg ∧ s'.getKey hnd = some k ∧ k.ptype = alg.ptype ∧
      k.chainingMode = some alg.chainingMode ∧
      k.blob = s.guest.bytes.readBytes g.pbSecret (g.cbSecret % 2 ^ 32) ∧
      (isAes upper alg.ptype = true → k.blob.length ∈ aesKeyLengths) := by
  unfold generateSymmetricKey at h
  cases hcontext : s.getContext g.hAlgorithm with
  | none =>
    rw [hcontext] at h
    cases h
  | some alg =>
    rw [hcontext] at h
    dsimp only at h
    split at h
    next => cases h
    next hgood =>
      cases hread : s.read g.pbSecret (g.cbSecret % 2 ^ 32) with
      | error e =>
        rw [hread] at h
        cases h
      | ok secret =>
        have hsecret := (read_eq_ok.mp hread).2
        rw [hread] at h
        dsimp only at h
        split at h
        next => cases h
        next guest hwrite =>
          cases h
          refine ⟨alg, ⟨alg.ptype, secret, some alg.chainingMode⟩, rfl, ?_, rfl, rfl, hsecret, fun haes => ?_⟩
          · have hmask : maskHandle s.allocator.allocateHandle.1 = s.allocator.allocateHandle.1 :=
              Nat.mod_eq_of_lt hlt
            unfold getKey importKey
            dsimp only
            rw [hmask, Function.update_self]
          · by_contra hlen
            rw [hsecret, ByteMemory.readBytes_length] at hlen
            exact hgood (Or.inr ⟨haes, hlen⟩)

theorem Call.reply (h : Call arch upper aes s encrypt a r s') :
    s.aesReply arch upper aes encrypt a = .ok r ∧
      s' = { s with guest := ⟨s.guest.mgr, s.guest.bytes.writeAll (r.writes a)⟩ } := by
  unfold Call aesCrypt at h
  cases hreply : s.aesReply arch upper aes encrypt a with
  | error e =>
    rw [hreply] at h
    cases h
  | ok reply =>
    rw [hreply] at h
    dsimp only at h
    cases hstore : CryptSession.storeAll s.guest (reply.writes a) with
    | mk result guest =>
      rw [hstore] at h
      cases result with
      | error e => cases h
      | ok u =>
        cases h
        rw [CryptSession.storeAll_eq_ok hstore]
        exact ⟨rfl, rfl⟩

theorem Call.outcome (h : Call arch upper aes s encrypt a r s') : AesOutcome arch upper aes s encrypt a r :=
  aesReply_outcome h.reply.1

theorem Call.bytes (h : Call arch upper aes s encrypt a r s') :
    s'.guest.bytes = s.guest.bytes.writeAll (r.writes a) := by
  rw [h.reply.2]

/-- The replies of the CBC and ECB branch. -/
theorem blockReply_cases (E : Equiv.Perm (Block 16)) (cbc encrypt : Bool) (iv data : List UInt8) (a : AesArgs) :
    let out := cryptBlocks E cbc encrypt iv data
    let text := if !encrypt && a.padding then unpad 16 out else some out
    let nextIv := lastBytes (if encrypt then out else data)
    (text = none ∧ blockReply E cbc encrypt iv data a = { status := .dataError }) ∨
    (∃ plain, text = some plain ∧ a.outputLength < plain.length ∧
      blockReply E cbc encrypt iv data a = { status := .bufferTooSmall, size := some plain.length }) ∨
    (∃ plain, text = some plain ∧ plain.length ≤ a.outputLength ∧
      blockReply E cbc encrypt iv data a =
        { status := .success
          chain := if cbc = true ∧ a.pbIV ≠ 0 ∧ nextIv ≠ [] then [(a.pbIV, nextIv)] else []
          out := plain
          size := some plain.length }) := by
  dsimp only
  unfold blockReply
  dsimp only
  cases htext : (if !encrypt && a.padding then unpad 16 (cryptBlocks E cbc encrypt iv data)
      else some (cryptBlocks E cbc encrypt iv data)) with
  | none => exact Or.inl ⟨rfl, rfl⟩
  | some plain =>
    dsimp only
    by_cases hsmall : a.outputLength < plain.length
    · rw [if_pos hsmall]
      exact Or.inr (Or.inl ⟨plain, rfl, hsmall, rfl⟩)
    · rw [if_neg hsmall]
      exact Or.inr (Or.inr ⟨plain, rfl, Nat.not_lt.mp hsmall, rfl⟩)

/-- A call that fails writes at most the size. -/
theorem AesOutcome.failure (h : AesOutcome arch upper aes s encrypt a r) (hfail : r.status ≠ .success) :
    r.chain = [] ∧ r.out = [] := by
  cases h with
  | noKey _ => exact ⟨rfl, rfl⟩
  | notAes _ _ => exact ⟨rfl, rfl⟩
  | gcm _ _ _ h =>
    cases h with
    | refused _ => exact ⟨rfl, rfl⟩
    | query _ _ => exact absurd rfl hfail
    | encrypted _ _ _ _ _ => exact absurd rfl hfail
    | decrypted _ _ _ _ _ _ _ => exact absurd rfl hfail
  | block _ _ _ h =>
    cases h with
    | badLength _ => exact ⟨rfl, rfl⟩
    | query _ _ => exact absurd rfl hfail
    | badIv _ _ _ => exact ⟨rfl, rfl⟩
    | crypt hlen hout hiv hkey =>
      rcases blockReply_cases (aes _) _ encrypt (s.blockIv _ a) (cbcData encrypt a.padding (s.input a)) a with
        ⟨_, hr⟩ | ⟨_, _, _, hr⟩ | ⟨_, _, _, hr⟩
      · rw [hr]
        exact ⟨rfl, rfl⟩
      · rw [hr]
        exact ⟨rfl, rfl⟩
      · rw [hr] at hfail
        exact absurd rfl hfail

theorem Call.failure (h : Call arch upper aes s encrypt a r s') (hfail : r.status ≠ .success) {x : Nat}
    (hx : a.pcbResult ≠ 0 → x < a.pcbResult ∨ a.pcbResult + 4 ≤ x) : s'.guest.bytes x = s.guest.bytes x := by
  obtain ⟨hchain, hout⟩ := h.outcome.failure hfail
  rw [h.bytes, AesReply.writes_nil hchain hout]
  apply ByteMemory.writeAll_outside
  intro w hw
  obtain ⟨hne, haddr, hlen⟩ := AesReply.mem_sizeWrites hw
  rw [haddr, hlen]
  exact hx hne

/-- What a call writes to its output is there after it. -/
theorem Call.output (h : Call arch upper aes s encrypt a r s')
    (hapart : a.pcbResult ≠ 0 → CryptHistory.Apart a.pbOutput r.out.length a.pcbResult 4) :
    s'.guest.bytes.readBytes a.pbOutput r.out.length = r.out := by
  rw [h.bytes, AesReply.writes, ByteMemory.writeAll_append, ByteMemory.writeAll_append,
    ByteMemory.readBytes_writeAll_of_apart]
  · by_cases hempty : r.out = []
    · rw [hempty]
      rfl
    · rw [if_neg hempty]
      exact ByteMemory.readBytes_writeBytes_self _ _ _
  · intro w hw
    obtain ⟨hne, haddr, hlen⟩ := AesReply.mem_sizeWrites hw
    rw [haddr, hlen]
    exact hapart hne

/-- The output pointer decides only where the output is written. -/
theorem aesReply_output {p : Nat} (hout : a.pbOutput ≠ 0) (hp : p ≠ 0) :
    s.aesReply arch upper aes encrypt { a with pbOutput := p } = s.aesReply arch upper aes encrypt a := by
  have hgcm : ∀ k data, s.gcmCall arch aes k encrypt data { a with pbOutput := p } =
      s.gcmCall arch aes k encrypt data a := by
    intro k data
    unfold gcmCall
    simp only [if_neg hout, if_neg hp]
    rfl
  have hblock : ∀ k cbc data, s.blockCall aes k cbc encrypt data { a with pbOutput := p } =
      s.blockCall aes k cbc encrypt data a := by
    intro k cbc data
    unfold blockCall
    simp only [if_neg hout, if_neg hp]
    rfl
  unfold aesReply
  simp only [hgcm, hblock]
  rfl

/-- The branch of a GCM key. -/
theorem Call.gcmCall (h : Call arch upper aes s encrypt a r s') (hkey : s.getKey a.hKey = some k)
    (haes : isAes upper k.ptype = true) (hmode : k.chainingMode = some .gcm) :
    s.gcmCall arch aes k encrypt (s.input a) a = .ok r := by
  have hreply := h.reply.1
  have hsupported : ¬(isAes upper k.ptype = false ∨ k.chainingMode ∉ [some .cbc, some .ecb, some .gcm]) := by
    rw [haes, hmode]
    decide
  unfold aesReply at hreply
  rw [hkey] at hreply
  dsimp only at hreply
  rw [if_neg hsupported] at hreply
  cases hread : s.read a.pbInput a.inputLength with
  | error e =>
    rw [hread] at hreply
    cases hreply
  | ok data =>
    rw [hread] at hreply
    dsimp only at hreply
    rw [if_pos hmode, (read_eq_ok.mp hread).2] at hreply
    exact hreply

/-- The branch of a CBC or ECB key. -/
theorem Call.blockCall (h : Call arch upper aes s encrypt a r s') (hkey : s.getKey a.hKey = some k)
    (haes : isAes upper k.ptype = true) (hmode : k.chainingMode = some (if cbc then .cbc else .ecb)) :
    s.blockCall aes k cbc encrypt (s.input a) a = .ok r := by
  have hreply := h.reply.1
  have hsupported : ¬(isAes upper k.ptype = false ∨ k.chainingMode ∉ [some .cbc, some .ecb, some .gcm]) := by
    rw [haes, hmode]
    cases cbc <;> decide
  have hgcm : k.chainingMode ≠ some .gcm := by
    rw [hmode]
    cases cbc <;> decide
  have hcbc : decide (k.chainingMode = some .cbc) = cbc := by
    rw [hmode]
    cases cbc <;> decide
  unfold aesReply at hreply
  rw [hkey] at hreply
  dsimp only at hreply
  rw [if_neg hsupported] at hreply
  cases hread : s.read a.pbInput a.inputLength with
  | error e =>
    rw [hread] at hreply
    cases hreply
  | ok data =>
    rw [hread] at hreply
    dsimp only at hreply
    rw [if_neg hgcm, hcbc, (read_eq_ok.mp hread).2] at hreply
    exact hreply

theorem gcmCall_query {x : AuthInfo} (hx : AuthGood arch s a x) :
    s.gcmCall arch aes k encrypt data { a with pbOutput := 0 } =
      .ok { status := .success, size := some data.length } := by
  have hchecks : ¬(x.nonce.length ≠ 12 ∨ ¬(12 ≤ x.tagLength ∧ x.tagLength ≤ 16)) := by
    rw [hx.nonce]
    exact fun h => h.elim (fun h => h rfl) fun h => h hx.tagLength
  have hflags : ¬x.flags.testBit 0 = true := Bool.eq_false_iff.mp hx.flags
  rw [BcryptSession.gcmCall, if_neg hx.pointer]
  simp only [hx.read]
  rw [if_neg hflags, if_neg hchecks, if_pos trivial]

theorem blockCall_query (hlen : (cbcData encrypt a.padding data).length % 16 = 0) :
    s.blockCall aes k cbc encrypt data { a with pbOutput := 0 } =
      .ok { status := .success, size := some (cbcData encrypt a.padding data).length } := by
  have hwhole : ¬(cbcData encrypt a.padding data).length % 16 ≠ 0 := not_not.mpr hlen
  unfold BcryptSession.blockCall
  change (if (cbcData encrypt a.padding data).length % 16 ≠ 0 then _ else _) = _
  rw [if_neg hwhole, if_pos rfl]
  rfl

/-- The size that a query writes. -/
theorem Call.query {n : Nat} (h : Call arch upper aes s encrypt a { status := .success, size := some n } s')
    (hresult : a.pcbResult ≠ 0) (hn : n < 2 ^ 32) : s'.guest.bytes.readInt a.pcbResult 4 = n := by
  have hwrites : AesReply.writes { status := .success, size := some n } a = [(a.pcbResult, toBytes 4 n)] := by
    simp only [AesReply.writes, AesReply.sizeWrites, if_neg hresult]
    rfl
  have hread := ByteMemory.readBytes_writeBytes_self s.guest.bytes a.pcbResult (toBytes 4 n)
  rw [toBytes_length] at hread
  rw [h.bytes, hwrites]
  show fromBytes ((s.guest.bytes.writeBytes a.pcbResult (toBytes 4 n)).readBytes a.pcbResult 4) = n
  rw [hread, fromBytes_toBytes_of_lt hn]

omit [PageEngine ε] in
theorem input_length (s : BcryptSession ε) (a : AesArgs) : (s.input a).length = a.inputLength :=
  ByteMemory.readBytes_length ..

theorem inputLength_lt (a : AesArgs) : a.inputLength < 2 ^ 32 := Nat.mod_lt _ (by decide)

theorem outputLength_lt (a : AesArgs) : a.outputLength < 2 ^ 32 := Nat.mod_lt _ (by decide)

/-- The text of a CBC or ECB call, and the size that a query gives. -/
theorem blockText_length {E : Equiv.Perm (Block 16)} {iv plain : List UInt8} (hlen : data.length % 16 = 0)
    (h : (if !encrypt && a.padding then unpad 16 (cryptBlocks E cbc encrypt iv data)
      else some (cryptBlocks E cbc encrypt iv data)) = some plain) :
    plain.length ≤ data.length ∧ (encrypt = true → plain.length = data.length) := by
  have hsame := cryptBlocks_length E cbc encrypt iv hlen
  split at h
  next hunpad =>
    have hle := unpad_length h
    rw [hsame] at hle
    refine ⟨hle, fun henc => ?_⟩
    rw [henc] at hunpad
    cases hunpad
  next hkeep =>
    cases h
    exact ⟨Nat.le_of_eq hsame, fun _ => hsame⟩

/-- A query keeps the input, the key and the mode of a call, unless it fails, and then it keeps the memory too. -/
theorem Call.queryKeeps {q : AesReply} (hq : Call arch upper aes s encrypt { a with pbOutput := 0 } q s') :
    s'.getKey = s.getKey ∧ (s'.input a).length = (s.input a).length ∧ (q.status ≠ .success → q.size = none → s' = s) := by
  have hstate := hq.reply.2
  refine ⟨by rw [hstate]; rfl, by rw [input_length, input_length], fun hfail hnone => ?_⟩
  obtain ⟨hchain, hout⟩ := hq.outcome.failure hfail
  rw [hstate, AesReply.writes_nil hchain hout, AesReply.sizeWrites, hnone]
  rfl

theorem cbcData_length {padding : Bool} {other : List UInt8} (h : other.length = data.length) :
    (cbcData encrypt padding other).length = (cbcData encrypt padding data).length := by
  unfold cbcData
  split
  next => rw [pad_length, pad_length, h]
  next => exact h

theorem Call.sizes {q : AesReply} (hq : Call arch upper aes s encrypt { a with pbOutput := 0 } q s')
    {s'' : BcryptSession ε} (h : Call arch upper aes s' encrypt a r s'') (hout : a.pbOutput ≠ 0)
    (hresult : a.pcbResult ≠ 0) (hsuccess : r.status = .success) :
    q.status = .success ∧ r.out.length ≤ s'.guest.bytes.readInt a.pcbResult 4 ∧
      (encrypt = true → s'.guest.bytes.readInt a.pcbResult 4 = r.out.length) := by
  obtain ⟨hkeys, hinputs, hkept⟩ := hq.queryKeeps
  have hinput : (s.input a).length < 2 ^ 32 := (input_length s a).symm ▸ inputLength_lt a
  cases h.outcome with
  | noKey _ => cases hsuccess
  | notAes _ _ => cases hsuccess
  | gcm hkey haes hmode h =>
    rw [hkeys] at hkey
    have hcall := hq.gcmCall hkey haes hmode
    have hlength : ∀ {x : AuthInfo}, AuthGood arch s' a x →
        q.status = .success ∧ s'.guest.bytes.readInt a.pcbResult 4 = (s'.input a).length := by
      intro x hx
      cases gcmCall_outcome hcall with
      | @refused status hstatus =>
        rw [hkept hstatus rfl] at hx
        rw [show s.input { a with pbOutput := 0 } = s.input a from rfl, gcmCall_query hx] at hcall
        cases hcall
      | query _ _ => exact ⟨rfl, (hq.query hresult hinput).trans hinputs.symm⟩
      | encrypted _ hnone _ _ _ => exact absurd rfl hnone
      | decrypted _ hnone _ _ _ _ _ => exact absurd rfl hnone
    cases h with
    | refused hstatus => exact absurd hsuccess hstatus
    | query _ hquery => exact absurd hquery hout
    | encrypted hx _ _ _ _ =>
      obtain ⟨hq, hsize⟩ := hlength hx
      refine ⟨hq, ?_⟩
      show (gctr _ _ 2 (s'.input a)).length ≤ _ ∧ (encrypt = true → _ = (gctr _ _ 2 (s'.input a)).length)
      rw [hsize, gctr_length]
      exact ⟨Nat.le_refl _, fun _ => rfl⟩
    | decrypted hx _ _ _ henc _ hdec =>
      obtain ⟨hq, hsize⟩ := hlength hx
      refine ⟨hq, ?_⟩
      unfold gcmDecrypt at hdec
      split at hdec
      next =>
        cases hdec
        rw [hsize, gctr_length]
        exact ⟨Nat.le_refl _, fun _ => rfl⟩
      next => cases hdec
  | block hkey haes hmode h =>
    rw [hkeys] at hkey
    cases h with
    | badLength _ => cases hsuccess
    | query _ hquery => exact absurd hquery hout
    | badIv _ _ _ => cases hsuccess
    | @crypt hlen _ hiv hblob =>
      have hsame := @cbcData_length encrypt (s.input a) a.padding _ hinputs
      have hcall := hq.blockCall hkey haes hmode
      rw [show s.input { a with pbOutput := 0 } = s.input a from rfl, blockCall_query (hsame ▸ hlen)] at hcall
      cases hcall
      rcases blockReply_cases (aes _) _ encrypt (s'.blockIv _ a) (cbcData encrypt a.padding (s'.input a)) a with
        ⟨_, hr⟩ | ⟨_, _, _, hr⟩ | ⟨plain, htext, hroom, hr⟩
      · rw [hr] at hsuccess
        cases hsuccess
      · rw [hr] at hsuccess
        cases hsuccess
      · obtain ⟨hle, heq⟩ := blockText_length hlen htext
        have hbound : (cbcData encrypt a.padding (s.input a)).length < 2 ^ 32 := by
          cases encrypt with
          | true =>
            rw [← hsame, ← heq rfl]
            exact Nat.lt_of_le_of_lt hroom (outputLength_lt a)
          | false => exact hinput
        rw [hq.query hresult hbound, hr, ← hsame]
        exact ⟨rfl, hle, fun henc => (heq henc).symm⟩

theorem gcmCall_accepted {x : AuthInfo} (hx : GcmAccepted arch aes s k encrypt a x)
    (h : s.gcmCall arch aes k encrypt (s.input a) a = .ok r) : r.status = .success := by
  have hchecks : ¬(x.nonce.length ≠ 12 ∨ ¬(12 ≤ x.tagLength ∧ x.tagLength ≤ 16)) := by
    rw [hx.auth.nonce]
    exact fun h => h.elim (fun h => h rfl) fun h => h hx.auth.tagLength
  have hflags : ¬x.flags.testBit 0 = true := Bool.eq_false_iff.mp hx.auth.flags
  rw [BcryptSession.gcmCall, if_neg hx.auth.pointer] at h
  simp only [hx.auth.read] at h
  rw [if_neg hflags, if_neg hchecks] at h
  split at h
  next =>
    cases h
    rfl
  next hout =>
    rw [if_neg (Nat.not_lt.mpr (hx.room hout))] at h
    cases hnew : aesNew aes k.blob with
    | error e =>
      rw [hnew] at h
      cases h
    | ok E =>
      rw [hnew] at h
      obtain ⟨-, rfl⟩ := aesNew_eq_ok.mp hnew
      dsimp only at h
      split at h
      next =>
        cases h
        rfl
      next henc =>
        cases hread : s.read x.tag x.tagLength with
        | error e =>
          rw [hread] at h
          cases h
        | ok tag =>
          rw [hread] at h
          have htag := (read_eq_ok.mp hread).2.trans (hx.tag hout (Bool.eq_false_iff.mpr henc))
          have hplain : gcmDecrypt (aes k.blob) x.nonce x.aad x.tagLength (s.input a) tag =
              some (gctr (aes k.blob) x.nonce 2 (s.input a)) := if_pos htag
          simp only [hplain] at h
          cases h
          rfl

theorem blockCall_accepted (hx : BlockAccepted aes s k cbc encrypt a)
    (h : s.blockCall aes k cbc encrypt (s.input a) a = .ok r) : r.status = .success := by
  have hwhole : (cbcData encrypt a.padding (s.input a)).length % 16 = 0 := by
    unfold cbcData
    split
    next => exact pad_mod (by decide) _
    next hkeep =>
      rcases hx.whole with hpad | hlen
      · exact absurd (Bool.and_eq_true_iff.mpr hpad) hkeep
      · exact hlen
  cases blockCall_outcome h with
  | badLength hlen => exact absurd hwhole hlen
  | query _ _ => rfl
  | badIv hcbc hbuffer hiv =>
    by_cases hout : a.pbOutput = 0
    · have hcall := @blockCall_query ε _ aes s k cbc encrypt (s.input a) a hwhole
      rw [show ({ a with pbOutput := 0 } : AesArgs) = a by rw [← hout], h] at hcall
      cases hcall
    · exact absurd (hx.iv hout hcbc hbuffer) hiv
  | crypt hlen hout _ _ =>
    rcases blockReply_cases (aes k.blob) cbc encrypt (s.blockIv cbc a) (cbcData encrypt a.padding (s.input a)) a with
      ⟨hnone, -⟩ | ⟨plain, htext, hlong, -⟩ | ⟨_, _, _, hr⟩
    · split at hnone
      next hunpad =>
        rw [Bool.and_eq_true, Bool.not_eq_true'] at hunpad
        obtain ⟨text, -, htext⟩ := hx.padded hout hunpad.1 hunpad.2
        rw [cbcData, hunpad.1, Bool.false_and, if_neg Bool.false_ne_true, blockIv, ← htext,
          unpad_pad (by decide) (by decide)] at hnone
        cases hnone
      next => cases hnone
    · split at htext
      next hunpad =>
        rw [Bool.and_eq_true, Bool.not_eq_true'] at hunpad
        obtain ⟨text, hroom, hpadded⟩ := hx.padded hout hunpad.1 hunpad.2
        rw [cbcData, hunpad.1, Bool.false_and, if_neg Bool.false_ne_true, blockIv, ← hpadded,
          unpad_pad (by decide) (by decide)] at htext
        cases htext
        omega
      next hkeep =>
        cases htext
        have hplain : encrypt = true ∨ a.padding = false := by
          cases encrypt with
          | true => exact Or.inl rfl
          | false => exact Or.inr (by simpa using hkeep)
        have hroom := hx.room hout hplain
        rw [cryptBlocks_length _ _ _ _ hwhole] at hlong
        omega
    · rw [hr]

omit [PageEngine ε] in
theorem BlockOutcome.accepted (h : BlockOutcome aes s k cbc encrypt (s.input a) a r) (hsuccess : r.status = .success) :
    BlockAccepted aes s k cbc encrypt a := by
  have hwhole : (cbcData encrypt a.padding (s.input a)).length % 16 = 0 →
      encrypt = true ∧ a.padding = true ∨ (s.input a).length % 16 = 0 := by
    intro hlen
    unfold cbcData at hlen
    split at hlen
    next hpad => exact Or.inl (Bool.and_eq_true_iff.mp hpad)
    next => exact Or.inr hlen
  cases h with
  | badLength _ => cases hsuccess
  | query hlen hout =>
    exact ⟨hwhole hlen, fun h => absurd hout h, fun h => absurd hout h, fun h => absurd hout h⟩
  | badIv _ _ _ => cases hsuccess
  | crypt hlen hout hiv _ =>
    rcases blockReply_cases (aes k.blob) cbc encrypt (s.blockIv cbc a) (cbcData encrypt a.padding (s.input a)) a with
      ⟨_, hr⟩ | ⟨_, _, _, hr⟩ | ⟨plain, htext, hroom, -⟩
    · rw [hr] at hsuccess
      cases hsuccess
    · rw [hr] at hsuccess
      cases hsuccess
    · refine ⟨hwhole hlen, fun _ => hiv, fun _ hplain => ?_, fun _ henc hpad => ?_⟩
      · have hkeep : ¬(!encrypt && a.padding) = true := by
          rcases hplain with rfl | hpad
          · simp
          · simp [hpad]
        rw [if_neg hkeep] at htext
        cases htext
        rwa [cryptBlocks_length _ _ _ _ hlen] at hroom
      · have hunpad : (!encrypt && a.padding) = true := by rw [henc, hpad]; rfl
        rw [if_pos hunpad] at htext
        have hpadded := pad_of_unpad htext
        rw [cbcData, henc, Bool.false_and, if_neg Bool.false_ne_true] at hpadded
        exact ⟨plain, hroom, hpadded⟩

/-- A call that returns succeeds exactly when it is accepted. -/
theorem Call.succeeds (h : Call arch upper aes s encrypt a r s') :
    r.status = .success ↔ Accepted arch upper aes s encrypt a := by
  constructor
  · intro hsuccess
    cases h.outcome with
    | noKey _ => cases hsuccess
    | notAes _ _ => cases hsuccess
    | gcm hkey haes hmode h =>
      refine ⟨_, hkey, haes, Or.inl ⟨hmode, ?_⟩⟩
      cases h with
      | refused hstatus => exact absurd hsuccess hstatus
      | query hx hout => exact ⟨_, hx, fun h => absurd hout h, fun h => absurd hout h⟩
      | encrypted hx _ hroom _ henc =>
        refine ⟨_, hx, fun _ => hroom, fun _ hdec => ?_⟩
        rw [henc] at hdec
        cases hdec
      | decrypted hx _ hroom _ _ htag hdec =>
        refine ⟨_, hx, fun _ => hroom, fun _ _ => ?_⟩
        unfold gcmDecrypt at hdec
        split at hdec
        next hsame => exact htag.symm.trans hsame
        next => cases hdec
    | block hkey haes hmode h => exact ⟨_, hkey, haes, Or.inr ⟨_, hmode, h.accepted hsuccess⟩⟩
  · rintro ⟨k, hkey, haes, ⟨hmode, x, hx⟩ | ⟨cbc, hmode, hx⟩⟩
    · exact gcmCall_accepted hx (h.gcmCall hkey haes hmode)
    · exact blockCall_accepted hx (h.blockCall hkey haes hmode)

end BcryptSession

end Speakeasy
