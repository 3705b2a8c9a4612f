import Speakeasy.AesRuns
import Mathlib.Logic.Equiv.Basic
import Mathlib.Data.Fintype.Basic

namespace Speakeasy

open PageEngine MemoryManager BlockModes

variable {ε : Type} [PageEngine ε]

namespace BcryptSession

variable {arch : Arch} {upper : String → String} {aes : List UInt8 → Equiv.Perm (Block 16)}
  {s s' t t' : BcryptSession ε} {k : BcryptKey} {cbc encrypt : Bool} {data : List UInt8} {a b : AesArgs}
  {r r' : AesReply}

theorem Call.undoes_gcm (h' : Call arch upper aes t false b r' t') {x y : AuthInfo}
    (hkey : t.getKey b.hKey = some k) (haes : isAes upper k.ptype = true) (hmode : k.chainingMode = some .gcm)
    (hblob : k.blob.length ∈ aesKeyLengths) (hx : AuthGood arch s a x)
    (hinput : t.input b = (gcmEncrypt (aes k.blob) x.nonce x.aad x.tagLength data).1)
    (hout : b.pbOutput ≠ 0) (hroom : data.length ≤ b.outputLength)
    (hauth : SameAuth arch s a r t b x y)
    (hchain : r.chain = [(x.tag, (gcmEncrypt (aes k.blob) x.nonce x.aad x.tagLength data).2)]) :
    r'.status = .success ∧ r'.out = data := by
  have hcall := h'.gcmCall hkey haes hmode
  have hlen : (t.input b).length = data.length := by
    rw [hinput]
    exact gctr_length ..
  have hflags : ¬y.flags.testBit 0 = true := Bool.eq_false_iff.mp hauth.flags
  have hchecks : ¬(y.nonce.length ≠ 12 ∨ ¬(12 ≤ y.tagLength ∧ y.tagLength ≤ 16)) := by
    rw [hauth.nonce, hauth.tagLength, hx.nonce]
    exact fun h => h.elim (fun h => h rfl) fun h => h hx.tagLength
  have hlarge : ¬b.outputLength < (t.input b).length := by omega
  rw [BcryptSession.gcmCall, if_neg hauth.pointer, hauth.second] at hcall
  dsimp only at hcall
  rw [if_neg hflags, if_neg hchecks, if_neg hout, if_neg hlarge, aesNew_eq_ok.mpr ⟨hblob, rfl⟩] at hcall
  dsimp only at hcall
  rw [if_neg (by decide)] at hcall
  cases hread : t.read y.tag y.tagLength with
  | error e =>
    rw [hread] at hcall
    cases hcall
  | ok tag =>
    rw [hread] at hcall
    have htag : tag = (gcmEncrypt (aes k.blob) x.nonce x.aad x.tagLength data).2 := by
      rw [(read_eq_ok.mp hread).2]
      exact hauth.tag _ (hchain ▸ List.mem_singleton.mpr rfl)
    have hdec : gcmDecrypt (aes k.blob) y.nonce y.aad y.tagLength (t.input b) tag = some data := by
      rw [htag, hinput, hauth.nonce, hauth.aad, hauth.tagLength, gcmDecrypt_gcmEncrypt]
    dsimp only at hcall
    rw [hdec] at hcall
    cases hcall
    exact ⟨rfl, rfl⟩

theorem Call.undoes_block (h' : Call arch upper aes t false b r' t') (hkey : t.getKey b.hKey = some k)
    (haes : isAes upper k.ptype = true) (hmode : k.chainingMode = some (if cbc then .cbc else .ecb))
    (hlen : (cbcData true a.padding data).length % 16 = 0)
    (hinput : t.input b = cryptBlocks (aes k.blob) cbc true (t.blockIv cbc b) (cbcData true a.padding data))
    (hout : b.pbOutput ≠ 0) (hroom : data.length ≤ b.outputLength) (hpadding : b.padding = a.padding)
    (hiv : cbc = true → b.pbIV ≠ 0 → b.ivLength = 16) :
    r'.status = .success ∧ r'.out = data := by
  have hwhole : (t.input b).length % 16 = 0 := by rw [hinput, cryptBlocks_length _ _ _ _ hlen, hlen]
  have htext : (if !false && b.padding then unpad 16 (cryptBlocks (aes k.blob) cbc false (t.blockIv cbc b) (t.input b))
      else some (cryptBlocks (aes k.blob) cbc false (t.blockIv cbc b) (t.input b))) = some data := by
    rw [hinput, cryptBlocks_cancel _ _ _ hlen, hpadding]
    unfold cbcData
    cases a.padding with
    | true => exact unpad_pad (by decide) (by decide) data
    | false => rfl
  cases blockCall_outcome (h'.blockCall hkey haes hmode) with
  | badLength hbad => exact absurd hwhole hbad
  | query _ hquery => exact absurd hquery hout
  | badIv hcbc hbuffer hbad => exact absurd (hiv hcbc hbuffer) hbad
  | crypt _ _ _ _ =>
    rcases blockReply_cases (aes k.blob) cbc false (t.blockIv cbc b) (t.input b) b with
      ⟨hnone, _⟩ | ⟨plain, hplain, hsmall, _⟩ | ⟨plain, hplain, _, hr⟩
    · rw [htext] at hnone
      cases hnone
    · rw [htext] at hplain
      cases hplain
      exact absurd hsmall (Nat.not_lt.mpr hroom)
    · rw [htext] at hplain
      cases hplain
      show (blockReply _ _ _ _ (t.input b) b).status = _ ∧ (blockReply _ _ _ _ (t.input b) b).out = _
      rw [hr]
      exact ⟨rfl, rfl⟩

theorem Call.undoes (h : Call arch upper aes s true a r s') (hsuccess : r.status = .success)
    (hout : a.pbOutput ≠ 0) (h' : Call arch upper aes t false b r' t') (hrev : Reverses arch s a r t b) :
    r'.status = .success ∧ r'.out = s.input a := by
  cases h.outcome with
  | noKey _ => cases hsuccess
  | notAes _ _ => cases hsuccess
  | @gcm k _ hkey haes hmode h =>
    have hgcm : s.mode a = some .gcm := by rw [mode, hkey, Option.bind_some, hmode]
    obtain ⟨x', y, hauth⟩ := hrev.auth hgcm
    cases h with
    | refused hstatus => exact absurd hsuccess hstatus
    | query _ hquery => exact absurd hquery hout
    | @encrypted x hx _ _ hblob _ =>
      obtain rfl : x' = x := Except.ok.inj (hauth.first.symm.trans hx.read)
      exact h'.undoes_gcm (hrev.key.trans hkey) haes hmode hblob hx hrev.input hrev.output hrev.room hauth rfl
    | decrypted _ _ _ _ henc _ _ => cases henc
  | @block k _ cbc hkey haes hmode h =>
    cases h with
    | badLength _ => cases hsuccess
    | query _ hquery => exact absurd hquery hout
    | badIv _ _ _ => cases hsuccess
    | crypt hlen _ hiv hblob =>
      have hsame : cbc = true → t.iv b = s.iv a ∧ (b.pbIV ≠ 0 → b.ivLength = 16) := by
        intro hcbc
        refine hrev.iv ?_
        rw [mode, hkey, Option.bind_some, hmode, hcbc]
        rfl
      have hblockIv : t.blockIv cbc b = s.blockIv cbc a := by
        unfold blockIv
        cases cbc with
        | true => exact (hsame rfl).1
        | false => rfl
      rcases blockReply_cases (aes k.blob) cbc true (s.blockIv cbc a) (cbcData true a.padding (s.input a)) a with
        ⟨_, hr⟩ | ⟨_, _, _, hr⟩ | ⟨plain, htext, _, hr⟩
      · rw [hr] at hsuccess
        cases hsuccess
      · rw [hr] at hsuccess
        cases hsuccess
      · obtain rfl := Option.some.inj htext
        have hinput := hrev.input
        rw [hr, ← hblockIv] at hinput
        exact h'.undoes_block (hrev.key.trans hkey) haes hmode hlen hinput hrev.output hrev.room hrev.padding
          fun hcbc => (hsame hcbc).2

theorem CbcCall.notAes (h : CbcCall arch upper aes k encrypt s a r s') (haes : isAes upper k.ptype = false) :
    r.status ≠ .success := by
  cases h.call.outcome with
  | noKey _ => decide
  | notAes _ _ => decide
  | gcm hkey htrue _ _ =>
    obtain rfl := Option.some.inj (h.key.symm.trans hkey)
    rw [haes] at htrue
    cases htrue
  | block hkey htrue _ _ =>
    obtain rfl := Option.some.inj (h.key.symm.trans hkey)
    rw [haes] at htrue
    cases htrue

/-- The IV buffer after a call. -/
theorem CbcCall.nextIv (h : CbcCall arch upper aes k encrypt s a r s') {text : List UInt8}
    (htext : text.length % 16 = 0)
    (hchain : r.chain = if lastBytes text ≠ [] then [(a.pbIV, lastBytes text)] else []) :
    s'.guest.bytes.readBytes a.pbIV 16 = chainIv (s.guest.bytes.readBytes a.pbIV 16) text := by
  have hrest : ∀ m : ByteMemory, (m.writeAll ((if r.out = [] then [] else [(a.pbOutput, r.out)]) ++
      r.sizeWrites a.pcbResult)).readBytes a.pbIV 16 = m.readBytes a.pbIV 16 := by
    intro m
    apply ByteMemory.readBytes_writeAll_of_apart
    intro w hw
    rcases List.mem_append.mp hw with hw | hw
    · split at hw
      next => cases hw
      next =>
        obtain rfl := List.mem_singleton.mp hw
        exact h.apart
    · obtain ⟨hne, haddr, hlen⟩ := AesReply.mem_sizeWrites hw
      rw [haddr, hlen]
      exact h.sizeApart hne
  rw [h.call.bytes, AesReply.writes, List.append_assoc, ByteMemory.writeAll_append, hrest, hchain, chainIv]
  by_cases hempty : lastBytes text = []
  · rw [if_neg (not_not.mpr hempty), if_pos hempty]
    rfl
  · have hne : text ≠ [] := fun hnil => hempty ((lastBytes_eq_nil htext).mpr hnil)
    have hself := ByteMemory.readBytes_writeBytes_self s.guest.bytes a.pbIV (lastBytes text)
    rw [lastBytes_length htext hne] at hself
    rw [if_pos hempty, if_neg hempty]
    exact hself

/-- What a CBC call writes, and the IV that it leaves. -/
theorem CbcCall.text (h : CbcCall arch upper aes k encrypt s a r s') (hmode : k.chainingMode = some .cbc)
    (haes : isAes upper k.ptype = true) :
    (cbcText (aes k.blob) encrypt a.padding (s.guest.bytes.readBytes a.pbIV 16) (s.input a) = none ∧
      r.status ≠ .success) ∨
    (cbcText (aes k.blob) encrypt a.padding (s.guest.bytes.readBytes a.pbIV 16) (s.input a) = some r.out ∧
      r.status = .success ∧ s'.guest.bytes.readBytes a.pbIV 16 =
        cbcIv (aes k.blob) encrypt a.padding (s.guest.bytes.readBytes a.pbIV 16) (s.input a)) := by
  have hcall : s.blockCall aes k true encrypt (s.input a) a = .ok r := h.call.blockCall h.key haes hmode
  have hiv : s.blockIv true a = s.guest.bytes.readBytes a.pbIV 16 := if_neg h.buffer
  unfold cbcText
  cases blockCall_outcome hcall with
  | badLength hlen =>
    left
    rw [if_pos hlen]
    exact ⟨rfl, by decide⟩
  | query _ hquery => exact absurd hquery h.output
  | badIv _ _ hbad => exact absurd h.length hbad
  | crypt hlen _ _ _ =>
    rw [if_neg (not_not.mpr hlen)]
    have hcases := blockReply_cases (aes k.blob) true encrypt (s.blockIv true a)
      (cbcData encrypt a.padding (s.input a)) a
    rw [hiv] at hcases h ⊢
    rcases hcases with ⟨hnone, hr⟩ | ⟨plain, _, _, hr⟩ | ⟨plain, htext, _, hr⟩
    · left
      rw [hr]
      exact ⟨hnone, by decide⟩
    · exact absurd (by rw [hr]) h.room
    · right
      have hwhole : (if encrypt then cryptBlocks (aes k.blob) true encrypt (s.guest.bytes.readBytes a.pbIV 16)
          (cbcData encrypt a.padding (s.input a)) else cbcData encrypt a.padding (s.input a)).length % 16 = 0 := by
        split
        next => rw [cryptBlocks_length _ _ _ _ hlen, hlen]
        next => exact hlen
      have hnext := h.nextIv hwhole (by
        rw [hr]
        simp only [h.buffer, ne_eq, not_false_eq_true, true_and])
      rw [hr]
      exact ⟨htext, rfl, hnext⟩

/-- A split whose chunks the calls take as one message. -/
def Joins (encrypt padding : Bool) (chunks : List (List UInt8)) : Prop :=
  encrypt = false → padding = true → chunks.getLast? = some [] → chunks.flatten = []

theorem Joins.tail {padding : Bool} {c d : List UInt8} {chunks : List (List UInt8)}
    (h : Joins encrypt padding (c :: d :: chunks)) : Joins encrypt padding (d :: chunks) := by
  intro henc hpad hlast
  have hall := h henc hpad (by rw [List.getLast?_cons_cons]; exact hlast)
  rw [List.flatten_cons] at hall
  exact (List.append_eq_nil_iff.mp hall).2

/-- Only an empty message has empty bytes after its first chunk. -/
theorem Joins.head {padding : Bool} {c d : List UInt8} {chunks : List (List UInt8)}
    (h : Joins encrypt padding (c :: d :: chunks)) (henc : encrypt = false) (hpad : padding = true)
    (hrest : (d :: chunks).flatten = []) : c = [] := by
  have hmem : (d :: chunks).getLast (List.cons_ne_nil d chunks) ∈ d :: chunks := List.getLast_mem _
  have hempty := List.flatten_eq_nil_iff.mp hrest _ hmem
  have hlast : (c :: d :: chunks).getLast? = some [] := by
    rw [List.getLast?_cons_cons, List.getLast?_eq_some_getLast (List.cons_ne_nil d chunks), hempty]
  have hall := h henc hpad hlast
  rw [List.flatten_cons] at hall
  exact (List.append_eq_nil_iff.mp hall).1

theorem ChunkRun.iv_nil {pbIV : Nat} {iv iv' : List UInt8} {calls : List ChunkCall}
    (run : ChunkRun arch upper aes ε k encrypt pbIV iv calls iv') (h : calls = []) : iv' = iv := by
  cases run with
  | nil _ => rfl
  | call _ _ _ => cases h

/-- The calls of a run on a split of a message write what one call writes. -/
theorem ChunkRun.text {pbIV : Nat} {iv iv' : List UInt8} {calls : List ChunkCall} {padding : Bool}
    (run : ChunkRun arch upper aes ε k encrypt pbIV iv calls iv') (hmode : k.chainingMode = some .cbc)
    (haes : isAes upper k.ptype = true) (hsplit : Split padding calls)
    (hjoins : Joins encrypt padding (calls.map ChunkCall.chunk)) :
    (cbcText (aes k.blob) encrypt padding iv (calls.map ChunkCall.chunk).flatten = none ∧
      ¬∀ c ∈ calls, c.reply.status = .success) ∨
    (cbcText (aes k.blob) encrypt padding iv (calls.map ChunkCall.chunk).flatten =
        some (calls.map fun c => c.reply.out).flatten ∧
      (∀ c ∈ calls, c.reply.status = .success) ∧
      iv' = cbcIv (aes k.blob) encrypt padding iv (calls.map ChunkCall.chunk).flatten) := by
  induction run with
  | nil iv => cases hsplit
  | @call s s' a r calls iv h hiv rest ih =>
    subst hiv
    have hcall := h.text hmode haes
    cases calls with
    | nil =>
      have hlast := rest.iv_nil rfl
      have hpadding : a.padding = padding := hsplit
      rw [hpadding] at hcall
      simp only [List.map_cons, List.map_nil, List.flatten_cons, List.flatten_nil, List.append_nil,
        List.forall_mem_singleton]
      rw [hlast]
      rcases hcall with ⟨hnone, hfail⟩ | hsuccess
      · exact Or.inl ⟨hnone, hfail⟩
      · exact Or.inr hsuccess
    | cons d calls =>
      obtain ⟨hpadding, hwhole, hrest⟩ := hsplit
      have hpadding : a.padding = false := hpadding
      have hwhole : (s.input a).length % 16 = 0 := hwhole
      rw [hpadding] at hcall
      have hfirst : cbcText (aes k.blob) encrypt false (s.guest.bytes.readBytes a.pbIV 16) (s.input a) =
          some (cryptBlocks (aes k.blob) true encrypt (s.guest.bytes.readBytes a.pbIV 16) (s.input a)) := by
        unfold cbcText
        rw [cbcData_false, if_neg (not_not.mpr hwhole), Bool.and_false]
        rfl
      rw [hfirst] at hcall
      rcases hcall with ⟨hnone, _⟩ | ⟨hout, hsuccess, hnext⟩
      · cases hnone
      · have happend := @cbcText_append (aes k.blob) encrypt padding (s.guest.bytes.readBytes a.pbIV 16)
          (s.input a) ((d :: calls).map ChunkCall.chunk).flatten hwhole
          (fun henc hpad hempty => Joins.head hjoins henc hpad hempty)
        rw [← hnext, Option.some.inj hout] at happend
        have htail := ih hrest (Joins.tail hjoins)
        clear ih hrest hjoins rest
        generalize d :: calls = later at happend htail ⊢
        rw [List.map_cons, List.flatten_cons, happend, List.map_cons, List.flatten_cons]
        rcases htail with ⟨hnone, hfail⟩ | ⟨htext, hall, hlast⟩
        · left
          rw [hnone]
          exact ⟨rfl, fun hall => hfail fun c hc => hall c (List.mem_cons_of_mem _ hc)⟩
        · right
          rw [htext]
          refine ⟨rfl, List.forall_mem_cons.mpr ⟨hsuccess, hall⟩, ?_⟩
          have hdata : (cbcData encrypt padding (later.map ChunkCall.chunk).flatten).length % 16 = 0 := by
            by_contra hbad
            rw [cbcText, if_pos hbad] at htext
            cases htext
          rw [cbcIv_append hwhole hdata, ← hnext]
          exact hlast

theorem ChunkRun.chunks {pbIV : Nat} {iv iv' : List UInt8} {calls : List ChunkCall} {padding : Bool}
    (hmode : k.chainingMode = some .cbc) (run : ChunkRun arch upper aes ε k encrypt pbIV iv calls iv')
    (h : CbcCall arch upper aes k encrypt s a r s') (hiv : s.guest.bytes.readBytes a.pbIV 16 = iv)
    (hpadding : a.padding = padding) (hinput : s.input a = (calls.map ChunkCall.chunk).flatten)
    (hsplit : Split padding calls) (hjoins : Joins encrypt padding (calls.map ChunkCall.chunk)) :
    ((∀ c ∈ calls, c.reply.status = .success) ↔ r.status = .success) ∧
    (r.status = .success → (calls.map fun c => c.reply.out).flatten = r.out ∧
      iv' = s'.guest.bytes.readBytes a.pbIV 16) := by
  by_cases haes : isAes upper k.ptype = true
  · have hcall := h.text hmode haes
    rw [hiv, hpadding, hinput] at hcall
    rcases run.text hmode haes hsplit hjoins with ⟨hnone, hfail⟩ | ⟨htext, hall, hlast⟩
    · rcases hcall with ⟨_, hr⟩ | ⟨hout, _, _⟩
      · exact ⟨iff_of_false hfail hr, fun hsuccess => absurd hsuccess hr⟩
      · rw [hnone] at hout
        cases hout
    · rcases hcall with ⟨hout, _⟩ | ⟨hout, hsuccess, hnext⟩
      · rw [htext] at hout
        cases hout
      · rw [htext] at hout
        exact ⟨iff_of_true hall hsuccess, fun _ => ⟨Option.some.inj hout, hlast.trans hnext.symm⟩⟩
  · have haes := Bool.eq_false_iff.mpr haes
    have hr := h.notAes haes
    have hfail : ¬∀ c ∈ calls, c.reply.status = .success := by
      intro hall
      cases run with
      | nil _ => cases hsplit
      | call hfirst _ _ => exact hfirst.notAes haes (hall _ List.mem_cons_self)
    exact ⟨iff_of_false hfail hr, fun hsuccess => absurd hsuccess hr⟩

theorem gcmCall_returns (hblob : k.blob.length ∈ aesKeyLengths)
    (hauth : a.pPaddingInfo ≠ 0 → ∃ x, s.readAuthInfo arch a.pPaddingInfo = .ok x ∧
      s.guest.RangeMapped x.tag x.tagLength) : ∃ r, s.gcmCall arch aes k encrypt data a = .ok r := by
  unfold BcryptSession.gcmCall
  by_cases hpointer : a.pPaddingInfo = 0
  · rw [if_pos hpointer]
    exact ⟨_, rfl⟩
  · obtain ⟨x, hread, htag⟩ := hauth hpointer
    rw [if_neg hpointer, hread, aesNew_eq_ok.mpr ⟨hblob, rfl⟩]
    dsimp only
    rw [read_eq_ok.mpr ⟨htag, rfl⟩]
    split_ifs
    · exact ⟨_, rfl⟩
    · exact ⟨_, rfl⟩
    · exact ⟨_, rfl⟩
    · exact ⟨_, rfl⟩
    · exact ⟨_, rfl⟩
    · dsimp only
      split
      next => exact ⟨_, rfl⟩
      next => exact ⟨_, rfl⟩

theorem blockCall_returns (hblob : k.blob.length ∈ aesKeyLengths)
    (hiv : a.pbIV ≠ 0 → s.guest.RangeMapped a.pbIV 16) : ∃ r, s.blockCall aes k cbc encrypt data a = .ok r := by
  obtain ⟨bs, hread⟩ : ∃ bs, (if cbc = true ∧ a.pbIV ≠ 0 then s.read a.pbIV 16 else .ok (List.replicate 16 0)) =
      .ok bs := by
    split
    next hused => exact ⟨_, read_eq_ok.mpr ⟨hiv hused.2, rfl⟩⟩
    next => exact ⟨_, rfl⟩
  unfold BcryptSession.blockCall
  rw [hread, aesNew_eq_ok.mpr ⟨hblob, rfl⟩]
  dsimp only
  split_ifs
  · exact ⟨_, rfl⟩
  · exact ⟨_, rfl⟩
  · exact ⟨_, rfl⟩
  · exact ⟨_, rfl⟩
  · exact ⟨_, rfl⟩
  · exact ⟨_, rfl⟩
  · exact ⟨_, rfl⟩
  · exact ⟨_, rfl⟩

theorem aesReply_returns (hkey : s.getKey a.hKey = some k) (hblob : k.blob.length ∈ aesKeyLengths)
    (hbuf : Buffers arch s a) : ∃ r, s.aesReply arch upper aes encrypt a = .ok r := by
  unfold aesReply
  rw [hkey]
  dsimp only
  split
  next => exact ⟨_, rfl⟩
  next =>
    rw [read_eq_ok.mpr ⟨hbuf.input, rfl⟩]
    dsimp only
    split
    next hgcm =>
      refine gcmCall_returns hblob fun hpointer => hbuf.auth hpointer ?_
      rw [mode, hkey, Option.bind_some, hgcm]
    next => exact blockCall_returns hblob hbuf.iv

/-- What a call writes is in the memory that it needs. -/
theorem AesOutcome.mapped (h : AesOutcome arch upper aes s encrypt a r) (hbuf : Buffers arch s a) :
    (∀ w ∈ r.chain, s.guest.RangeMapped w.1 w.2.length) ∧
      (r.out ≠ [] → a.pbOutput ≠ 0 ∧ r.out.length ≤ a.outputLength) := by
  have hempty : ∀ {r : AesReply}, r.chain = [] → r.out = [] → (∀ w ∈ r.chain, s.guest.RangeMapped w.1 w.2.length) ∧
      (r.out ≠ [] → a.pbOutput ≠ 0 ∧ r.out.length ≤ a.outputLength) := by
    intro r hchain hout
    rw [hchain, hout]
    exact ⟨fun w hw => (List.not_mem_nil hw).elim, fun hne => absurd rfl hne⟩
  cases h with
  | noKey _ => exact hempty rfl rfl
  | notAes _ _ => exact hempty rfl rfl
  | @gcm k _ hkey _ hmode h =>
    cases h with
    | refused _ => exact hempty rfl rfl
    | query _ _ => exact hempty rfl rfl
    | @encrypted x hx hout hroom _ _ =>
      have hgcm : s.mode a = some .gcm := by rw [mode, hkey, Option.bind_some, hmode]
      obtain ⟨x', hread, htag⟩ := hbuf.auth hx.pointer hgcm
      obtain rfl : x' = x := Except.ok.inj (hread.symm.trans hx.read)
      obtain ⟨htext, hdigest⟩ := gcmEncrypt_length (aes k.blob) hx.tagLength.2 x'.nonce x'.aad (s.input a)
      refine ⟨fun w hw => ?_, fun _ => ⟨hout, ?_⟩⟩
      · obtain rfl := List.mem_singleton.mp hw
        rw [hdigest]
        exact htag
      · exact htext.le.trans hroom
    | decrypted _ hout hroom _ _ _ hdec =>
      refine ⟨fun w hw => (List.not_mem_nil hw).elim, fun _ => ⟨hout, ?_⟩⟩
      unfold gcmDecrypt at hdec
      split at hdec
      next =>
        cases hdec
        exact (gctr_length ..).le.trans hroom
      next => cases hdec
  | @block k _ cbc _ _ _ h =>
    cases h with
    | badLength _ => exact hempty rfl rfl
    | query _ _ => exact hempty rfl rfl
    | badIv _ _ _ => exact hempty rfl rfl
    | crypt hlen hout _ _ =>
      rcases blockReply_cases (aes k.blob) cbc encrypt (s.blockIv cbc a) (cbcData encrypt a.padding (s.input a)) a with
        ⟨_, hr⟩ | ⟨_, _, _, hr⟩ | ⟨plain, _, hroom, hr⟩
      · rw [hr]
        exact hempty rfl rfl
      · rw [hr]
        exact hempty rfl rfl
      · rw [hr]
        refine ⟨fun w hw => ?_, fun _ => ⟨hout, hroom⟩⟩
        obtain ⟨text, htextEq⟩ : ∃ text, text = (if encrypt then cryptBlocks (aes k.blob) cbc encrypt
            (s.blockIv cbc a) (cbcData encrypt a.padding (s.input a)) else cbcData encrypt a.padding (s.input a)) :=
          ⟨_, rfl⟩
        have htext : text.length % 16 = 0 := by
          rw [htextEq]
          split
          next => rw [cryptBlocks_length _ _ _ _ hlen, hlen]
          next => exact hlen
        dsimp only at hw
        rw [← htextEq] at hw
        split at hw
        next hnext =>
          obtain rfl := List.mem_singleton.mp hw
          have hne := fun h => hnext.2.2 ((lastBytes_eq_nil htext).mpr h)
          rw [lastBytes_length htext hne]
          exact hbuf.iv hnext.2.1
        next => cases hw

theorem call_returns (hkey : s.getKey a.hKey = some k) (hblob : k.blob.length ∈ aesKeyLengths)
    (hbuf : Buffers arch s a) : ∃ r s', Call arch upper aes s encrypt a r s' := by
  obtain ⟨r, hreply⟩ := @aesReply_returns ε _ arch upper aes s k encrypt a hkey hblob hbuf
  obtain ⟨hchain, hout⟩ := (aesReply_outcome hreply).mapped hbuf
  have hstore : CryptSession.storeAll s.guest (r.writes a) =
      (.ok (), ⟨s.guest.mgr, s.guest.bytes.writeAll (r.writes a)⟩) := by
    apply CryptSession.storeAll_ok
    intro w hw
    rw [AesReply.writes, List.mem_append, List.mem_append] at hw
    rcases hw with (hw | hw) | hw
    · exact hchain w hw
    · split at hw
      next => cases hw
      next hne =>
        obtain rfl := List.mem_singleton.mp hw
        obtain ⟨hpointer, hle⟩ := hout hne
        exact fun i hi => hbuf.output hpointer i (Nat.lt_of_lt_of_le hi hle)
    · obtain ⟨hne, haddr, hlen⟩ := AesReply.mem_sizeWrites hw
      rw [haddr, hlen]
      exact hbuf.size hne
  refine ⟨r, { s with guest := ⟨s.guest.mgr, s.guest.bytes.writeAll (r.writes a)⟩ }, ?_⟩
  unfold Call aesCrypt
  rw [hreply]
  dsimp only
  rw [hstore]
  rfl

theorem aesCrypt_law (arch : Arch) (upper : String → String) (aes : List UInt8 → Equiv.Perm (Block 16))
    (ε : Type) [PageEngine ε] : AesLaw arch upper aes ε Joins where
  succeeds _ _ _ _ _ h := h.succeeds
  undoes _ _ _ _ _ _ _ _ h hsuccess hout h' hrev := h.undoes hsuccess hout h' hrev
  chunks _ _ _ _ _ _ _ _ _ _ _ hmode run h hiv hpadding hinput hsplit hjoins :=
    run.chunks hmode h hiv hpadding hinput hsplit hjoins
  sizes _ _ _ _ _ _ _ hq h hout hresult hsuccess := hq.sizes h hout hresult hsuccess
  sameBuffer _ _ _ _ _ _ _ hout hinput h h' := by
    have hreply := h'.reply.1
    rw [aesReply_output hout hinput, h.reply.1] at hreply
    exact (Except.ok.inj hreply).symm
  writes _ _ _ _ _ h := ⟨h.reply.2, h.output⟩
  failure _ _ _ _ _ h hfail _ hx := h.failure hfail hx
  returns _ _ _ _ hkey hblob hbuf := call_returns hkey hblob hbuf

/-- The AES block of sixteen padding bytes, with a key of zeros. -/
def paddingCipher : List UInt8 :=
  [0x01, 0x43, 0xDB, 0x63, 0xEE, 0x66, 0xB0, 0xCD, 0xFF, 0x9F, 0x69, 0x91, 0x76, 0x80, 0x15, 0x1E]

/-- A permutation that takes the padding to this block. -/
def paddingAes (_ : List UInt8) : Equiv.Perm (Block 16) :=
  Equiv.swap (fun _ => 0x10) (blockAt 16 paddingCipher 0)

def paddingKey : BcryptKey := ⟨some "AES", List.replicate 16 0, some .cbc⟩

/-- A session whose first page holds one block of cipher text. -/
def paddingSession : BcryptSession RegionEngine where
  guest := ⟨(memMap DriverState.driverEnv (MemoryManager.init emptyEngine) { size := 0x1000 }).2,
    ByteMemory.writeBytes (fun _ => 0) 0x10000 paddingCipher⟩
  allocator := { reuseClosedHandles := true, handle := 0x88 }
  objects := fun h => if h = 0x84 then some (.key paddingKey) else none

/-- A decryption call with its input at 0x10000 and its IV at 0x10100. -/
def paddingArgs (cbInput pbOutput dwFlags : Nat) : AesArgs :=
  ⟨0x84, 0x10000, cbInput, 0, 0x10100, 16, pbOutput, 16, 0, dwFlags⟩

/-- The session after the call on the block. -/
def paddingNext : BcryptSession RegionEngine :=
  (paddingSession.aesCrypt .x86 id paddingAes false (paddingArgs 16 0x10200 0)).2

theorem call_firstChunk : Call .x86 id paddingAes paddingSession false (paddingArgs 16 0x10200 0)
    ⟨.success, [(0x10100, paddingCipher)], List.replicate 16 0x10, some 16⟩ paddingNext :=
  Prod.ext (by decide +kernel) rfl

theorem call_emptyChunk : Call .x86 id paddingAes paddingNext false (paddingArgs 0 0x10200 1) { status := .dataError }
    (paddingNext.aesCrypt .x86 id paddingAes false (paddingArgs 0 0x10200 1)).2 :=
  Prod.ext (by decide) rfl

theorem call_oneChunk : Call .x86 id paddingAes paddingSession false (paddingArgs 16 0x10200 1)
    ⟨.success, [(0x10100, paddingCipher)], [], some 0⟩
    (paddingSession.aesCrypt .x86 id paddingAes false (paddingArgs 16 0x10200 1)).2 :=
  Prod.ext (by decide +kernel) rfl

/-- A decryption with an empty last chunk fails where one call succeeds, and a call whose output is not mapped
raises after it wrote the IV. -/
theorem aesCrypt_emptyChunk : ¬AesLaw .x86 id paddingAes RegionEngine (fun _ _ _ => True) ∧
    ∃ e, (paddingSession.aesCrypt .x86 id paddingAes false (paddingArgs 16 0x90000 0)).1 = .error e ∧
      (paddingSession.aesCrypt .x86 id paddingAes false (paddingArgs 16 0x90000 0)).2.guest.bytes 0x10100 ≠
        paddingSession.guest.bytes 0x10100 := by
  refine ⟨fun law => ?_, .mem (.uc .writeUnmapped), by decide, by decide⟩
  have hfirst : CbcCall .x86 id paddingAes paddingKey false paddingSession (paddingArgs 16 0x10200 0) _ paddingNext :=
    ⟨call_firstChunk, rfl, by decide, by decide, by decide, by decide, Or.inl (by decide), fun h => absurd rfl h⟩
  have hempty : CbcCall .x86 id paddingAes paddingKey false paddingNext (paddingArgs 0 0x10200 1) _ _ :=
    ⟨call_emptyChunk, rfl, by decide, by decide, by decide, by decide, Or.inl (by decide), fun h => absurd rfl h⟩
  have hone : CbcCall .x86 id paddingAes paddingKey false paddingSession (paddingArgs 16 0x10200 1) _ _ :=
    ⟨call_oneChunk, rfl, by decide, by decide, by decide, by decide, Or.inl (by decide), fun h => absurd rfl h⟩
  have run := ChunkRun.call hfirst rfl (ChunkRun.call hempty rfl (ChunkRun.nil _))
  have hsplit : Split true [⟨paddingArgs 16 0x10200 0, paddingSession.input (paddingArgs 16 0x10200 0),
      ⟨.success, [(0x10100, paddingCipher)], List.replicate 16 0x10, some 16⟩⟩,
      ⟨paddingArgs 0 0x10200 1, paddingNext.input (paddingArgs 0 0x10200 1), { status := .dataError }⟩] :=
    ⟨by decide, by decide, show (paddingArgs 0 0x10200 1).padding = true by decide⟩
  obtain ⟨hiff, _⟩ := law.chunks paddingKey false true 0x10100 _ _ _ _ _ _ _ rfl run hone rfl (by decide)
    (by decide) hsplit trivial
  have hfail := hiff.mpr rfl _ (List.mem_cons_of_mem _ List.mem_cons_self)
  cases hfail

end BcryptSession

end Speakeasy
