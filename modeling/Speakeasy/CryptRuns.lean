import Speakeasy.CryptKeys

namespace Speakeasy

section

open PageEngine MemoryManager DriverState

variable {ε : Type} [PageEngine ε] {arch : Arch} {env : MemEnv} {stream : List UInt8 → Nat → UInt8}

@[simp] theorem xorStream_length (key : List UInt8) (pos : Nat) (data : List UInt8) :
    (xorStream stream key pos data).length = data.length := by
  induction data generalizing pos with
  | nil => rfl
  | cons b data ih => rw [xorStream, List.length_cons, ih, List.length_cons]

theorem fixedDigest_length (d : HashDigest) (dwFlags : Nat) :
    0 < (fixedDigest d.bytes dwFlags).length ∧ (fixedDigest d.bytes dwFlags).length ≤ 256 := by
  have hsize := d.size
  simp only [fixedDigest]
  split
  next =>
    rw [List.length_take]
    omega
  next =>
    split
    next =>
      rw [List.length_take]
      omega
    next =>
      simp only [List.length_append, List.length_take, List.length_replicate]
      omega

namespace CryptKeyRecord

theorem bytes_length (arch : Arch) (r : CryptKeyRecord) : (r.bytes arch).length = size arch := by
  simp only [bytes, size, List.length_append, toBytes_length]

theorem cast_bytes {r : CryptKeyRecord} (halg : r.algid < 256 ^ 4) (hlen : r.keylen < 256 ^ 4)
    (hkeyp : r.keyp < 256 ^ arch.ptrSize) : cast (r.bytes arch) = r := by
  have hfirst : (r.bytes arch).take 4 = toBytes 4 r.algid := by
    unfold bytes
    rw [List.append_assoc, List.take_left' (toBytes_length 4 _)]
  have hsecond : ((r.bytes arch).drop 4).take 4 = toBytes 4 r.keylen := by
    unfold bytes
    rw [List.append_assoc, List.drop_left' (toBytes_length 4 _), List.take_left' (toBytes_length 4 _)]
  have hthird : (r.bytes arch).drop 8 = toBytes arch.ptrSize r.keyp := by
    have height : (toBytes 4 r.algid ++ toBytes 4 r.keylen).length = 8 := by simp
    unfold bytes
    rw [List.drop_left' height]
  unfold cast
  rw [hfirst, hsecond, hthird, fromBytes_toBytes_of_lt halg, fromBytes_toBytes_of_lt hlen,
    fromBytes_toBytes_of_lt hkeyp]

end CryptKeyRecord

/-- The record that `CryptDeriveKey` writes for a key. -/
def StreamKey.record (k : StreamKey) : CryptKeyRecord := ⟨calgRc4, k.material.length, k.keyp⟩

/-- The record and the bytes of a key are in allocations of their own. -/
structure KeyStored (arch : Arch) (g : GuestMemory ε) (k : StreamKey) : Prop where
  record : Allocated g.mgr k.handle (CryptKeyRecord.size arch)
  material : Allocated g.mgr k.keyp k.material.length
  holdsRecord : g.bytes.Holds k.handle (k.record.bytes arch)
  holdsMaterial : g.bytes.Holds k.keyp k.material
  length : 0 < k.material.length ∧ k.material.length ≤ 256
  keypLt : k.keyp < 256 ^ arch.ptrSize

omit [PageEngine ε] in
theorem KeyStored.cast_record {g : GuestMemory ε} {k : StreamKey} (hk : KeyStored arch g k) :
    CryptKeyRecord.cast (g.bytes.readBytes k.handle (CryptKeyRecord.size arch)) = k.record := by
  have hlen := CryptKeyRecord.bytes_length arch k.record
  have hholds : g.bytes.readBytes k.handle (CryptKeyRecord.size arch) = k.record.bytes arch := by
    have := hk.holdsRecord
    rwa [ByteMemory.Holds, hlen] at this
  have hlength := hk.length
  have halg : k.record.algid < 256 ^ 4 := show calgRc4 < 256 ^ 4 by decide
  have hkeylen : k.record.keylen < 256 ^ 4 := show k.material.length < 256 ^ 4 by omega
  rw [hholds]
  exact CryptKeyRecord.cast_bytes halg hkeylen hk.keypLt

namespace CryptSession

theorem storeAll_ok {g : GuestMemory ε} {ws : List (Nat × List UInt8)}
    (h : ∀ w ∈ ws, g.RangeMapped w.1 w.2.length) :
    storeAll g ws = (.ok (), ⟨g.mgr, g.bytes.writeAll ws⟩) := by
  induction ws generalizing g with
  | nil => rfl
  | cons w ws ih =>
    obtain ⟨a, data⟩ := w
    have hfirst : g.memWrite a data = .ok ⟨g.mgr, g.bytes.writeBytes a data⟩ :=
      if_pos (h (a, data) List.mem_cons_self)
    rw [storeAll, hfirst]
    exact ih fun v hv => h v (List.mem_cons_of_mem _ hv)

variable {outside : Nat → Prop} {t : CryptSession ε} {k : StreamKey} {a : DecryptArgs}

theorem readMem_ok {b n : Nat} (h : t.guest.RangeMapped b n) :
    t.readMem b n = .ok (t.guest.bytes.readBytes b n) := by
  rw [readMem, GuestMemory.memRead, if_pos h]
  rfl

theorem readMem_error {b n : Nat} (h : ¬t.guest.RangeMapped b n) :
    t.readMem b n = .error (.mem (.uc .readUnmapped)) := by
  rw [readMem, GuestMemory.memRead, if_neg h]
  rfl

/-- The bytes that a call takes. -/
def input (t : CryptSession ε) (a : DecryptArgs) : List UInt8 :=
  t.guest.bytes.readBytes a.pbData (t.guest.bytes.readInt a.pdwDataLen 4)

/-- The session after a call that decrypts. -/
def decrypted (t : CryptSession ε) (a : DecryptArgs) (dec : List UInt8) (rc4 : Arc4) : CryptSession ε :=
  ⟨⟨t.guest.mgr, t.guest.bytes.writeAll [(a.pbData, dec), (a.pdwDataLen, toBytes 4 dec.length)]⟩,
    if a.final ≠ 0 then none else some rc4⟩

/-- The buffers of a call are in mapped memory. -/
structure Buffers (t : CryptSession ε) (a : DecryptArgs) : Prop where
  length : t.guest.RangeMapped a.pdwDataLen 4
  data : t.guest.RangeMapped a.pbData (t.guest.bytes.readInt a.pdwDataLen 4)

theorem readRecord (hi : t.guest.mgr.Inv outside) (hk : KeyStored arch t.guest k) :
    ∃ data, t.readMem k.handle (CryptKeyRecord.size arch) = .ok data ∧ CryptKeyRecord.cast data = k.record :=
  ⟨_, readMem_ok (hk.record.rangeMapped hi), hk.cast_record⟩

/-- A call on a key uses the cipher of the handler. -/
theorem cryptDecrypt_key (hi : t.guest.mgr.Inv outside) (hk : KeyStored arch t.guest k)
    (hhandle : k.handle = a.hKey) (hhash : a.hHash = 0) (hbuf : t.Buffers a) {c : Arc4}
    (hc : t.cipher k.material = some c) :
    t.cryptDecrypt arch stream a = .ok (⟨1, some (xorStream stream c.key c.pos (t.input a))⟩,
      t.decrypted a (xorStream stream c.key c.pos (t.input a))
        { c with pos := c.pos + (t.input a).length }) := by
  obtain ⟨data, hread, hcast⟩ := readRecord hi hk
  have hmaterial : t.readMem k.record.keyp k.record.keylen = .ok k.material :=
    (readMem_ok (hk.material.rangeMapped hi)).trans (congrArg Except.ok hk.holdsMaterial)
  have hinput : (t.input a).length = t.guest.bytes.readInt a.pdwDataLen 4 :=
    ByteMemory.readBytes_length ..
  have hstore := @storeAll_ok ε _ t.guest
    [(a.pbData, xorStream stream c.key c.pos (t.input a)),
      (a.pdwDataLen, toBytes 4 (xorStream stream c.key c.pos (t.input a)).length)] (by
        intro w hw
        simp only [List.mem_cons, List.not_mem_nil, or_false] at hw
        rcases hw with rfl | rfl
        · rw [xorStream_length, hinput]
          exact hbuf.data
        · rw [toBytes_length]
          exact hbuf.length)
  rw [hhandle] at hread
  have hdata : t.readMem a.pbData (fromBytes (t.guest.bytes.readBytes a.pdwDataLen 4)) = .ok (t.input a) :=
    readMem_ok hbuf.data
  have halg : ¬k.record.algid ≠ calgRc4 := not_not.mpr rfl
  rw [cryptDecrypt, if_neg (not_not.mpr hhash)]
  simp only [bind, Except.bind, hread, hcast, if_neg halg, readMem_ok hbuf.length, hdata, hmaterial, hc,
    Arc4.decrypt, hstore]
  rfl

/-- A call whose buffers are not in mapped memory raises. -/
theorem cryptDecrypt_raises (hi : t.guest.mgr.Inv outside) (hk : KeyStored arch t.guest k)
    (hhandle : k.handle = a.hKey) (hhash : a.hHash = 0) (hbuf : ¬t.Buffers a) :
    ∃ e, t.cryptDecrypt arch stream a = .error e := by
  obtain ⟨data, hread, hcast⟩ := readRecord hi hk
  have halg : ¬k.record.algid ≠ calgRc4 := not_not.mpr rfl
  rw [hhandle] at hread
  rw [cryptDecrypt, if_neg (not_not.mpr hhash)]
  by_cases hlength : t.guest.RangeMapped a.pdwDataLen 4
  · have hdata : ¬t.guest.RangeMapped a.pbData (fromBytes (t.guest.bytes.readBytes a.pdwDataLen 4)) :=
      fun h => hbuf ⟨hlength, h⟩
    refine ⟨.mem (.uc .readUnmapped), ?_⟩
    simp only [bind, Except.bind, hread, hcast, if_neg halg, readMem_ok hlength, readMem_error hdata]
  · refine ⟨.mem (.uc .readUnmapped), ?_⟩
    simp only [bind, Except.bind, hread, hcast, if_neg halg, readMem_error hlength]

end CryptSession

omit [PageEngine ε] in
/-- A key stays where its bytes stay. -/
theorem KeyStored.keep {g g' : GuestMemory ε} {k : StreamKey} (h : KeyStored arch g k)
    (hkeep : ∀ b n, Allocated g.mgr b n → Allocated g'.mgr b n)
    (hrecord : g'.bytes.readBytes k.handle (CryptKeyRecord.size arch) =
      g.bytes.readBytes k.handle (CryptKeyRecord.size arch))
    (hmaterial : g'.bytes.readBytes k.keyp k.material.length =
      g.bytes.readBytes k.keyp k.material.length) : KeyStored arch g' k where
  record := hkeep _ _ h.record
  material := hkeep _ _ h.material
  holdsRecord := by
    have hholds := h.holdsRecord
    rw [ByteMemory.Holds, CryptKeyRecord.bytes_length arch k.record] at hholds ⊢
    rw [hrecord, hholds]
  holdsMaterial := hmaterial.trans h.holdsMaterial
  length := h.length
  keypLt := h.keypLt

omit [PageEngine ε] in
theorem KeyStored.withPos {g : GuestMemory ε} {k : StreamKey} (h : KeyStored arch g k) (pos : Nat) :
    KeyStored arch g { k with pos } where
  record := h.record
  material := h.material
  holdsRecord := h.holdsRecord
  holdsMaterial := h.holdsMaterial
  length := h.length
  keypLt := h.keypLt

namespace CryptHistory

/-- The cipher of the handler is the one of the key that is in the middle of its stream. -/
def CipherOf (t : CryptHistory ε) : Prop :=
  match t.user with
  | none => t.session.rc4 = none ∧ ∀ k ∈ t.keys, k.pos = 0
  | some handle => ∃ k ∈ t.keys, k.handle = handle ∧ t.session.rc4 = some ⟨k.material, k.pos⟩ ∧
      ∀ l ∈ t.keys, l.handle ≠ handle → l.pos = 0

/-- What a run with one stream at a time keeps. -/
structure Inv (arch : Arch) (outside : Nat → Prop) (limit : Nat) (t : CryptHistory ε) : Prop where
  mgr : t.session.guest.mgr.Inv outside
  below : t.session.guest.mgr.Below limit
  stored : ∀ k ∈ t.keys, KeyStored arch t.session.guest k
  distinct : (t.keys.map StreamKey.handle).Nodup
  cipher : t.CipherOf

variable {outside : Nat → Prop} {limit : Nat} {t : CryptHistory ε} {a : DecryptArgs}

theorem Inv.key_eq (h : Inv arch outside limit t) {k l : StreamKey} (hk : k ∈ t.keys) (hl : l ∈ t.keys)
    (heq : k.handle = l.handle) : k = l := List.inj_on_of_nodup_map h.distinct hk hl heq

/-- The cipher that a good call uses: the one of its key, or any for no data. -/
theorem Inv.cipher_good (h : Inv arch outside limit t) {k : StreamKey} (hk : k ∈ t.keys)
    (hhandle : k.handle = a.hKey) (hgood : t.DecryptGood arch a) :
    (t.session.cipher k.material = some ⟨k.material, k.pos⟩ ∧
      (∀ l ∈ t.keys, l.handle ≠ a.hKey → l.pos = 0) ∧ (t.user = none ∨ t.user = some a.hKey)) ∨
    (t.input a = [] ∧ a.final = 0 ∧
      ∃ c handle, t.session.rc4 = some c ∧ t.session.cipher k.material = some c ∧ t.user = some handle) := by
  have hc := h.cipher
  unfold CipherOf at hc
  unfold CryptSession.cipher
  cases hu : t.user with
  | none =>
    rw [hu] at hc
    obtain ⟨hrc4, hpos⟩ := hc
    rw [hrc4]
    left
    have hlength := (h.stored k hk).length
    refine ⟨?_, fun l hl _ => hpos l hl, Or.inl rfl⟩
    simp only [Arc4.new, if_pos hlength, hpos k hk]
  | some handle =>
    rw [hu] at hc
    obtain ⟨l, hl, hlh, hrc4, hothers⟩ := hc
    by_cases hsame : handle = a.hKey
    · left
      subst hsame
      refine ⟨?_, hothers, Or.inr rfl⟩
      rw [hrc4, h.key_eq hk hl (hhandle.trans hlh.symm)]
    · right
      rcases hgood.alone with hnone | hown | ⟨hempty, hfinal⟩
      · rw [hu] at hnone
        cases hnone
      · rw [hu] at hown
        exact absurd (Option.some.inj hown) hsame
      · refine ⟨?_, hfinal, _, handle, hrc4, ?_, rfl⟩
        · rw [input, hempty]
          rfl
        · rw [hrc4]

omit [PageEngine ε] in
/-- The output of a call is there after it. -/
theorem decrypted_holds {dec : List UInt8} (c : Arc4) (h : Apart a.pbData dec.length a.pdwDataLen 4) :
    (t.session.decrypted a dec c).guest.bytes.Holds a.pbData dec := by
  have hpair : List.Pairwise (fun v w : Nat × List UInt8 => v.1 + v.2.length ≤ w.1 ∨ w.1 + w.2.length ≤ v.1)
      [(a.pbData, dec), (a.pdwDataLen, toBytes 4 dec.length)] := by
    simp only [List.pairwise_cons, List.mem_singleton, forall_eq, toBytes_length, List.not_mem_nil, false_imp_iff,
      implies_true, List.Pairwise.nil, and_true]
    exact h
  exact ByteMemory.holds_writeAll hpair List.mem_cons_self

/-- The law of one call. -/
theorem Inv.law (h : Inv arch outside limit t) {op : CryptOp} (hgood : t.Good arch op) :
    t.Law arch stream op := by
  cases op with
  | deriveKey a => trivial
  | decrypt a =>
    intro k hk hhandle hhash hlength hdata
    have hbuf : t.session.Buffers a := ⟨hlength, hdata⟩
    rcases h.cipher_good hk hhandle hgood.2 with ⟨hc, _⟩ | ⟨hempty, _, c, _, _, hc, _⟩
    · refine ⟨_, CryptSession.cryptDecrypt_key h.mgr (h.stored k hk) hhandle hhash hbuf hc, fun hapart => ?_⟩
      apply decrypted_holds
      rwa [xorStream_length]
    · have hcall : t.session.cryptDecrypt arch stream a = _ :=
        CryptSession.cryptDecrypt_key h.mgr (h.stored k hk) hhandle hhash hbuf hc
      have hsame : t.session.input a = [] := hempty
      rw [hsame] at hcall
      rw [hempty]
      exact ⟨_, hcall, fun hapart => decrypted_holds _ hapart⟩
  | guestWrite address data => trivial

omit [PageEngine ε] in
theorem advance_handle (t : CryptHistory ε) (a : DecryptArgs) (k : StreamKey) :
    (t.advance a k).handle = k.handle := by
  unfold advance
  split
  next => rfl
  next => rfl

omit [PageEngine ε] in
theorem advance_own {k : StreamKey} (hk : k.handle = a.hKey) : t.advance a k =
    { k with pos := if a.final ≠ 0 then 0 else k.pos + (t.input a).length } := if_pos hk

omit [PageEngine ε] in
theorem advance_other {k : StreamKey} (hk : k.handle ≠ a.hKey) : t.advance a k = k := if_neg hk

/-- The writes of a good call leave the keys. -/
theorem Inv.stored_decrypted (h : Inv arch outside limit t) (hgood : t.DecryptGood arch a)
    {dec : List UInt8} (hdec : dec.length = (t.input a).length) (c : Arc4) :
    ∀ k ∈ t.keys.map (t.advance a), KeyStored arch (t.session.decrypted a dec c).guest k := by
  intro k hk
  obtain ⟨l, hl, rfl⟩ := List.mem_map.mp hk
  have hlen : dec.length = t.session.guest.bytes.readInt a.pdwDataLen 4 :=
    hdec.trans (ByteMemory.readBytes_length ..)
  have hapart : ∀ b n, (Apart a.pbData dec.length b n ∧ Apart a.pdwDataLen 4 b n) →
      (t.session.decrypted a dec c).guest.bytes.readBytes b n = t.session.guest.bytes.readBytes b n := by
    intro b n hbn
    apply ByteMemory.readBytes_writeAll_of_apart
    intro w hw
    simp only [List.mem_cons, List.not_mem_nil, or_false] at hw
    rcases hw with rfl | rfl
    · exact hbn.1.symm
    · rw [toBytes_length]
      exact hbn.2.symm
  have hdata := hgood.data l hl
  have hlength := hgood.length l hl
  rw [← hlen] at hdata
  have hstored : KeyStored arch (t.session.decrypted a dec c).guest l :=
    (h.stored l hl).keep (fun _ _ hb => hb) (hapart _ _ ⟨hdata.1, hlength.1⟩)
      (hapart _ _ ⟨hdata.2, hlength.2⟩)
  unfold advance
  split
  next => exact hstored.withPos _
  next => exact hstored

theorem Inv.decrypt (h : Inv arch outside limit t) (hgood : t.Good arch (.decrypt a)) :
    Inv arch outside limit (t.step arch env stream (.decrypt a)) := by
  obtain ⟨⟨k, hk, hhandle⟩, hgood⟩ := hgood
  rw [step]
  by_cases hhash : a.hHash = 0
  · by_cases hbuf : t.session.Buffers a
    · have hmap : (t.keys.map (t.advance a)).map StreamKey.handle = t.keys.map StreamKey.handle := by
        rw [List.map_map]
        exact List.map_congr_left fun l _ => advance_handle t a l
      have hmine : t.advance a k ∈ t.keys.map (t.advance a) := List.mem_map_of_mem hk
      rcases h.cipher_good hk hhandle hgood with ⟨hc, hothers, huser⟩ | ⟨hempty, hfinal, c, handle, hrc4, hc, hu⟩
      · rw [CryptSession.cryptDecrypt_key h.mgr (h.stored k hk) hhandle hhash hbuf hc]
        refine ⟨h.mgr, h.below, h.stored_decrypted hgood (xorStream_length ..) _, hmap ▸ h.distinct, ?_⟩
        unfold CipherOf
        have hother : ∀ l ∈ t.keys.map (t.advance a), l.handle ≠ a.hKey → l.pos = 0 := by
          intro l hl hne
          obtain ⟨m, hm, rfl⟩ := List.mem_map.mp hl
          rw [advance_handle] at hne
          rw [advance_other hne]
          exact hothers m hm hne
        by_cases hfinal : a.final = 0
        · have hnext : t.nextUser a = some a.hKey := by
            rw [nextUser, if_neg (not_not.mpr hfinal)]
            rcases huser with hu | hu
            · rw [hu]
              rfl
            · rw [hu]
              rfl
          simp only [hnext]
          refine ⟨t.advance a k, hmine, (advance_handle t a k).trans hhandle, ?_, hother⟩
          rw [advance_own hhandle]
          simp only [CryptSession.decrypted, if_neg (not_not.mpr hfinal)]
          rfl
        · have hnext : t.nextUser a = none := if_pos hfinal
          simp only [hnext]
          refine ⟨if_pos hfinal, fun l hl => ?_⟩
          by_cases hmineh : l.handle = a.hKey
          · obtain ⟨m, hm, rfl⟩ := List.mem_map.mp hl
            rw [advance_handle] at hmineh
            rw [advance_own hmineh]
            exact if_pos hfinal
          · exact hother l hl hmineh
      · rw [CryptSession.cryptDecrypt_key h.mgr (h.stored k hk) hhandle hhash hbuf hc]
        refine ⟨h.mgr, h.below, h.stored_decrypted hgood (xorStream_length ..) _, hmap ▸ h.distinct, ?_⟩
        have hsame : t.keys.map (t.advance a) = t.keys := by
          conv_rhs => rw [← List.map_id t.keys]
          refine List.map_congr_left fun l _ => ?_
          unfold advance
          split
          next => simp [hfinal, hempty]
          next => rfl
        have hsession : t.session.input a = [] := hempty
        have hnext : t.nextUser a = some handle := by
          rw [nextUser, if_neg (not_not.mpr hfinal), hu]
          rfl
        have hcipher := h.cipher
        unfold CipherOf at hcipher ⊢
        rw [hu] at hcipher
        simp only [hnext, hsame]
        obtain ⟨l, hl, hlh, hlc, hothers⟩ := hcipher
        have hrest : (if a.final ≠ 0 then none
            else some (⟨c.key, c.pos + (t.session.input a).length⟩ : Arc4)) = some c := by
          rw [if_neg (not_not.mpr hfinal), hsession]
          rfl
        exact ⟨l, hl, hlh, hrest.trans (hrc4.symm.trans hlc), hothers⟩
    · obtain ⟨e, he⟩ : ∃ e, t.session.cryptDecrypt arch stream a = .error e :=
        CryptSession.cryptDecrypt_raises h.mgr (h.stored k hk) hhandle hhash hbuf
      rw [he]
      exact h
  · have hcall : t.session.cryptDecrypt arch stream a = .ok (⟨0, none⟩, t.session) := if_pos hhash
    rw [hcall]
    exact h

/-- A write of the guest beside the keys leaves them and the cipher. -/
theorem Inv.guestWrite (h : Inv arch outside limit t) {address : Nat} {data : List UInt8}
    (hgood : t.Good arch (.guestWrite address data)) :
    Inv arch outside limit (t.step arch env stream (.guestWrite address data)) := by
  rw [step]
  by_cases hmapped : t.session.guest.RangeMapped address data.length
  · rw [GuestMemory.memWrite, if_pos hmapped]
    refine ⟨h.mgr, h.below, fun k hk => ?_, h.distinct, h.cipher⟩
    obtain ⟨hrecord, hmaterial⟩ := hgood k hk
    exact (h.stored k hk).keep (fun _ _ hb => hb) (ByteMemory.readBytes_writeBytes_of_apart hrecord.symm)
      (ByteMemory.readBytes_writeBytes_of_apart hmaterial.symm)
  · rw [GuestMemory.memWrite, if_neg hmapped]
    exact h

variable {b : DeriveArgs}

/-- The guest after the writes for a new key. -/
def derived (arch : Arch) (t : CryptHistory ε) (b : DeriveArgs) (k : StreamKey) (mgr : MemoryManager ε) :
    GuestMemory ε :=
  ⟨mgr, t.session.guest.bytes.writeAll [(k.keyp, k.material), (k.handle, k.record.bytes arch),
    (b.phKey, toBytes arch.ptrSize k.handle)]⟩

/-- Two allocations that are new, and what they leave. -/
structure NewKey (arch : Arch) (outside : Nat → Prop) (limit : Nat) (old mgr : MemoryManager ε)
    (k : StreamKey) : Prop where
  inv : mgr.Inv outside
  below : mgr.Below limit
  record : Allocated mgr k.handle (CryptKeyRecord.size arch)
  material : Allocated mgr k.keyp k.material.length
  ne : k.keyp ≠ k.handle
  keypLt : k.keyp < 256 ^ arch.ptrSize
  old : ∀ b n, Allocated old b n → Allocated mgr b n ∧ b ≠ k.keyp ∧ b ≠ k.handle

theorem NewKey.apart {mgr : MemoryManager ε} {k : StreamKey}
    (h : NewKey arch outside limit t.session.guest.mgr mgr k) {c n : Nat}
    (hc : Allocated t.session.guest.mgr c n) :
    Apart k.keyp k.material.length c n ∧ Apart k.handle (CryptKeyRecord.size arch) c n := by
  obtain ⟨hkeep, hkeyp, hhandle⟩ := h.old c n hc
  exact ⟨h.material.apart h.inv hkeep (Ne.symm hkeyp), h.record.apart h.inv hkeep (Ne.symm hhandle)⟩

/-- The handle of the new key is written beside its record and its bytes. -/
theorem NewKey.apart_handle {mgr : MemoryManager ε} {k : StreamKey}
    (h : NewKey arch outside limit t.session.guest.mgr mgr k) (hgood : t.DeriveGood arch b) :
    Apart k.keyp k.material.length b.phKey arch.ptrSize ∧
      Apart k.handle (CryptKeyRecord.size arch) b.phKey arch.ptrSize ∧
      GuestMemory.RangeMapped (⟨mgr, t.session.guest.bytes⟩ : GuestMemory ε) b.phKey arch.ptrSize := by
  obtain ⟨mm, hmm, hle, hend⟩ := hgood.inside
  have halloc : Allocated t.session.guest.mgr mm.base mm.size := ⟨mm, hmm, rfl, Nat.le_refl _⟩
  obtain ⟨hkeyp, hhandle⟩ := h.apart halloc
  have hmapped := (h.old _ _ halloc).1.rangeMapped (g := ⟨mgr, t.session.guest.bytes⟩) h.inv
  unfold Apart at hkeyp hhandle ⊢
  refine ⟨by omega, by omega, fun i hi => ?_⟩
  have := hmapped (b.phKey - mm.base + i) (by omega)
  rwa [show mm.base + (b.phKey - mm.base + i) = b.phKey + i by omega] at this

theorem NewKey.storeAll_ok {mgr : MemoryManager ε} {k : StreamKey}
    (h : NewKey arch outside limit t.session.guest.mgr mgr k) (hgood : t.DeriveGood arch b) :
    CryptSession.storeAll (⟨mgr, t.session.guest.bytes⟩ : GuestMemory ε)
      [(k.keyp, k.material), (k.handle, k.record.bytes arch), (b.phKey, toBytes arch.ptrSize k.handle)] =
        (.ok (), t.derived arch b k mgr) := by
  apply CryptSession.storeAll_ok
  intro w hw
  simp only [List.mem_cons, List.not_mem_nil, or_false] at hw
  rcases hw with rfl | rfl | rfl
  · exact h.material.rangeMapped h.inv
  · rw [CryptKeyRecord.bytes_length]
    exact h.record.rangeMapped h.inv
  · rw [toBytes_length]
    exact (h.apart_handle hgood).2.2

theorem NewKey.stored {mgr : MemoryManager ε} {k : StreamKey}
    (h : NewKey arch outside limit t.session.guest.mgr mgr k) (hgood : t.DeriveGood arch b)
    (hlength : 0 < k.material.length ∧ k.material.length ≤ 256) :
    KeyStored arch (t.derived arch b k mgr) k := by
  obtain ⟨hkeyp, hhandle, _⟩ := h.apart_handle hgood
  have hown : Apart k.keyp k.material.length k.handle (CryptKeyRecord.size arch) :=
    h.material.apart h.inv h.record h.ne
  have hpair : List.Pairwise (fun v w : Nat × List UInt8 =>
      v.1 + v.2.length ≤ w.1 ∨ w.1 + w.2.length ≤ v.1)
      [(k.keyp, k.material), (k.handle, k.record.bytes arch), (b.phKey, toBytes arch.ptrSize k.handle)] := by
    simp only [List.pairwise_cons, List.mem_cons, List.not_mem_nil, or_false, forall_eq_or_imp, forall_eq,
      List.Pairwise.nil, CryptKeyRecord.bytes_length, toBytes_length, and_true, false_imp_iff, implies_true]
    exact ⟨⟨hown, hkeyp⟩, hhandle⟩
  exact {
    record := h.record
    material := h.material
    holdsRecord := ByteMemory.holds_writeAll hpair (List.mem_cons_of_mem _ List.mem_cons_self)
    holdsMaterial := ByteMemory.holds_writeAll hpair List.mem_cons_self
    length := hlength
    keypLt := h.keypLt }

theorem NewKey.keeps {mgr : MemoryManager ε} {k l : StreamKey}
    (h : NewKey arch outside limit t.session.guest.mgr mgr k) (hgood : t.DeriveGood arch b)
    (hl : l ∈ t.keys) (hstored : KeyStored arch t.session.guest l) :
    KeyStored arch (t.derived arch b k mgr) l := by
  have hsame : ∀ c n, Allocated t.session.guest.mgr c n → Apart b.phKey arch.ptrSize c n →
      (t.derived arch b k mgr).bytes.readBytes c n = t.session.guest.bytes.readBytes c n := by
    intro c n hc hph
    obtain ⟨hkeyp, hhandle⟩ := h.apart hc
    apply ByteMemory.readBytes_writeAll_of_apart
    intro w hw
    simp only [List.mem_cons, List.not_mem_nil, or_false] at hw
    rcases hw with rfl | rfl | rfl
    · exact hkeyp.symm
    · rw [CryptKeyRecord.bytes_length]
      exact hhandle.symm
    · rw [toBytes_length]
      exact hph.symm
  obtain ⟨hrecord, hmaterial⟩ := hgood.handle l hl
  exact hstored.keep (fun c n hc => (h.old c n hc).1) (hsame _ _ hstored.record hrecord)
    (hsame _ _ hstored.material hmaterial)

/-- Two allocations of `CryptDeriveKey` give a new key. -/
theorem newKey_of_allocations [LawfulPageEngine ε] {mgr mgr1 mgr2 : MemoryManager ε} (hi : mgr.Inv outside)
    (hb : mgr.Below limit) (he : env.Limited limit) (hlimit : limit ≤ 256 ^ arch.ptrSize)
    {material : List UInt8} (hlen : 0 < material.length) {keyp handle : Nat}
    (h1 : memMap env mgr { size := material.length } = (.ok keyp, mgr1))
    (h2 : memMap env mgr1 { size := CryptKeyRecord.size arch } = (.ok handle, mgr2)) :
    NewKey arch outside limit mgr mgr2 ⟨handle, keyp, material, 0⟩ := by
  obtain ⟨hi1, hb1, ha1, _, hle1, hold1⟩ := memMap_allocated hi he hb rfl h1
  obtain ⟨hi2, hb2, ha2, _, _, hold2⟩ := memMap_allocated hi1 he hb1 rfl h2
  obtain ⟨hkeyp, hne⟩ := hold2 _ _ ha1
  have hle : keyp + material.length ≤ limit := hle1
  refine ⟨hi2, hb2, ha2, hkeyp, hne, ?_, fun c n hc => ?_⟩
  · show keyp < 256 ^ arch.ptrSize
    omega
  · obtain ⟨hc1, hne1⟩ := hold1 c n hc
    obtain ⟨hc2, hne2⟩ := hold2 c n hc1
    exact ⟨hc2, hne1, hne2⟩

/-- The state with a new key. -/
theorem Inv.withKey (h : Inv arch outside limit t) (hgood : t.DeriveGood arch b) {mgr : MemoryManager ε}
    {k : StreamKey} (hnew : NewKey arch outside limit t.session.guest.mgr mgr k)
    (hlength : 0 < k.material.length ∧ k.material.length ≤ 256) (hpos : k.pos = 0) :
    Inv arch outside limit
      { t with session := { t.session with guest := t.derived arch b k mgr }, keys := t.keys ++ [k] } where
  mgr := hnew.inv
  below := hnew.below
  stored := by
    intro l hl
    rcases List.mem_append.mp hl with hl | hl
    · exact hnew.keeps hgood hl (h.stored l hl)
    · cases List.mem_singleton.mp hl
      exact hnew.stored hgood hlength
  distinct := by
    rw [List.map_append, List.map_singleton]
    refine List.nodup_append.mpr ⟨h.distinct, by simp, ?_⟩
    intro c hc d hd heq
    obtain ⟨l, hl, rfl⟩ := List.mem_map.mp hc
    cases List.mem_singleton.mp hd
    exact (hnew.old _ _ (h.stored l hl).record).2.2 heq
  cipher := by
    have hc := h.cipher
    unfold CipherOf at hc ⊢
    cases hu : t.user with
    | none =>
      rw [hu] at hc
      refine ⟨hc.1, fun l hl => ?_⟩
      rcases List.mem_append.mp hl with hl | hl
      · exact hc.2 l hl
      · cases List.mem_singleton.mp hl
        exact hpos
    | some handle =>
      rw [hu] at hc
      obtain ⟨l, hl, hlh, hrc4, hothers⟩ := hc
      refine ⟨l, List.mem_append_left _ hl, hlh, hrc4, fun m hm hne => ?_⟩
      rcases List.mem_append.mp hm with hm | hm
      · exact hothers m hm hne
      · cases List.mem_singleton.mp hm
        exact hpos

theorem Inv.withMgr (h : Inv arch outside limit t) {mgr : MemoryManager ε} (hi : mgr.Inv outside)
    (hb : mgr.Below limit) (hkeep : ∀ c n, Allocated t.session.guest.mgr c n → Allocated mgr c n) :
    Inv arch outside limit
      { t with session := { t.session with guest := ⟨mgr, t.session.guest.bytes⟩ } } where
  mgr := hi
  below := hb
  stored l hl := (h.stored l hl).keep hkeep rfl rfl
  distinct := h.distinct
  cipher := h.cipher

theorem Inv.deriveKey [LawfulPageEngine ε] (h : Inv arch outside limit t) (he : env.Limited limit)
    (hlimit : limit ≤ 256 ^ arch.ptrSize) (hgood : t.Good arch (.deriveKey b)) :
    Inv arch outside limit (t.step arch env stream (.deriveKey b)) := by
  rw [step, CryptSession.cryptDeriveKey]
  by_cases halg : b.algid ≠ calgRc4
  · rw [if_pos halg]
    exact h
  · rw [if_neg halg]
    cases hbase : b.baseData with
    | none => exact h
    | some digest =>
      simp only
      rcases hm1 : memMap env t.session.guest.mgr { size := (fixedDigest digest.bytes b.dwFlags).length }
        with ⟨e | keyp, mgr1⟩
      · simp only
        have hsame := memMap_error h.mgr hm1
        subst hsame
        exact h
      · simp only
        obtain ⟨hi1, hb1, _, _, _, hold1⟩ := memMap_allocated h.mgr he h.below rfl hm1
        rcases hm2 : memMap env mgr1 { size := CryptKeyRecord.size arch } with ⟨e | handle, mgr2⟩
        · simp only
          have hsame := memMap_error hi1 hm2
          subst hsame
          exact h.withMgr hi1 hb1 fun c n hc => (hold1 c n hc).1
        · have hlength := fixedDigest_length digest b.dwFlags
          have hnew := newKey_of_allocations h.mgr h.below he hlimit hlength.1 hm1 hm2
          have halg' : b.algid = calgRc4 := not_not.mp halg
          have hstore := hnew.storeAll_ok hgood
          unfold StreamKey.record at hstore
          simp only at hstore
          simp only [halg', hstore]
          have hstored := hnew.stored hgood hlength
          have hcast := congrArg CryptKeyRecord.keyp hstored.cast_record
          unfold StreamKey.record at hcast
          simp only at hcast
          have hkey := h.withKey hgood hnew hlength rfl
          simp only [Except.map, hcast]
          exact hkey

end CryptHistory

end

section

open PageEngine MemoryManager

namespace CryptHistory

variable {ε : Type} [PageEngine ε] {outside : Nat → Prop} {limit : Nat} {t : CryptHistory ε}

/-- A session in which no key was made yet. -/
structure Start (outside : Nat → Prop) (limit : Nat) (t : CryptHistory ε) : Prop where
  mgr : t.session.guest.mgr.Inv outside
  below : t.session.guest.mgr.Below limit
  rc4 : t.session.rc4 = none
  keys : t.keys = []
  user : t.user = none

theorem Start.inv {arch : Arch} (h : Start outside limit t) : Inv arch outside limit t where
  mgr := h.mgr
  below := h.below
  stored := by
    rw [h.keys]
    intro k hk
    cases hk
  distinct := by
    rw [h.keys]
    exact List.nodup_nil
  cipher := by
    unfold CipherOf
    rw [h.user]
    refine ⟨h.rc4, ?_⟩
    rw [h.keys]
    intro k hk
    cases hk

/-- Every call on a key goes on with the stream of the key, in the runs in which one stream is in use at
a time. -/
theorem run_cryptDecrypt [LawfulPageEngine ε] (arch : Arch) (env : MemEnv)
    (stream : List UInt8 → Nat → UInt8) (he : env.Limited limit) (hlimit : limit ≤ 256 ^ arch.ptrSize)
    (hstart : Start outside limit t) (ops : List CryptOp)
    (hgood : FoldRuns.EachStep (step arch env stream) (Good arch) t ops) :
    FoldRuns.EachStep (step arch env stream) (Law arch stream) t ops := by
  refine FoldRuns.eachStep_of_inv (I := Inv arch outside limit) (fun s op hi hop => ?_) hstart.inv hgood
  refine ⟨hi.law hop, ?_⟩
  cases op with
  | deriveKey a => exact hi.deriveKey he hlimit hop
  | decrypt a => exact hi.decrypt hop
  | guestWrite address data => exact hi.guestWrite hop

end CryptHistory

namespace Arc4

/-- A permutation of the bytes, as a number whose digits in base 256 are its values. -/
def entry (s i : Nat) : Nat := (s >>> (8 * i)) % 256

def setEntry (s i v : Nat) : Nat := s ^^^ ((entry s i ^^^ v) <<< (8 * i))

def swapEntries (s i j : Nat) : Nat := setEntry (setEntry s i (entry s j)) j (entry s i)

/-- The key schedule of RC4. -/
def schedule (key : List UInt8) : Nat :=
  ((List.range 256).foldl (fun (s, j) i =>
    let j := (j + entry s i + (key.getD (i % key.length) 0).toNat) % 256
    (swapEntries s i j, j)) (fromBytes ((List.range 256).map UInt8.ofNat), 0)).1

/-- The output byte of RC4 at a position. -/
def output : Nat → Nat → Nat → Nat → Nat
  | n, s, i, j =>
    let i := (i + 1) % 256
    let j := (j + entry s i) % 256
    let s := swapEntries s i j
    match n with
    | 0 => entry s ((entry s i + entry s j) % 256)
    | n + 1 => output n s i j

/-- The RC4 key stream. -/
def keyStream (key : List UInt8) (pos : Nat) : UInt8 := UInt8.ofNat (output pos (schedule key) 0 0)

example : (List.range 4).map (keyStream [0x4B, 0x65, 0x79]) = [0xEB, 0x9F, 0x77, 0x81] := by
  decide +kernel

end Arc4

namespace CryptHistory

open DriverState

def digestOf (b : UInt8) : HashDigest := ⟨List.replicate 16 b, by simp⟩

/-- The first page holds the length of the data, the data and the handles of the keys. -/
def freshCrypt : CryptHistory RegionEngine where
  session :=
    { guest := ⟨(memMap driverEnv (MemoryManager.init emptyEngine) { size := 0x1000 }).2,
        ByteMemory.writeBytes (fun _ => 0) 0x10100 [1, 0, 0, 0]⟩
      rc4 := none }
  keys := []
  user := none

def deriveOp (b : UInt8) (phKey : Nat) : CryptOp :=
  .deriveKey ⟨calgRc4, some (digestOf b), 0x80 * 2 ^ 16, phKey⟩

def decryptOp (hKey final pbData : Nat) : CryptOp := .decrypt ⟨hKey, 0, final, pbData, 0x10100⟩

theorem start_freshCrypt : Start (Mapped emptyEngine) 0x7FFF0000 freshCrypt where
  mgr := memMap_inv (inv_init emptyEngine) _
  below := memMap_below ⟨rfl, by simp [driverEnv]⟩ ⟨by decide, fun h => absurd rfl h⟩ _
  rc4 := rfl
  keys := rfl
  user := rfl

def twoKeys : CryptHistory RegionEngine :=
  (freshCrypt.step .x86 driverEnv Arc4.keyStream (deriveOp 1 0x10000)).step .x86 driverEnv Arc4.keyStream
    (deriveOp 2 0x10010)

instance (a n b k : Nat) : Decidable (Apart a n b k) := inferInstanceAs (Decidable (_ ∨ _))

instance {ε : Type} [PageEngine ε] (arch : Arch) (t : CryptHistory ε) (a n : Nat) :
    Decidable (t.LeavesKeys arch a n) := inferInstanceAs (Decidable (∀ k ∈ t.keys, _))

theorem good_firstKey : freshCrypt.Good .x86 (deriveOp 1 0x10000) :=
  ⟨by decide, by decide⟩

theorem good_secondKey :
    (freshCrypt.step .x86 driverEnv Arc4.keyStream (deriveOp 1 0x10000)).Good .x86 (deriveOp 2 0x10010) :=
  ⟨by decide, by decide⟩

theorem good_firstCall : twoKeys.Good .x86 (decryptOp 0x11020 1 0x10200) :=
  ⟨by decide, ⟨by decide, by decide, by decide⟩⟩

/-- The guest stores data of another length before the second call. -/
def writeOp : CryptOp := .guestWrite 0x10100 [3, 0, 0, 0]

theorem good_write :
    (twoKeys.step .x86 driverEnv Arc4.keyStream (decryptOp 0x11020 1 0x10200)).Good .x86 writeOp :=
  show (twoKeys.step .x86 driverEnv Arc4.keyStream (decryptOp 0x11020 1 0x10200)).LeavesKeys .x86 0x10100 4 by decide

theorem good_secondCall :
    ((twoKeys.step .x86 driverEnv Arc4.keyStream (decryptOp 0x11020 1 0x10200)).step .x86 driverEnv Arc4.keyStream
      writeOp).Good .x86 (decryptOp 0x11050 1 0x10300) :=
  ⟨by decide, ⟨by decide, by decide, by decide⟩⟩

theorem run_cryptDecrypt_twoKeys :
    FoldRuns.EachStep (step .x86 driverEnv Arc4.keyStream) (Law .x86 Arc4.keyStream) freshCrypt
      [deriveOp 1 0x10000, deriveOp 2 0x10010, decryptOp 0x11020 1 0x10200, writeOp,
        decryptOp 0x11050 1 0x10300] := by
  refine run_cryptDecrypt .x86 driverEnv Arc4.keyStream ⟨rfl, by simp [driverEnv]⟩ (by decide)
    start_freshCrypt _ ?_
  simp only [FoldRuns.eachStep_cons, FoldRuns.eachStep_nil, and_true]
  exact ⟨good_firstKey, good_secondKey, good_firstCall, good_write, good_secondCall⟩

/-- The first key is in the middle of its stream. -/
def midStream : CryptHistory RegionEngine :=
  twoKeys.step .x86 driverEnv Arc4.keyStream (decryptOp 0x11020 0 0x10200)

theorem not_law_midStream : ¬midStream.Law .x86 Arc4.keyStream (decryptOp 0x11050 0 0x10300) := by
  intro h
  have hkey : (⟨0x11050, 0x11030, List.replicate 16 2, 0⟩ : StreamKey) ∈ midStream.keys := by
    decide
  obtain ⟨session, hcall, -⟩ := h _ hkey rfl rfl (by decide) (by decide)
  have hwritten : (midStream.session.cryptDecrypt .x86 Arc4.keyStream
      ⟨0x11050, 0, 0, 0x10300, 0x10100⟩).map (fun r => r.1.written) = .ok (some [8]) := by decide +kernel
  rw [hcall] at hwritten
  exact absurd (Option.some.inj (Except.ok.inj hwritten)) (by decide +kernel)

/-- After a call on one key that is not final, a call on another key goes on with the stream of the first. -/
theorem cryptDecrypt_twoKeys :
    ¬FoldRuns.EachStep (step .x86 driverEnv Arc4.keyStream) (Law .x86 Arc4.keyStream) freshCrypt
      [deriveOp 1 0x10000, deriveOp 2 0x10010, decryptOp 0x11020 0 0x10200, decryptOp 0x11050 0 0x10300] := by
  intro h
  exact not_law_midStream (FoldRuns.eachStep_cons.mp (FoldRuns.eachStep_cons.mp (FoldRuns.eachStep_cons.mp
    (FoldRuns.eachStep_cons.mp h).2).2).2).1

end CryptHistory

end

end Speakeasy
