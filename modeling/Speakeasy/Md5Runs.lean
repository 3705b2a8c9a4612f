import Speakeasy.ApiRegistry
import Speakeasy.DeviceList
import Speakeasy.DeviceListRuns

namespace Speakeasy

section

open PageEngine

/-- The bytes of a text after its last whole block. -/
def blockTail (size : Nat) (data : List UInt8) : List UInt8 := data.drop (data.length / size * size)

theorem blockTail_length (size : Nat) (data : List UInt8) :
    (blockTail size data).length = data.length % size := by
  have hsplit := Nat.div_add_mod data.length size
  rw [Nat.mul_comm] at hsplit
  unfold blockTail
  rw [List.length_drop]
  omega

/-- The tail of a longer text needs the tail of the text before it and no other byte. -/
theorem blockTail_append (size : Nat) (data block : List UInt8) :
    blockTail size (data ++ block) = (blockTail size data ++ block).drop
      ((blockTail size data ++ block).length - (data.length + block.length) % size) := by
  have htail := blockTail_length size data
  have hdata := Nat.div_add_mod data.length size
  have hall := Nat.div_add_mod (data.length + block.length) size
  have hmono : data.length / size ≤ (data.length + block.length) / size :=
    Nat.div_le_div_right (Nat.le_add_right ..)
  have hle := Nat.mul_le_mul_left size hmono
  have hwhole : (data.take (data.length / size * size)).length = size * (data.length / size) := by
    rw [List.length_take, Nat.mul_comm]
    omega
  have hsplit : data ++ block =
      data.take (data.length / size * size) ++ (blockTail size data ++ block) := by
    unfold blockTail
    rw [← List.append_assoc, List.take_append_drop]
  conv_lhs => rw [blockTail, List.length_append, hsplit]
  have hskip : data.length + block.length - size * (data.length / size) -
      (data.length + block.length) % size =
        (data.length + block.length) / size * size - size * (data.length / size) := by
    rw [Nat.mul_comm _ size]
    omega
  have hlast : (blockTail size data ++ block).length - (data.length + block.length) % size =
      (data.length + block.length) / size * size - size * (data.length / size) := by
    rw [List.length_append, htail, ← hskip]
    omega
  have hnone : (data.take (data.length / size * size)).drop
      ((data.length + block.length) / size * size) = [] := by
    refine List.drop_eq_nil_of_le ?_
    rw [hwhole, Nat.mul_comm _ size]
    exact hle
  rw [List.drop_append, hnone, List.nil_append, hwhole, hlast]

def md5InitialState : List Nat := [0x67452301, 0xEFCDAB89, 0x98BADCFE, 0x10325476]

/-- The guest and the `hashlib` objects of the contexts, each as the data that it was given. -/
structure Md5Session (ε : Type) where
  guest : GuestMemory ε
  md5Contexts : PyDict Nat (List UInt8)

namespace Md5Session

variable {ε : Type} [PageEngine ε] (t : Md5Session ε)

def getMd5Context (ctxAddr : Nat) : List UInt8 × Md5Session ε :=
  match t.md5Contexts.lookup ctxAddr with
  | none => ([], { t with md5Contexts := t.md5Contexts.insert ctxAddr [] })
  | some md5 => (md5, t)

def memWrite (a : Nat) (data : List UInt8) : Except MemError Unit × Md5Session ε :=
  match t.guest.memWrite a data with
  | .error e => (.error e, t)
  | .ok guest => (.ok (), { t with guest })

def md5InitBytes : List UInt8 :=
  toBytes 4 0 ++ toBytes 4 0 ++ md5InitialState.flatMap (toBytes 4) ++ List.replicate 80 0

def md5Init (context : Nat) : Except MemError Unit × Md5Session ε :=
  memWrite { t with md5Contexts := t.md5Contexts.insert context [] } context md5InitBytes

def md5Update (context input inlen : Nat) : Except MemError Unit × Md5Session ε :=
  match t.guest.memRead context 8 with
  | .error e => (.error e, t)
  | .ok bits =>
    let bits := fromBytes bits
    match if inlen ≠ 0 then t.guest.memRead input inlen else .ok [] with
    | .error e => (.error e, t)
    | .ok block =>
      let (md5, t) := t.getMd5Context context
      let t := { t with md5Contexts := t.md5Contexts.insert context (md5 ++ block) }
      let buffered := bits / 8 % 64
      match if buffered ≠ 0 then t.guest.memRead (context + 24) buffered else .ok [] with
      | .error e => (.error e, t)
      | .ok pending =>
        let pending := pending ++ block
        -- the difference is never negative: the buffered bytes and the chunk end where the data ends
        let tail := pending.drop (pending.length - (bits / 8 + inlen) % 64)
        match t.memWrite context (toBytes 8 ((bits + inlen * 8) % 2 ^ 64)) with
        | (.error e, t) => (.error e, t)
        | (.ok (), t) => t.memWrite (context + 24) tail

def md5Final (md5 : List UInt8 → List UInt8) (context : Nat) : Except MemError Unit × Md5Session ε :=
  let (data, t) := t.getMd5Context context
  let digest := md5 data
  match t.memWrite (context + 8) digest with
  | (.error e, t) => (.error e, t)
  | (.ok (), t) =>
    match t.memWrite (context + 88) digest with
    | (.error e, t) => (.error e, t)
    | (.ok (), t) => (.ok (), { t with md5Contexts := t.md5Contexts.erase context })

end Md5Session

inductive Md5Op
  | init (context : Nat)
  | update (context input inlen : Nat)
  | final (context : Nat)
  /-- A write of the program. -/
  | write (a : Nat) (data : List UInt8)

/-- A session with the chunks of each context since its `MD5Init`, and since its last `MD5Init` or
`MD5Final`. -/
structure Md5History (ε : Type) where
  session : Md5Session ε
  since : Nat → Option (List (List UInt8))
  chunks : Nat → List (List UInt8)

namespace Md5History

variable {ε : Type} [PageEngine ε] (md5 : List UInt8 → List UInt8)

/-- The bytes that an update takes. -/
def block (t : Md5History ε) (input inlen : Nat) : List UInt8 := t.session.guest.bytes.readBytes input inlen

def step (t : Md5History ε) : Md5Op → Md5History ε
  | .init context =>
    match t.session.md5Init context with
    | (.error _, session) => { t with session }
    | (.ok (), session) =>
      ⟨session, Function.update t.since context (some []), Function.update t.chunks context []⟩
  | .update context input inlen =>
    match t.session.md5Update context input inlen with
    | (.error _, session) => { t with session }
    | (.ok (), session) =>
      ⟨session, Function.update t.since context ((t.since context).map (· ++ [t.block input inlen])),
        Function.update t.chunks context (t.chunks context ++ [t.block input inlen])⟩
  | .final context =>
    match t.session.md5Final md5 context with
    | (.error _, session) => { t with session }
    | (.ok (), session) => { t with session, chunks := Function.update t.chunks context [] }
  | .write a data => { t with session := (t.session.memWrite a data).2 }

/-- The count and the buffer of a context that was given some data. -/
structure ContextHolds (m : ByteMemory) (context : Nat) (data : List UInt8) : Prop where
  count : m.readInt context 8 = data.length * 8 % 2 ^ 64
  buffer : m.readBytes (context + 24) (data.length % 64) = blockTail 64 data

/-- `MD5Final` writes the MD5 of the chunks. -/
structure FinalLaw (t : Md5History ε) (context : Nat) (chunks : List (List UInt8)) : Prop where
  returns : (t.session.md5Final md5 context).1 = .ok ()
  buf : (t.session.md5Final md5 context).2.guest.bytes.readBytes (context + 8) 16 = md5 chunks.flatten
  digest : (t.session.md5Final md5 context).2.guest.bytes.readBytes (context + 88) 16 = md5 chunks.flatten

/-- A call writes no byte outside its context. -/
def Frame (t : Md5History ε) (op : Md5Op) (context : Nat) : Prop :=
  ∀ x, x < context ∨ context + 104 ≤ x →
    (t.step md5 op).session.guest.bytes x = t.session.guest.bytes x

/-- The law of one call: `MD5Final` writes the MD5 of the chunks since the last `MD5Init` or `MD5Final`. -/
def Law (t : Md5History ε) (op : Md5Op) : Prop :=
  match op with
  | .init context => (t.session.md5Init context).1 = .ok () ∧ t.Frame md5 op context
  | .update context input inlen => t.Frame md5 op context ∧
    (t.session.guest.RangeMapped input inlen →
      (t.session.md5Update context input inlen).1 = .ok () ∧
      ∀ chunks, t.since context = some chunks →
        ContextHolds (t.session.md5Update context input inlen).2.guest.bytes context
          (chunks ++ [t.block input inlen]).flatten)
  | .final context => t.Frame md5 op context ∧ t.FinalLaw md5 context (t.chunks context)
  | .write _ _ => True

/-- The law with the MD5 of all chunks since the last `MD5Init`. -/
def SinceLaw (t : Md5History ε) (op : Md5Op) : Prop :=
  match op with
  | .final context => t.Frame md5 op context ∧
    ∀ chunks, t.since context = some chunks → t.FinalLaw md5 context chunks
  | op => t.Law md5 op

/-- A call is on one of the contexts, and the program writes to none of them. -/
def Allowed (contexts : List Nat) : Md5Op → Prop
  | .init context | .update context _ _ | .final context => context ∈ contexts
  | .write a data => ∀ c ∈ contexts, a + data.length ≤ c ∨ c + 104 ≤ a

end Md5History

end

section

open PageEngine MemoryManager

namespace Md5Session

section Objects

variable {ε : Type} {t : Md5Session ε} {context input inlen : Nat}

/-- The data of the `hashlib` object of a context. A context without one gets a new one. -/
def hashed (t : Md5Session ε) (context : Nat) : List UInt8 := (t.md5Contexts.lookup context).getD []

theorem getMd5Context_eq (t : Md5Session ε) (context : Nat) :
    ∃ contexts, t.getMd5Context context = (t.hashed context, ⟨t.guest, contexts⟩) ∧
      hashed ⟨t.guest, contexts⟩ = t.hashed := by
  unfold getMd5Context
  cases h : t.md5Contexts.lookup context with
  | some data =>
    refine ⟨t.md5Contexts, ?_, rfl⟩
    unfold hashed
    rw [h]
    rfl
  | none =>
    refine ⟨t.md5Contexts.insert context [], ?_, ?_⟩
    · unfold hashed
      rw [h]
      rfl
    · funext c
      unfold hashed
      by_cases hc : c = context
      · rw [hc, AList.lookup_insert, h, Option.getD_none, Option.getD_some]
      · rw [AList.lookup_insert_ne hc]

theorem hashed_insert (guest : GuestMemory ε) (contexts : PyDict Nat (List UInt8)) (data : List UInt8) :
    hashed ⟨guest, contexts.insert context data⟩ =
      Function.update (hashed ⟨guest, contexts⟩) context data := by
  funext c
  unfold hashed
  by_cases hc : c = context
  · rw [hc, AList.lookup_insert, Function.update_self, Option.getD_some]
  · rw [AList.lookup_insert_ne hc, Function.update_of_ne hc]

theorem hashed_erase (guest : GuestMemory ε) (contexts : PyDict Nat (List UInt8)) :
    hashed ⟨guest, contexts.erase context⟩ = Function.update (hashed ⟨guest, contexts⟩) context [] := by
  funext c
  unfold hashed
  by_cases hc : c = context
  · rw [hc, AList.lookup_erase, Function.update_self, Option.getD_none]
  · rw [AList.lookup_erase_ne hc, Function.update_of_ne hc]

end Objects

variable {ε : Type} [PageEngine ε] {t : Md5Session ε} {context input inlen : Nat}

theorem memWrite_ok {g : GuestMemory ε} {a : Nat} {data : List UInt8} (h : g.RangeMapped a data.length)
    (contexts : PyDict Nat (List UInt8)) :
    memWrite ⟨g, contexts⟩ a data = (.ok (), ⟨⟨g.mgr, g.bytes.writeBytes a data⟩, contexts⟩) := by
  have hguest : g.memWrite a data = .ok ⟨g.mgr, g.bytes.writeBytes a data⟩ := if_pos h
  rw [memWrite, hguest]

/-- A part of a context is mapped. -/
theorem part_mapped {g : GuestMemory ε} (h : g.RangeMapped context 104) {k n : Nat} (hk : k + n ≤ 104) :
    g.RangeMapped (context + k) n := by
  intro i hi
  have := h (k + i) (by omega)
  rwa [← Nat.add_assoc] at this

theorem md5InitBytes_length : md5InitBytes.length = 104 := by decide

theorem md5Init_ok (h : t.guest.RangeMapped context 104) :
    (t.md5Init context).1 = .ok () ∧
    (t.md5Init context).2.guest = ⟨t.guest.mgr, t.guest.bytes.writeBytes context md5InitBytes⟩ ∧
    (t.md5Init context).2.hashed = Function.update t.hashed context [] := by
  have hlen := md5InitBytes_length
  have hcall : t.md5Init context = (.ok (), ⟨⟨t.guest.mgr, t.guest.bytes.writeBytes context md5InitBytes⟩,
      t.md5Contexts.insert context []⟩) := memWrite_ok (hlen ▸ h) _
  rw [hcall]
  refine ⟨rfl, rfl, ?_⟩
  rw [hashed_insert]
  rfl

/-- The bytes that an update leaves in the buffer. -/
def updatedTail (m : ByteMemory) (context : Nat) (block : List UInt8) : List UInt8 :=
  let bits := m.readInt context 8
  let pending := m.readBytes (context + 24) (bits / 8 % 64) ++ block
  pending.drop (pending.length - (bits / 8 + block.length) % 64)

theorem updatedTail_length_le (m : ByteMemory) (context : Nat) (block : List UInt8) :
    (updatedTail m context block).length ≤ 64 := by
  rw [updatedTail, List.length_drop]
  omega

def updatedCount (m : ByteMemory) (context : Nat) (block : List UInt8) : List UInt8 :=
  toBytes 8 ((m.readInt context 8 + block.length * 8) % 2 ^ 64)

def updatedBytes (m : ByteMemory) (context : Nat) (block : List UInt8) : ByteMemory :=
  (m.writeBytes context (updatedCount m context block)).writeBytes (context + 24)
    (updatedTail m context block)

theorem md5Update_ok (h : t.guest.RangeMapped context 104) (hin : t.guest.RangeMapped input inlen) :
    (t.md5Update context input inlen).1 = .ok () ∧
    (t.md5Update context input inlen).2.guest =
      ⟨t.guest.mgr, updatedBytes t.guest.bytes context (t.guest.bytes.readBytes input inlen)⟩ ∧
    (t.md5Update context input inlen).2.hashed = Function.update t.hashed context
      (t.hashed context ++ t.guest.bytes.readBytes input inlen) := by
  have hbits : t.guest.memRead context 8 = .ok (t.guest.bytes.readBytes context 8) :=
    if_pos (part_mapped (k := 0) h (by omega))
  have hblock : (if inlen ≠ 0 then t.guest.memRead input inlen else .ok []) =
      .ok (t.guest.bytes.readBytes input inlen) := by
    split
    next => exact if_pos hin
    next hzero => rw [not_not.mp hzero]; rfl
  have hpending : ∀ n, n ≤ 64 → (if n ≠ 0 then t.guest.memRead (context + 24) n else .ok []) =
      .ok (t.guest.bytes.readBytes (context + 24) n) := by
    intro n hn
    split
    next => exact if_pos (part_mapped h (by omega))
    next hzero => rw [not_not.mp hzero]; rfl
  obtain ⟨contexts, hobject, hsame⟩ := t.getMd5Context_eq context
  have hlength : (t.guest.bytes.readBytes input inlen).length = inlen := ByteMemory.readBytes_length ..
  have hcount : t.guest.RangeMapped context
      (updatedCount t.guest.bytes context (t.guest.bytes.readBytes input inlen)).length := by
    rw [updatedCount, toBytes_length]
    exact part_mapped (k := 0) h (by omega)
  have htail := updatedTail_length_le t.guest.bytes context (t.guest.bytes.readBytes input inlen)
  have hbuffer := part_mapped (k := 24) h (by omega : 24 + (updatedTail t.guest.bytes context
    (t.guest.bytes.readBytes input inlen)).length ≤ 104)
  have hcall : t.md5Update context input inlen = (.ok (), ⟨⟨t.guest.mgr,
      updatedBytes t.guest.bytes context (t.guest.bytes.readBytes input inlen)⟩,
      contexts.insert context (t.hashed context ++ t.guest.bytes.readBytes input inlen)⟩) := by
    have hfirst := memWrite_ok hcount (contexts.insert context
      (t.hashed context ++ t.guest.bytes.readBytes input inlen))
    have hsecond := memWrite_ok (g := ⟨t.guest.mgr, t.guest.bytes.writeBytes context
      (updatedCount t.guest.bytes context (t.guest.bytes.readBytes input inlen))⟩) hbuffer
      (contexts.insert context (t.hashed context ++ t.guest.bytes.readBytes input inlen))
    unfold updatedCount at hfirst
    rw [hlength] at hfirst
    unfold ByteMemory.readInt at hfirst
    simp only [md5Update, hbits, hblock, hobject, hpending _ (Nat.le_of_lt (Nat.mod_lt _ (by decide : 0 < 64))),
      hfirst]
    refine Eq.trans ?_ hsecond
    unfold updatedCount updatedTail
    rw [hlength]
    rfl
  rw [hcall]
  refine ⟨rfl, rfl, ?_⟩
  rw [hashed_insert]
  exact congrArg (Function.update · context _) hsame

theorem md5Update_raises (h : t.guest.RangeMapped context 104) (hin : ¬t.guest.RangeMapped input inlen) :
    ∃ e, t.md5Update context input inlen = (.error e, t) := by
  have hbits : t.guest.memRead context 8 = .ok (t.guest.bytes.readBytes context 8) :=
    if_pos (part_mapped (k := 0) h (by omega))
  have hpos : inlen ≠ 0 := by
    rintro rfl
    exact hin fun i hi => absurd hi (Nat.not_lt_zero i)
  have hblock : t.guest.memRead input inlen = .error (.uc .readUnmapped) := if_neg hin
  refine ⟨.uc .readUnmapped, ?_⟩
  simp only [md5Update, hbits, if_pos hpos, hblock]

theorem md5Final_ok {md5 : List UInt8 → List UInt8} (hmd5 : ∀ data, (md5 data).length = 16)
    (h : t.guest.RangeMapped context 104) :
    (t.md5Final md5 context).1 = .ok () ∧
    (t.md5Final md5 context).2.guest = ⟨t.guest.mgr,
      (t.guest.bytes.writeBytes (context + 8) (md5 (t.hashed context))).writeBytes (context + 88)
        (md5 (t.hashed context))⟩ ∧
    (t.md5Final md5 context).2.hashed = Function.update t.hashed context [] := by
  obtain ⟨contexts, hobject, hsame⟩ := t.getMd5Context_eq context
  have hlength := hmd5 (t.hashed context)
  have hbuf := memWrite_ok (part_mapped (k := 8) h (by omega : 8 + (md5 (t.hashed context)).length ≤ 104))
    contexts
  have hdigest := memWrite_ok (g := ⟨t.guest.mgr, t.guest.bytes.writeBytes (context + 8)
    (md5 (t.hashed context))⟩) (part_mapped (k := 88) h
      (by omega : 88 + (md5 (t.hashed context)).length ≤ 104)) contexts
  have hcall : t.md5Final md5 context = (.ok (), ⟨⟨t.guest.mgr,
      (t.guest.bytes.writeBytes (context + 8) (md5 (t.hashed context))).writeBytes (context + 88)
        (md5 (t.hashed context))⟩, contexts.erase context⟩) := by
    simp only [md5Final, hobject, hbuf, hdigest]
  rw [hcall]
  refine ⟨rfl, rfl, ?_⟩
  rw [hashed_erase]
  exact congrArg (Function.update · context _) hsame

end Md5Session

namespace Md5History

open Md5Session

variable {ε : Type} [PageEngine ε] {t : Md5History ε} {contexts : List Nat}

/-- The contexts are mapped and do not overlap. -/
structure Contexts (t : Md5History ε) (contexts : List Nat) : Prop where
  mapped : ∀ c ∈ contexts, t.session.guest.RangeMapped c 104
  apart : ∀ c ∈ contexts, ∀ d ∈ contexts, c ≠ d → c + 104 ≤ d ∨ d + 104 ≤ c

/-- What every run keeps. -/
structure Inv (contexts : List Nat) (t : Md5History ε) : Prop where
  separate : t.Contexts contexts
  hashed : ∀ c, t.session.hashed c = (t.chunks c).flatten
  holds : ∀ c ∈ contexts, ∀ chunks, t.since c = some chunks →
    ContextHolds t.session.guest.bytes c chunks.flatten

/-- A context keeps its count and its buffer where their bytes stay. -/
theorem ContextHolds.congr {m m' : ByteMemory} {c : Nat} {data : List UInt8} (h : ContextHolds m c data)
    (hsame : ∀ x, (c ≤ x ∧ x < c + 8) ∨ (c + 24 ≤ x ∧ x < c + 88) → m' x = m x) :
    ContextHolds m' c data where
  count := by
    have hcount : m'.readBytes c 8 = m.readBytes c 8 :=
      ByteMemory.readBytes_congr fun x hle hlt => hsame x (Or.inl ⟨hle, hlt⟩)
    rw [ByteMemory.readInt, hcount]
    exact h.count
  buffer := by
    have hlt := Nat.mod_lt data.length (by decide : 0 < 64)
    have hbuffer : m'.readBytes (c + 24) (data.length % 64) = m.readBytes (c + 24) (data.length % 64) :=
      ByteMemory.readBytes_congr fun x hle hx => hsame x (Or.inr ⟨hle, by omega⟩)
    rw [hbuffer]
    exact h.buffer

theorem ContextHolds.init (m : ByteMemory) (c : Nat) :
    ContextHolds (m.writeBytes c md5InitBytes) c [] where
  count := by
    have hread : (m.writeBytes c md5InitBytes).readBytes (c + 0) 8 = (md5InitBytes.drop 0).take 8 :=
      ByteMemory.readBytes_writeBytes (by decide)
    rw [Nat.add_zero] at hread
    rw [ByteMemory.readInt, hread]
    decide
  buffer := rfl

/-- The new count and tail of a context are those of the longer data. -/
theorem ContextHolds.updated {m : ByteMemory} {c : Nat} {data : List UInt8} (h : ContextHolds m c data)
    (block : List UInt8) : ContextHolds (updatedBytes m c block) c (data ++ block) := by
  have hbits : m.readInt c 8 / 8 % 64 = data.length % 64 := by
    rw [h.count]
    omega
  have hlast : (m.readInt c 8 / 8 + block.length) % 64 = (data.length + block.length) % 64 := by
    rw [h.count]
    omega
  have htail : updatedTail m c block = blockTail 64 (data ++ block) := by
    simp only [updatedTail, hbits, hlast, h.buffer]
    exact (blockTail_append 64 data block).symm
  have hlength : (updatedCount m c block).length = 8 := toBytes_length 8 _
  constructor
  · have happart : (updatedBytes m c block).readBytes c 8 =
        (m.writeBytes c (updatedCount m c block)).readBytes c 8 :=
      ByteMemory.readBytes_writeBytes_of_apart (by omega)
    have hself := ByteMemory.readBytes_writeBytes_self m c (updatedCount m c block)
    rw [hlength] at hself
    have hlt : (m.readInt c 8 + block.length * 8) % 2 ^ 64 < 256 ^ 8 := by omega
    rw [ByteMemory.readInt, happart, hself, updatedCount, fromBytes_toBytes_of_lt hlt, h.count,
      List.length_append]
    omega
  · have hself := ByteMemory.readBytes_writeBytes_self (m.writeBytes c (updatedCount m c block)) (c + 24)
      (updatedTail m c block)
    rw [htail, blockTail_length] at hself
    unfold updatedBytes
    rw [htail]
    exact hself

theorem updatedBytes_outside {m : ByteMemory} {c x : Nat} (block : List UInt8)
    (hx : x < c ∨ c + 104 ≤ x) : updatedBytes m c block x = m x := by
  have htail := updatedTail_length_le m c block
  have hlength : (updatedCount m c block).length = 8 := toBytes_length 8 _
  unfold updatedBytes
  rw [ByteMemory.writeBytes_outside (by omega), ByteMemory.writeBytes_outside (by omega)]

/-- A call on one context keeps the others. -/
theorem Inv.call (h : Inv contexts t) {t' : Md5History ε} {c : Nat} (hc : c ∈ contexts)
    (hmgr : t'.session.guest.mgr = t.session.guest.mgr)
    (hframe : ∀ x, x < c ∨ c + 104 ≤ x → t'.session.guest.bytes x = t.session.guest.bytes x)
    (hsince : ∀ d, d ≠ c → t'.since d = t.since d)
    (hhashed : ∀ d, t'.session.hashed d = (t'.chunks d).flatten)
    (hholds : ∀ chunks, t'.since c = some chunks → ContextHolds t'.session.guest.bytes c chunks.flatten) :
    Inv contexts t' where
  separate := by
    refine ⟨fun d hd => ?_, h.separate.apart⟩
    unfold GuestMemory.RangeMapped
    rw [hmgr]
    exact h.separate.mapped d hd
  hashed := hhashed
  holds := by
    intro d hd chunks hchunks
    by_cases hdc : d = c
    · subst hdc
      exact hholds chunks hchunks
    · rw [hsince d hdc] at hchunks
      have hapart := h.separate.apart c hc d hd (Ne.symm hdc)
      exact (h.holds d hd chunks hchunks).congr fun x hx => hframe x (by omega)

variable {md5 : List UInt8 → List UInt8} {c input inlen : Nat}

theorem flatten_update {chunks : Nat → List (List UInt8)} {hashed : Nat → List UInt8}
    (h : ∀ d, hashed d = (chunks d).flatten) {data : List UInt8} {cs : List (List UInt8)}
    (hdata : data = cs.flatten) (d : Nat) :
    Function.update hashed c data d = (Function.update chunks c cs d).flatten := by
  by_cases hdc : d = c
  · rw [hdc, Function.update_self, Function.update_self, hdata]
  · rw [Function.update_of_ne hdc, Function.update_of_ne hdc, h]

theorem step_init (h : (t.session.md5Init c).1 = .ok ()) : t.step md5 (.init c) =
    ⟨(t.session.md5Init c).2, Function.update t.since c (some []), Function.update t.chunks c []⟩ := by
  rcases hcall : t.session.md5Init c with ⟨_ | _, session⟩
  · rw [hcall] at h
    cases h
  · unfold Md5History.step
    simp only [hcall]

theorem step_update (h : (t.session.md5Update c input inlen).1 = .ok ()) :
    t.step md5 (.update c input inlen) = ⟨(t.session.md5Update c input inlen).2,
      Function.update t.since c ((t.since c).map (· ++ [t.block input inlen])),
      Function.update t.chunks c (t.chunks c ++ [t.block input inlen])⟩ := by
  rcases hcall : t.session.md5Update c input inlen with ⟨_ | _, session⟩
  · rw [hcall] at h
    cases h
  · unfold Md5History.step
    simp only [hcall]

theorem step_final (h : (t.session.md5Final md5 c).1 = .ok ()) : t.step md5 (.final c) =
    ⟨(t.session.md5Final md5 c).2, t.since, Function.update t.chunks c []⟩ := by
  rcases hcall : t.session.md5Final md5 c with ⟨_ | _, session⟩
  · rw [hcall] at h
    cases h
  · unfold Md5History.step
    simp only [hcall]

theorem Inv.init (h : Inv contexts t) (hc : c ∈ contexts) :
    t.Law md5 (.init c) ∧ Inv contexts (t.step md5 (.init c)) := by
  obtain ⟨hok, hguest, hhashed⟩ := md5Init_ok (h.separate.mapped c hc)
  have hstep : t.step md5 (.init c) = _ := step_init hok
  have hframe : t.Frame md5 (.init c) c := by
    intro x hx
    rw [hstep, hguest]
    exact ByteMemory.writeBytes_outside (by rw [md5InitBytes_length]; exact hx)
  refine ⟨⟨hok, hframe⟩, h.call hc ?_ hframe ?_ ?_ ?_⟩
  · rw [hstep, hguest]
  · intro d hd
    rw [hstep]
    exact Function.update_of_ne hd _ _
  · intro d
    rw [hstep, hhashed]
    exact flatten_update h.hashed List.flatten_nil.symm d
  · intro chunks hchunks
    rw [hstep] at hchunks ⊢
    cases (Function.update_self c (some []) t.since).symm.trans hchunks
    rw [hguest]
    exact ContextHolds.init _ c

theorem Inv.update (h : Inv contexts t) (hc : c ∈ contexts) :
    t.Law md5 (.update c input inlen) ∧ Inv contexts (t.step md5 (.update c input inlen)) := by
  by_cases hin : t.session.guest.RangeMapped input inlen
  · obtain ⟨hok, hguest, hhashed⟩ := md5Update_ok (h.separate.mapped c hc) hin
    have hstep : t.step md5 (.update c input inlen) = _ := step_update hok
    have hframe : t.Frame md5 (.update c input inlen) c := by
      intro x hx
      rw [hstep, hguest]
      exact updatedBytes_outside _ hx
    have hholds : ∀ chunks, t.since c = some chunks →
        ContextHolds (t.session.md5Update c input inlen).2.guest.bytes c
          (chunks ++ [t.block input inlen]).flatten := by
      intro chunks hchunks
      rw [hguest, List.flatten_append, List.flatten_singleton]
      exact (h.holds c hc chunks hchunks).updated _
    refine ⟨⟨hframe, fun _ => ⟨hok, hholds⟩⟩, h.call hc ?_ hframe ?_ ?_ ?_⟩
    · rw [hstep, hguest]
    · intro d hd
      rw [hstep]
      exact Function.update_of_ne hd _ _
    · intro d
      rw [hstep, hhashed]
      refine flatten_update h.hashed ?_ d
      rw [List.flatten_append, List.flatten_singleton, h.hashed]
      rfl
    · intro chunks hchunks
      rw [hstep] at hchunks ⊢
      have hmap := (Function.update_self c ((t.since c).map (· ++ [t.block input inlen])) t.since).symm.trans
        hchunks
      obtain ⟨before, hbefore, rfl⟩ := Option.map_eq_some_iff.mp hmap
      exact hholds before hbefore
  · obtain ⟨e, hcall⟩ := md5Update_raises (h.separate.mapped c hc) hin
    have hstep : t.step md5 (.update c input inlen) = t := by
      unfold Md5History.step
      simp only [hcall]
    refine ⟨⟨?_, fun hmapped => absurd hmapped hin⟩, hstep.symm ▸ h⟩
    intro x _
    rw [hstep]

theorem Inv.final (h : Inv contexts t) (hmd5 : ∀ data, (md5 data).length = 16) (hc : c ∈ contexts) :
    t.Law md5 (.final c) ∧ Inv contexts (t.step md5 (.final c)) := by
  obtain ⟨hok, hguest, hhashed⟩ := md5Final_ok hmd5 (h.separate.mapped c hc)
  have hlength := hmd5 (t.session.hashed c)
  have hstep := step_final hok
  have hbytes : ∀ x, x < c + 8 ∨ (c + 24 ≤ x ∧ x < c + 88) ∨ c + 104 ≤ x →
      (t.session.md5Final md5 c).2.guest.bytes x = t.session.guest.bytes x := by
    intro x hx
    rw [hguest]
    exact (ByteMemory.writeBytes_outside (by omega)).trans (ByteMemory.writeBytes_outside (by omega))
  have hframe : t.Frame md5 (.final c) c := by
    intro x hx
    rw [hstep]
    exact hbytes x (by omega)
  have hlaw : t.FinalLaw md5 c (t.chunks c) := by
    have hself := fun (m : ByteMemory) a => hlength ▸ ByteMemory.readBytes_writeBytes_self m a
      (md5 (t.session.hashed c))
    constructor
    · exact hok
    · rw [hguest, ← h.hashed]
      exact (ByteMemory.readBytes_writeBytes_of_apart (by omega)).trans (hself _ _)
    · rw [hguest, ← h.hashed]
      exact hself _ _
  refine ⟨⟨hframe, hlaw⟩, h.call hc ?_ hframe (fun d _ => by rw [hstep]) ?_ ?_⟩
  · rw [hstep, hguest]
  · intro d
    rw [hstep, hhashed]
    exact flatten_update h.hashed List.flatten_nil.symm d
  · intro chunks hchunks
    rw [hstep] at hchunks ⊢
    exact (h.holds c hc chunks hchunks).congr fun x hx => hbytes x (by omega)

/-- The program writes beside the contexts. -/
theorem Inv.write (h : Inv contexts t) {a : Nat} {data : List UInt8}
    (hop : Allowed contexts (.write a data)) : Inv contexts (t.step md5 (.write a data)) := by
  by_cases hmapped : t.session.guest.RangeMapped a data.length
  · have hwrite := memWrite_ok hmapped t.session.md5Contexts
    have hstep : t.step md5 (.write a data) = { t with session :=
        ⟨⟨t.session.guest.mgr, t.session.guest.bytes.writeBytes a data⟩, t.session.md5Contexts⟩ } := by
      unfold Md5History.step
      exact congrArg (fun r => { t with session := r.2 }) hwrite
    rw [hstep]
    refine ⟨⟨h.separate.mapped, h.separate.apart⟩, h.hashed, fun d hd chunks hchunks => ?_⟩
    have hapart := hop d hd
    exact (h.holds d hd chunks hchunks).congr fun x hx => ByteMemory.writeBytes_outside (by omega)
  · have hwrite : t.session.memWrite a data = (.error (.uc .writeUnmapped), t.session) := by
      rw [memWrite, GuestMemory.memWrite, if_neg hmapped]
    have hstep : t.step md5 (.write a data) = t := by
      unfold Md5History.step
      simp only [hwrite]
    exact hstep.symm ▸ h

theorem Inv.step (h : Inv contexts t) (hmd5 : ∀ data, (md5 data).length = 16) {op : Md5Op}
    (hop : Allowed contexts op) : t.Law md5 op ∧ Inv contexts (t.step md5 op) := by
  cases op with
  | init c => exact h.init hop
  | update c input inlen => exact h.update hop
  | final c => exact h.final hmd5 hop
  | write a data => exact ⟨trivial, h.write hop⟩

/-- A session before the first call. -/
structure Start (contexts : List Nat) (t : Md5History ε) : Prop where
  separate : t.Contexts contexts
  objects : t.session.md5Contexts = ∅
  since : ∀ c, t.since c = none
  chunks : ∀ c, t.chunks c = []

theorem Start.inv (h : Start contexts t) : Inv contexts t where
  separate := h.separate
  hashed c := by
    rw [hashed, h.objects, AList.lookup_empty, h.chunks]
    rfl
  holds c _ chunks hchunks := by
    rw [h.since] at hchunks
    cases hchunks

/-- Every interleaving of the calls keeps the law of the contexts. -/
theorem run_md5 (md5 : List UInt8 → List UInt8) (hmd5 : ∀ data, (md5 data).length = 16)
    (hstart : Start contexts t) (ops : List Md5Op) (hops : ∀ op ∈ ops, Allowed contexts op) :
    FoldRuns.EachStep (step md5) (Law md5) t ops := by
  have hallowed : FoldRuns.EachStep (step md5) (fun _ op => Allowed contexts op) t ops := by
    intro done op hdone
    exact hops op (hdone.subset (List.mem_append_right _ List.mem_cons_self))
  exact FoldRuns.eachStep_of_inv (I := Inv contexts) (fun _ op hi hop => hi.step hmd5 hop) hstart.inv
    hallowed

end Md5History

namespace Md5

/-- The constants of the rounds. -/
def sines : List Nat := [
  0xD76AA478, 0xE8C7B756, 0x242070DB, 0xC1BDCEEE, 0xF57C0FAF, 0x4787C62A,
  0xA8304613, 0xFD469501, 0x698098D8, 0x8B44F7AF, 0xFFFF5BB1, 0x895CD7BE,
  0x6B901122, 0xFD987193, 0xA679438E, 0x49B40821, 0xF61E2562, 0xC040B340,
  0x265E5A51, 0xE9B6C7AA, 0xD62F105D, 0x02441453, 0xD8A1E681, 0xE7D3FBC8,
  0x21E1CDE6, 0xC33707D6, 0xF4D50D87, 0x455A14ED, 0xA9E3E905, 0xFCEFA3F8,
  0x676F02D9, 0x8D2A4C8A, 0xFFFA3942, 0x8771F681, 0x6D9D6122, 0xFDE5380C,
  0xA4BEEA44, 0x4BDECFA9, 0xF6BB4B60, 0xBEBFBC70, 0x289B7EC6, 0xEAA127FA,
  0xD4EF3085, 0x04881D05, 0xD9D4D039, 0xE6DB99E5, 0x1FA27CF8, 0xC4AC5665,
  0xF4292244, 0x432AFF97, 0xAB9423A7, 0xFC93A039, 0x655B59C3, 0x8F0CCC92,
  0xFFEFF47D, 0x85845DD1, 0x6FA87E4F, 0xFE2CE6E0, 0xA3014314, 0x4E0811A1,
  0xF7537E82, 0xBD3AF235, 0x2AD7D2BB, 0xEB86D391]

def shifts (i : Nat) : Nat :=
  match i / 16 with
  | 0 => [7, 12, 17, 22].getD (i % 4) 0
  | 1 => [5, 9, 14, 20].getD (i % 4) 0
  | 2 => [4, 11, 16, 23].getD (i % 4) 0
  | _ => [6, 10, 15, 21].getD (i % 4) 0

def complement (x : Nat) : Nat := x ^^^ 0xFFFFFFFF

def rotate (x n : Nat) : Nat := (x * 2 ^ n + x / 2 ^ (32 - n)) % 2 ^ 32

/-- One of the 64 operations on the words of a block. -/
def round (words : List Nat) (s : Nat × Nat × Nat × Nat) (i : Nat) : Nat × Nat × Nat × Nat :=
  let (a, b, c, d) := s
  let (f, g) :=
    match i / 16 with
    | 0 => ((b &&& c) ||| (complement b &&& d), i)
    | 1 => ((d &&& b) ||| (complement d &&& c), (5 * i + 1) % 16)
    | 2 => (b ^^^ c ^^^ d, (3 * i + 5) % 16)
    | _ => (c ^^^ (b ||| complement d), 7 * i % 16)
  let sum := (a + f + sines.getD i 0 + words.getD g 0) % 2 ^ 32
  (d, (b + rotate sum (shifts i)) % 2 ^ 32, b, c)

def compress (s : Nat × Nat × Nat × Nat) (block : List UInt8) : Nat × Nat × Nat × Nat :=
  let words := (List.range 16).map fun k => fromBytes ((block.drop (4 * k)).take 4)
  let (a, b, c, d) := (List.range 64).foldl (round words) s
  ((s.1 + a) % 2 ^ 32, (s.2.1 + b) % 2 ^ 32, (s.2.2.1 + c) % 2 ^ 32, (s.2.2.2 + d) % 2 ^ 32)

def blocks : Nat → List UInt8 → Nat × Nat × Nat × Nat → Nat × Nat × Nat × Nat
  | 0, _, s => s
  | n + 1, data, s => blocks n (data.drop 64) (compress s (data.take 64))

def digest (data : List UInt8) : List UInt8 :=
  let padded := data ++ 0x80 :: List.replicate ((119 - data.length % 64) % 64) 0 ++
    toBytes 8 (data.length * 8)
  let (a, b, c, d) := blocks (padded.length / 64) padded (0x67452301, 0xEFCDAB89, 0x98BADCFE, 0x10325476)
  toBytes 4 a ++ toBytes 4 b ++ toBytes 4 c ++ toBytes 4 d

theorem digest_length (data : List UInt8) : (digest data).length = 16 := by
  simp only [digest, List.length_append, toBytes_length]

example : digest [0x61, 0x62, 0x63] = [0x90, 0x01, 0x50, 0x98, 0x3C, 0xD2, 0x4F, 0xB0,
    0xD6, 0x96, 0x3F, 0x7D, 0x28, 0xE1, 0x7F, 0x72] := by decide

end Md5

namespace Md5History

/-- A page for two contexts and their data. -/
def freshMd5 : Md5History RegionEngine where
  session :=
    { guest := ⟨(memMap DriverState.driverEnv (MemoryManager.init emptyEngine) { size := 0x1000 }).2,
        ByteMemory.writeBytes (fun _ => 0) 0x10200 [0x61, 0x62, 0x63]⟩
      md5Contexts := ∅ }
  since _ := none
  chunks _ := []

theorem start_freshMd5 : Start [0x10000, 0x10100] freshMd5 where
  separate := ⟨by decide, by decide⟩
  objects := rfl
  since _ := rfl
  chunks _ := rfl

theorem run_md5_freshMd5 : FoldRuns.EachStep (step Md5.digest) (Law Md5.digest) freshMd5
    [.init 0x10000, .init 0x10100, .update 0x10000 0x10200 3, .write 0x10200 [0x64], .update 0x10100 0x10200 1,
      .update 0x10000 0x10200 0, .final 0x10000, .final 0x10100] :=
  run_md5 Md5.digest Md5.digest_length start_freshMd5 _ (by
    intro op hop
    simp only [List.mem_cons, List.not_mem_nil, or_false] at hop
    rcases hop with rfl | rfl | rfl | rfl | rfl | rfl | rfl | rfl <;> simp [Allowed])

def finishedMd5 : Md5History RegionEngine :=
  ((freshMd5.step Md5.digest (.init 0x10000)).step Md5.digest (.update 0x10000 0x10200 1)).step Md5.digest
    (.final 0x10000)

theorem not_sinceLaw_finishedMd5 : ¬finishedMd5.SinceLaw Md5.digest (.final 0x10000) := by
  intro h
  have hchunks : finishedMd5.since 0x10000 = some [[0x61]] := by decide +kernel
  have hdigest := (h.2 _ hchunks).digest
  revert hdigest
  decide +kernel

/-- A second `MD5Final` does not give the digest of the data since `MD5Init`. -/
theorem md5Final_twice : ¬FoldRuns.EachStep (step Md5.digest) (SinceLaw Md5.digest) freshMd5
    [.init 0x10000, .update 0x10000 0x10200 1, .final 0x10000, .final 0x10000] := by
  intro h
  exact not_sinceLaw_finishedMd5 (FoldRuns.eachStep_cons.mp (FoldRuns.eachStep_cons.mp
    (FoldRuns.eachStep_cons.mp (FoldRuns.eachStep_cons.mp h).2).2).2).1

end Md5History

end

end Speakeasy
