import Speakeasy.CodePageCalls
import Speakeasy.WideStringRuns

namespace Speakeasy

open PageEngine

variable {ε : Type} [PageEngine ε]

/-- A conversion of a NUL-terminated text, in one of the two directions. -/
inductive ConvertCall
  | wide (a : WideArgs)
  | multi (a : MultiArgs)

namespace ConvertCall

def convert (g : GuestMemory ε) (codecs : PyCodecs) (fuel : Nat) :
    ConvertCall → Except StringFault ConvertReply
  | wide a => g.wideCharToMultiByte codecs fuel a
  | multi a => g.multiByteToWideChar codecs fuel a

def source : ConvertCall → Nat
  | wide a => a.lpWideCharStr
  | multi a => a.lpMultiByteStr

/-- The bytes of a unit of the source. -/
def sourceWidth : ConvertCall → Nat
  | wide _ => 2
  | multi _ => 1

/-- The bytes of a unit of the destination. -/
def destWidth : ConvertCall → Nat
  | wide _ => 1
  | multi _ => 2

def dest : ConvertCall → Nat
  | wide a => a.lpMultiByteStr
  | multi a => a.lpWideCharStr

def size : ConvertCall → Nat
  | wide a => a.cbMultiByte % 2 ^ 32
  | multi a => a.cchWideChar % 2 ^ 32

def withLength (length : Nat) : ConvertCall → ConvertCall
  | wide a => wide { a with cchWideChar := length }
  | multi a => multi { a with cbMultiByte := length }

def withDest (dest size : Nat) : ConvertCall → ConvertCall
  | wide a => wide { a with lpMultiByteStr := dest, cbMultiByte := size }
  | multi a => multi { a with lpWideCharStr := dest, cchWideChar := size }

/-- A call that only asks for the size. -/
def IsQuery : ConvertCall → Prop
  | wide a => a.lpMultiByteStr = 0 ∨ a.cbMultiByte % 2 ^ 32 = 0
  | multi a => a.cchWideChar % 2 ^ 32 = 0

end ConvertCall

/-- What a call that has a destination owes to the size query before it. -/
structure SizedLaw (width size : Nat) (query call : ConvertReply) : Prop where
  inside : call.written.length ≤ size * width
  insufficient : call.lastError = .insufficientBuffer ↔ size < query.rv
  exact : ¬size < query.rv → call.written.length = query.rv * width ∧ call.rv = query.rv

structure ConversionLaw (g : GuestMemory ε) (codecs : PyCodecs) (fuel : Nat) (text : List Nat)
    (call : ConvertCall) : Prop where
  implied : ∀ m n, m % 2 ^ 32 = 0xFFFFFFFF → n % 2 ^ 32 = text.length + 1 →
    (call.withLength m).convert g codecs fuel = (call.withLength n).convert g codecs fuel
  replies : ∀ n, n % 2 ^ 32 = text.length + 1 →
    ∃ reply, (call.withLength n).convert g codecs fuel = .ok reply
  sized : ∀ n dest size query reply, ((call.withLength n).withDest dest size).IsQuery →
    ((call.withLength n).withDest dest size).convert g codecs fuel = .ok query →
    (call.withLength n).convert g codecs fuel = .ok reply → call.dest ≠ 0 → call.size ≠ 0 →
      SizedLaw call.destWidth call.size query reply

/-- The text with its NUL lies in mapped allocations. -/
structure SourceMapped (g : GuestMemory ε) (text : List Nat) (call : ConvertCall) : Prop where
  string : g.MappedString call.sourceWidth call.source text
  allocated : ∀ k < (text.length + 1) * call.sourceWidth,
    (g.mgr.getAddressMap (call.source + k)).isSome

/-- The address after the NUL of a wide text is valid, or the call does not come to the text, or the
destination has no room for the text without its NUL. -/
def ConversionGood (g : GuestMemory ε) (codecs : PyCodecs) (text : List Nat) : ConvertCall → Prop
  | .multi _ => True
  | .wide a =>
    g.mgr.isAddressValid (a.lpWideCharStr + (text.length + 1) * 2) ∨ a.lpWideCharStr = 0 ∨
      (a.codePage = CodePage.cpUtf8 ∧ (a.lpDefaultChar ≠ 0 ∨ a.lpUsedDefaultChar ≠ 0)) ∨
      ∀ cs, CodePage.encodeCodePage codecs (decodeUnits ByteMemory.replace text) a.codePage = some cs →
        a.lpMultiByteStr ≠ 0 ∧ a.cbMultiByte % 2 ^ 32 ≠ 0 ∧ a.cbMultiByte % 2 ^ 32 < cs.length

/-- The call comes to the text. -/
def WideArgs.Accepted (a : WideArgs) : Prop :=
  a.lpWideCharStr ≠ 0 ∧ ¬(a.codePage = CodePage.cpUtf8 ∧ (a.lpDefaultChar ≠ 0 ∨ a.lpUsedDefaultChar ≠ 0))

namespace GuestMemory

variable {g : GuestMemory ε} {codecs : PyCodecs} {fuel address : Nat} {us : List Nat}

theorem wideUnits_charBytes (h : ∀ u ∈ us, u < 0x10000) : wideUnits (charBytes 2 us) = us := by
  induction us with
  | nil => rfl
  | cons u us ih =>
    have hu : u < 256 ^ 2 := h u List.mem_cons_self
    have hbytes : toBytes 2 u = [UInt8.ofNat u, UInt8.ofNat (u / 256)] := rfl
    have hback := fromBytes_toBytes_of_lt hu
    rw [hbytes] at hback
    rw [charBytes_cons, hbytes, List.cons_append, List.cons_append, List.nil_append, wideUnits, hback,
      ih fun v hv => h v (List.mem_cons_of_mem _ hv)]

theorem units_lt {width : Nat} (h : g.MappedString width address us) : ∀ u ∈ us ++ [0], u < 256 ^ width :=
  h.array.lt

/-- The loop keeps the NUL when the address after it is valid. -/
theorem readWcs_eq (h : g.MappedString 2 address us) (hfuel : us.length < fuel)
    (halloc : ∀ k < (us.length + 1) * 2, (g.mgr.getAddressMap (address + k)).isSome) :
    g.readWcs fuel address = .ok (charBytes 2
      (if g.mgr.isAddressValid (address + (us.length + 1) * 2) then us ++ [0] else us)) := by
  induction us generalizing address fuel with
  | nil =>
    obtain ⟨fuel, rfl⟩ : ∃ n, fuel = n + 1 := ⟨fuel - 1, by omega⟩
    obtain ⟨hmapped, hread, hlt, -⟩ := MappedArray.cons_iff.mp h.array
    rw [readWcs, List.length_nil, Nat.zero_add, Nat.one_mul]
    split
    next =>
      rw [memRead_ok hmapped, hread]
      simp only [fromBytes_toBytes_of_lt hlt]
      rfl
    next => rfl
  | cons u us ih =>
    obtain ⟨fuel, rfl⟩ : ∃ n, fuel = n + 1 := ⟨fuel - 1, by omega⟩
    obtain ⟨hmapped, hread, hlt, hrest⟩ := MappedArray.cons_iff.mp h.array
    have hpos := (h.holds.chars u List.mem_cons_self).1
    have hstring : g.MappedString 2 (address + 2) us := by
      refine ⟨⟨hrest.holds, fun c hc => h.holds.chars c (List.mem_cons_of_mem _ hc)⟩, ?_⟩
      have hlen : g.RangeMapped (address + 2) ((us ++ [0]).length * 2) := hrest.mapped
      rwa [List.length_append] at hlen
    rw [List.length_cons] at hfuel halloc
    have hvalid : g.mgr.isAddressValid (address + 2) = true := by
      unfold MemoryManager.isAddressValid
      rw [halloc 2 (by omega), Bool.true_or]
    have hless : us.length < fuel := by omega
    have hnext := ih hstring hless fun k hk => by
      have := halloc (k + 2) (by omega)
      rwa [show address + (k + 2) = address + 2 + k by omega] at this
    have hend : address + 2 + (us.length + 1) * 2 = address + ((u :: us).length + 1) * 2 := by
      rw [List.length_cons]
      omega
    rw [hend] at hnext
    rw [readWcs, if_pos hvalid, memRead_ok hmapped, hread]
    simp only [fromBytes_toBytes_of_lt hlt]
    rw [if_neg (by omega), hnext]
    split
    next => rfl
    next => rfl

theorem encodeAnsi_nul (text : List Nat) : CodePage.encodeAnsi (text ++ [0]) = CodePage.encodeAnsi text ++ [0] := by
  rw [CodePage.encodeAnsi, List.map_append]
  rfl

theorem encodeCodePage_nul (codecs : PyCodecs) (text : List Nat) (codePage : Nat) :
    CodePage.encodeCodePage codecs (text ++ [0]) codePage =
      (CodePage.encodeCodePage codecs text codePage).map (· ++ [0]) := by
  unfold CodePage.encodeCodePage
  cases CodePage.getCodec codePage with
  | none => rfl
  | some codec =>
    cases codec with
    | none => exact congrArg some (encodeAnsi_nul text)
    | some codec => exact congrArg some (codecs.encode_nul codec text)

/-- The destination of a call has no room for the bytes. -/
abbrev Overflows (a : WideArgs) (cs : List UInt8) : Prop :=
  a.lpMultiByteStr ≠ 0 ∧ a.cbMultiByte % 2 ^ 32 ≠ 0 ∧ a.cbMultiByte % 2 ^ 32 < cs.length

theorem encodeReply_overflows {a : WideArgs} {text : List Nat} {cs : List UInt8}
    (hcs : CodePage.encodeCodePage codecs text a.codePage = some cs) (h : Overflows a cs) :
    encodeReply codecs a text =
      { rv := 0, lastError := .insufficientBuffer, written := cs.take (a.cbMultiByte % 2 ^ 32) } := by
  simp only [encodeReply, hcs, if_pos h]

theorem encodeReply_fits {a : WideArgs} {text : List Nat} {cs : List UInt8}
    (hcs : CodePage.encodeCodePage codecs text a.codePage = some cs) (h : ¬Overflows a cs) :
    (encodeReply codecs a text).rv = cs.length ∧ (encodeReply codecs a text).lastError = .success ∧
      (encodeReply codecs a text).written =
        if a.lpMultiByteStr = 0 ∨ a.cbMultiByte % 2 ^ 32 = 0 then [] else cs := by
  simp only [encodeReply, hcs, if_neg h]
  split
  next => exact ⟨rfl, rfl, rfl⟩
  next => exact ⟨rfl, rfl, rfl⟩

/-- The NUL of the text makes no difference to the reply only where the text has no room. -/
theorem encodeReply_nul_iff (codecs : PyCodecs) (a : WideArgs) (text : List Nat) :
    encodeReply codecs a text = encodeReply codecs a (text ++ [0]) ↔
      ∀ cs, CodePage.encodeCodePage codecs text a.codePage = some cs → Overflows a cs := by
  have hnul := encodeCodePage_nul codecs text a.codePage
  cases hcs : CodePage.encodeCodePage codecs text a.codePage with
  | none =>
    rw [hcs, Option.map_none] at hnul
    refine iff_of_true ?_ (by simp)
    simp only [encodeReply, hcs, hnul]
  | some cs =>
    rw [hcs, Option.map_some] at hnul
    have hlen : (cs ++ [0]).length = cs.length + 1 := List.length_append ..
    by_cases hsmall : Overflows a cs
    · have hsmall' : Overflows a (cs ++ [0]) :=
        ⟨hsmall.1, hsmall.2.1, hlen ▸ Nat.lt_succ_of_lt hsmall.2.2⟩
      rw [encodeReply_overflows hcs hsmall, encodeReply_overflows hnul hsmall',
        List.take_append_of_le_length (Nat.le_of_lt hsmall.2.2)]
      exact iff_of_true rfl fun cs' heq => Option.some.inj heq ▸ hsmall
    · refine iff_of_false (fun heq => ?_) fun h => hsmall (h cs rfl)
      obtain ⟨hrv, herror, _⟩ := encodeReply_fits hcs hsmall
      rw [heq] at hrv herror
      by_cases hsmall' : Overflows a (cs ++ [0])
      · rw [encodeReply_overflows hnul hsmall'] at herror
        cases herror
      · rw [(encodeReply_fits hnul hsmall').1, hlen] at hrv
        omega

theorem decodeReply_spec {a : MultiArgs} {data : List UInt8} {mbs : List Nat}
    (hmbs : CodePage.decodeCodePage codecs data a.codePage = some mbs) :
    decodeReply codecs a data =
      if a.cchWideChar % 2 ^ 32 = 0 then { rv := (encodeUnits mbs).length, lastError := .success }
      else if a.cchWideChar % 2 ^ 32 < (encodeUnits mbs).length then
        { rv := 0, lastError := .insufficientBuffer,
          written := (charBytes 2 (encodeUnits mbs)).take (a.cchWideChar % 2 ^ 32 * 2) }
      else { rv := (encodeUnits mbs).length, lastError := .success,
             written := charBytes 2 (encodeUnits mbs) } := by
  simp only [decodeReply, hmbs, charBytes_length, Nat.mul_div_cancel _ (Nat.zero_lt_two)]

/-- The size query of a wide text and the call with the same text. -/
theorem encodeReply_sized {a : WideArgs} {dest size : Nat} (text : List Nat)
    (hquery : dest = 0 ∨ size % 2 ^ 32 = 0) (hdest : a.lpMultiByteStr ≠ 0)
    (hsize : a.cbMultiByte % 2 ^ 32 ≠ 0) :
    SizedLaw 1 (a.cbMultiByte % 2 ^ 32)
      (encodeReply codecs { a with lpMultiByteStr := dest, cbMultiByte := size } text)
      (encodeReply codecs a text) := by
  cases hcs : CodePage.encodeCodePage codecs text a.codePage with
  | none =>
    simp only [encodeReply, hcs]
    exact ⟨by simp [invalidConversion], by simp [invalidConversion], by simp [invalidConversion]⟩
  | some cs =>
    have hno : ¬Overflows { a with lpMultiByteStr := dest, cbMultiByte := size } cs := by
      rintro ⟨hd, hs, _⟩
      exact hquery.elim hd hs
    have hq := (@encodeReply_fits codecs { a with lpMultiByteStr := dest, cbMultiByte := size } text cs
      hcs hno).1
    by_cases hsmall : Overflows a cs
    · rw [encodeReply_overflows hcs hsmall]
      refine ⟨?_, ?_, fun h => ?_⟩
      · rw [List.length_take]
        omega
      · rw [hq]
        exact iff_of_true rfl hsmall.2.2
      · rw [hq] at h
        exact absurd hsmall.2.2 h
    · obtain ⟨hrv, herror, hwritten⟩ := encodeReply_fits hcs hsmall
      have hle : ¬a.cbMultiByte % 2 ^ 32 < cs.length := fun h => hsmall ⟨hdest, hsize, h⟩
      have hnot : ¬(a.lpMultiByteStr = 0 ∨ a.cbMultiByte % 2 ^ 32 = 0) := by
        rintro (h | h)
        · exact hdest h
        · exact hsize h
      rw [if_neg hnot] at hwritten
      refine ⟨?_, ?_, fun _ => ⟨?_, ?_⟩⟩
      · rw [hwritten]
        omega
      · rw [herror, hq]
        exact iff_of_false (by decide) hle
      · rw [hwritten, hq, Nat.mul_one]
      · rw [hrv, hq]

theorem decodeReply_sized {a : MultiArgs} {dest size : Nat} (data : List UInt8)
    (hquery : size % 2 ^ 32 = 0) (hsize : a.cchWideChar % 2 ^ 32 ≠ 0) :
    SizedLaw 2 (a.cchWideChar % 2 ^ 32)
      (decodeReply codecs { a with lpWideCharStr := dest, cchWideChar := size } data)
      (decodeReply codecs a data) := by
  cases hmbs : CodePage.decodeCodePage codecs data a.codePage with
  | none =>
    simp only [decodeReply, hmbs]
    exact ⟨by simp [invalidConversion], by simp [invalidConversion], by simp [invalidConversion]⟩
  | some mbs =>
    have hq := @decodeReply_spec codecs { a with lpWideCharStr := dest, cchWideChar := size } data mbs hmbs
    rw [if_pos hquery] at hq
    rw [hq, decodeReply_spec hmbs, if_neg hsize]
    split
    next h =>
      refine ⟨?_, ?_, fun hnot => absurd h hnot⟩
      · simp only [List.length_take, charBytes_length]
        omega
      · exact iff_of_true rfl h
    next h =>
      refine ⟨?_, ?_, fun _ => ⟨?_, rfl⟩⟩
      · simp only [charBytes_length]
        omega
      · exact iff_of_false (by simp) h
      · simp only [charBytes_length]

theorem decodeUnits_nul (us : List Nat) : decodeUnits ByteMemory.replace (us ++ [0]) =
    decodeUnits ByteMemory.replace us ++ [0] := decodeUnits_split us [] (by decide)

theorem sourceWcs_explicit {a : WideArgs} (h : g.MappedString 2 a.lpWideCharStr us)
    (hn : a.cchWideChar % 2 ^ 32 = us.length + 1) (hlen : us.length + 1 < 0xFFFFFFFF) :
    g.sourceWcs fuel a = .ok (charBytes 2 (us ++ [0])) := by
  have hread : g.memRead a.lpWideCharStr ((us ++ [0]).length * 2) = .ok (charBytes 2 (us ++ [0])) := by
    have hholds : g.bytes.readBytes a.lpWideCharStr (charBytes 2 (us ++ [0])).length =
        charBytes 2 (us ++ [0]) := h.array.holds
    rw [charBytes_length] at hholds
    rw [memRead_ok h.array.mapped, hholds]
  rw [List.length_append, List.length_singleton] at hread
  simp only [sourceWcs, hn]
  rw [if_neg (by omega), hread]
  rfl

theorem sourceWcs_implied {a : WideArgs} (h : g.MappedString 2 a.lpWideCharStr us)
    (halloc : ∀ k < (us.length + 1) * 2, (g.mgr.getAddressMap (a.lpWideCharStr + k)).isSome)
    (hm : a.cchWideChar % 2 ^ 32 = 0xFFFFFFFF) (hfuel : us.length < fuel) :
    g.sourceWcs fuel a = .ok (charBytes 2
      (if g.mgr.isAddressValid (a.lpWideCharStr + (us.length + 1) * 2) then us ++ [0] else us)) := by
  simp only [sourceWcs, hm, if_true]
  exact readWcs_eq h hfuel halloc

theorem wide_accepted {a : WideArgs} {data : List UInt8} (ha : a.Accepted)
    (hlength : a.cchWideChar % 2 ^ 32 ≠ 0) (hdata : g.sourceWcs fuel a = .ok data) :
    g.wideCharToMultiByte codecs fuel a =
      .ok (encodeReply codecs a (decodeUnits ByteMemory.replace (wideUnits data))) := by
  have hfirst : ¬(a.lpWideCharStr = 0 ∨ a.cchWideChar % 2 ^ 32 = 0) := by
    rintro (h | h)
    · exact ha.1 h
    · exact hlength h
  rw [wideCharToMultiByte, if_neg hfirst, if_neg ha.2, hdata]
  rfl

theorem wide_refused {a : WideArgs} (ha : ¬a.Accepted) :
    g.wideCharToMultiByte codecs fuel a = .ok invalidConversion := by
  rw [wideCharToMultiByte]
  split
  next => rfl
  next hfirst =>
    rw [if_pos]
    by_contra hdefault
    exact ha ⟨fun h => hfirst (Or.inl h), hdefault⟩

theorem wide_explicit {a : WideArgs} (ha : a.Accepted) (h : g.MappedString 2 a.lpWideCharStr us)
    (hn : a.cchWideChar % 2 ^ 32 = us.length + 1) (hlen : us.length + 1 < 0xFFFFFFFF) :
    g.wideCharToMultiByte codecs fuel a =
      .ok (encodeReply codecs a (decodeUnits ByteMemory.replace us ++ [0])) := by
  rw [wide_accepted ha (by omega) (sourceWcs_explicit h hn hlen), wideUnits_charBytes (units_lt h),
    decodeUnits_nul]

theorem wide_implied {a : WideArgs} (ha : a.Accepted) (h : g.MappedString 2 a.lpWideCharStr us)
    (halloc : ∀ k < (us.length + 1) * 2, (g.mgr.getAddressMap (a.lpWideCharStr + k)).isSome)
    (hm : a.cchWideChar % 2 ^ 32 = 0xFFFFFFFF) (hfuel : us.length < fuel) :
    g.wideCharToMultiByte codecs fuel a = .ok (encodeReply codecs a
      (if g.mgr.isAddressValid (a.lpWideCharStr + (us.length + 1) * 2) then
        decodeUnits ByteMemory.replace us ++ [0] else decodeUnits ByteMemory.replace us)) := by
  rw [wide_accepted ha (by omega) (sourceWcs_implied h halloc hm hfuel)]
  have hlt := units_lt h
  split
  next => rw [wideUnits_charBytes hlt, decodeUnits_nul]
  next => rw [wideUnits_charBytes fun u hu => hlt u (List.mem_append_left _ hu)]

theorem wide_sized {a : WideArgs} {dest size : Nat} {query reply : ConvertReply}
    (hquery : dest = 0 ∨ size % 2 ^ 32 = 0)
    (hq : g.wideCharToMultiByte codecs fuel { a with lpMultiByteStr := dest, cbMultiByte := size } =
      .ok query)
    (hr : g.wideCharToMultiByte codecs fuel a = .ok reply) (hdest : a.lpMultiByteStr ≠ 0)
    (hsize : a.cbMultiByte % 2 ^ 32 ≠ 0) : SizedLaw 1 (a.cbMultiByte % 2 ^ 32) query reply := by
  have hinvalid : SizedLaw 1 (a.cbMultiByte % 2 ^ 32) invalidConversion invalidConversion :=
    ⟨by simp [invalidConversion], by simp [invalidConversion], by simp [invalidConversion]⟩
  rw [wideCharToMultiByte] at hq hr
  split at hr
  next h =>
    rw [if_pos h] at hq
    cases hq
    cases hr
    exact hinvalid
  next h =>
    rw [if_neg h] at hq
    split at hr
    next h' =>
      rw [if_pos h'] at hq
      cases hq
      cases hr
      exact hinvalid
    next h' =>
      rw [if_neg h'] at hq
      have hsame : g.sourceWcs fuel { a with lpMultiByteStr := dest, cbMultiByte := size } =
          g.sourceWcs fuel a := rfl
      rw [hsame] at hq
      cases hdata : g.sourceWcs fuel a with
      | error e =>
        rw [hdata] at hr
        cases hr
      | ok data =>
        rw [hdata] at hq hr
        cases hq
        cases hr
        exact encodeReply_sized _ hquery hdest hsize

theorem multi_sized {a : MultiArgs} {dest size : Nat} {query reply : ConvertReply}
    (hquery : size % 2 ^ 32 = 0)
    (hq : g.multiByteToWideChar codecs fuel { a with lpWideCharStr := dest, cchWideChar := size } =
      .ok query)
    (hr : g.multiByteToWideChar codecs fuel a = .ok reply) (hdest : a.lpWideCharStr ≠ 0)
    (hsize : a.cchWideChar % 2 ^ 32 ≠ 0) : SizedLaw 2 (a.cchWideChar % 2 ^ 32) query reply := by
  rw [multiByteToWideChar] at hq hr
  by_cases h : a.lpMultiByteStr = 0 ∨ a.cbMultiByte % 2 ^ 32 = 0
  · have hcall : a.lpMultiByteStr = 0 ∨ a.cbMultiByte % 2 ^ 32 = 0 ∨
        (a.cchWideChar % 2 ^ 32 ≠ 0 ∧ a.lpWideCharStr = 0) := h.imp_right Or.inl
    have hsame : a.lpMultiByteStr = 0 ∨ a.cbMultiByte % 2 ^ 32 = 0 ∨
        (size % 2 ^ 32 ≠ 0 ∧ dest = 0) := h.imp_right Or.inl
    rw [if_pos hcall] at hr
    rw [if_pos hsame] at hq
    cases hq
    cases hr
    exact ⟨by simp [invalidConversion], by simp [invalidConversion], by simp [invalidConversion]⟩
  · rw [not_or] at h
    have hcall : ¬(a.lpMultiByteStr = 0 ∨ a.cbMultiByte % 2 ^ 32 = 0 ∨
        (a.cchWideChar % 2 ^ 32 ≠ 0 ∧ a.lpWideCharStr = 0)) := by
      rintro (hc | hc | hc)
      · exact h.1 hc
      · exact h.2 hc
      · exact hdest hc.2
    have hsame : ¬(a.lpMultiByteStr = 0 ∨ a.cbMultiByte % 2 ^ 32 = 0 ∨
        (size % 2 ^ 32 ≠ 0 ∧ dest = 0)) := by
      rintro (hc | hc | hc)
      · exact h.1 hc
      · exact h.2 hc
      · exact hc.1 hquery
    rw [if_neg hcall] at hr
    rw [if_neg hsame] at hq
    have hlength : g.sourceLength fuel { a with lpWideCharStr := dest, cchWideChar := size } =
        g.sourceLength fuel a := rfl
    rw [hlength] at hq
    cases hlen : g.sourceLength fuel a with
    | error e =>
      rw [hlen] at hr
      cases hr
    | ok length =>
      rw [hlen] at hq hr
      simp only at hq hr
      cases hdata : (g.memRead a.lpMultiByteStr length).mapError StringFault.mem with
      | error e =>
        rw [hdata] at hr
        cases hr
      | ok data =>
        rw [hdata] at hq hr
        cases hq
        cases hr
        exact decodeReply_sized data hquery hsize

theorem multi_string {a : MultiArgs} (h : g.MappedString 1 a.lpMultiByteStr us)
    (hlength : g.sourceLength fuel a = .ok (us.length + 1)) (hne : a.cbMultiByte % 2 ^ 32 ≠ 0) :
    g.multiByteToWideChar codecs fuel a = .ok
      (if a.lpMultiByteStr = 0 ∨ (a.cchWideChar % 2 ^ 32 ≠ 0 ∧ a.lpWideCharStr = 0) then invalidConversion
      else decodeReply codecs a (g.bytes.readBytes a.lpMultiByteStr (us.length + 1))) := by
  have hmapped : g.RangeMapped a.lpMultiByteStr (us.length + 1) := by
    have := h.mapped
    rwa [Nat.mul_one] at this
  rw [multiByteToWideChar]
  by_cases hcall : a.lpMultiByteStr = 0 ∨ (a.cchWideChar % 2 ^ 32 ≠ 0 ∧ a.lpWideCharStr = 0)
  · rw [if_pos hcall, if_pos (hcall.imp_right Or.inr)]
  · have hcall' : ¬(a.lpMultiByteStr = 0 ∨ a.cbMultiByte % 2 ^ 32 = 0 ∨
        (a.cchWideChar % 2 ^ 32 ≠ 0 ∧ a.lpWideCharStr = 0)) := by
      rintro (hc | hc | hc)
      · exact hcall (Or.inl hc)
      · exact hne hc
      · exact hcall (Or.inr hc)
    rw [if_neg hcall, if_neg hcall', hlength]
    simp only [memRead_ok hmapped]
    rfl

end GuestMemory

open GuestMemory

/-- The two directions agree with themselves, except that a wide text whose NUL ends where no valid
address follows is taken without it. -/
theorem conversionLaw_iff (codecs : PyCodecs) {g : GuestMemory ε} {fuel : Nat} {text : List Nat}
    {call : ConvertCall} (hsrc : SourceMapped g text call) (hlen : text.length + 1 < 0xFFFFFFFF)
    (hfuel : text.length < fuel) :
    ConversionLaw g codecs fuel text call ↔ ConversionGood g codecs text call := by
  cases call with
  | multi a =>
    refine iff_of_true ?_ trivial
    have hreply : ∀ m, m % 2 ^ 32 = 0xFFFFFFFF ∨ m % 2 ^ 32 = text.length + 1 →
        g.multiByteToWideChar codecs fuel { a with cbMultiByte := m } = .ok
          (if a.lpMultiByteStr = 0 ∨ (a.cchWideChar % 2 ^ 32 ≠ 0 ∧ a.lpWideCharStr = 0) then
            invalidConversion
          else decodeReply codecs a (g.bytes.readBytes a.lpMultiByteStr (text.length + 1))) := by
      intro m hm
      have hlength : g.sourceLength fuel { a with cbMultiByte := m } = .ok (text.length + 1) := by
        rcases hm with hm | hm
        · simp only [sourceLength, hm, if_true]
          have hstring : g.memStringLen 1 fuel a.lpMultiByteStr = .ok text.length :=
            memStringLen_eq hsrc.string hfuel
          rw [hstring]
          rfl
        · simp only [sourceLength, hm]
          rw [if_neg (by omega)]
      have hne : m % 2 ^ 32 ≠ 0 := by
        rcases hm with hm | hm <;> omega
      exact @multi_string ε _ g codecs fuel text { a with cbMultiByte := m } hsrc.string hlength hne
    constructor
    · intro m n hm hn
      exact (hreply m (Or.inl hm)).trans (hreply n (Or.inr hn)).symm
    · exact fun n hn => ⟨_, hreply n (Or.inr hn)⟩
    · intro n dest size query reply hquery hq hr hdest hsize
      exact @multi_sized ε _ g codecs fuel { a with cbMultiByte := n } dest size query reply hquery hq hr
        hdest hsize
  | wide a =>
    have hsized : ∀ n dest size query reply, (ConvertCall.withDest dest size
        (ConvertCall.withLength n (.wide a))).IsQuery → _ → _ → _ → _ → _ :=
      fun n dest size query reply hquery hq hr hdest hsize =>
        @wide_sized ε _ g codecs fuel { a with cchWideChar := n } dest size query reply hquery hq hr hdest
          hsize
    by_cases ha : a.Accepted
    · have hexplicit : ∀ n, n % 2 ^ 32 = text.length + 1 →
          g.wideCharToMultiByte codecs fuel { a with cchWideChar := n } =
            .ok (encodeReply codecs a (decodeUnits ByteMemory.replace text ++ [0])) := fun n hn =>
        @wide_explicit ε _ g codecs fuel text { a with cchWideChar := n } ha hsrc.string hn hlen
      have himplied : ∀ m, m % 2 ^ 32 = 0xFFFFFFFF →
          g.wideCharToMultiByte codecs fuel { a with cchWideChar := m } = .ok (encodeReply codecs a
            (if g.mgr.isAddressValid (a.lpWideCharStr + (text.length + 1) * 2) then
              decodeUnits ByteMemory.replace text ++ [0] else decodeUnits ByteMemory.replace text)) :=
        fun m hm => @wide_implied ε _ g codecs fuel text { a with cchWideChar := m } ha hsrc.string
          hsrc.allocated hm hfuel
      have hsame : (∀ m n, m % 2 ^ 32 = 0xFFFFFFFF → n % 2 ^ 32 = text.length + 1 →
          g.wideCharToMultiByte codecs fuel { a with cchWideChar := m } =
            g.wideCharToMultiByte codecs fuel { a with cchWideChar := n }) ↔
          ConversionGood g codecs text (.wide a) := by
        constructor
        · intro h
          have heq := h 0xFFFFFFFF (text.length + 1) (by decide) (Nat.mod_eq_of_lt (by omega))
          rw [himplied _ (by decide), hexplicit _ (Nat.mod_eq_of_lt (by omega))] at heq
          split at heq
          next hvalid => exact Or.inl hvalid
          next =>
            exact Or.inr (Or.inr (Or.inr ((encodeReply_nul_iff codecs a _).mp (Except.ok.inj heq))))
        · intro hgood m n hm hn
          rw [himplied m hm, hexplicit n hn]
          rcases hgood with hvalid | hnull | hdefault | hsmall
          · rw [if_pos hvalid]
          · exact absurd hnull ha.1
          · exact absurd hdefault ha.2
          · split
            next => rfl
            next => exact congrArg Except.ok ((encodeReply_nul_iff codecs a _).mpr hsmall)
      exact ⟨fun h => hsame.mp h.implied, fun h => ⟨hsame.mpr h, fun n hn => ⟨_, hexplicit n hn⟩, hsized⟩⟩
    · have hrefused : ∀ n, g.wideCharToMultiByte codecs fuel { a with cchWideChar := n } =
          .ok invalidConversion := fun n =>
        @wide_refused ε _ g codecs fuel { a with cchWideChar := n } ha
      refine iff_of_true ⟨fun m n _ _ => (hrefused m).trans (hrefused n).symm, fun n _ => ⟨_, hrefused n⟩,
        hsized⟩ ?_
      by_cases hnull : a.lpWideCharStr = 0
      · exact Or.inr (Or.inl hnull)
      · refine Or.inr (Or.inr (Or.inl ?_))
        by_contra hdefault
        exact ha ⟨hnull, hdefault⟩

def utf8Char (c : Nat) : List UInt8 :=
  if c < 0x80 then [UInt8.ofNat c]
  else if c < 0x800 then [UInt8.ofNat (0xC0 + c / 0x40), UInt8.ofNat (0x80 + c % 0x40)]
  else if c < 0x10000 then
    [UInt8.ofNat (0xE0 + c / 0x1000), UInt8.ofNat (0x80 + c / 0x40 % 0x40), UInt8.ofNat (0x80 + c % 0x40)]
  else
    [UInt8.ofNat (0xF0 + c / 0x40000), UInt8.ofNat (0x80 + c / 0x1000 % 0x40),
      UInt8.ofNat (0x80 + c / 0x40 % 0x40), UInt8.ofNat (0x80 + c % 0x40)]

theorem not_isSurrogate_ascii (b : UInt8) (bad : Nat) (hbad : ¬isSurrogate bad) :
    ¬isSurrogate (if b < 0x80 then b.toNat else bad) := by
  split
  next =>
    have := b.toNat_lt
    simp only [isSurrogate, Bool.and_eq_true, decide_eq_true_eq]
    omega
  next => exact hbad

/-- The codecs on ASCII texts and data. -/
def asciiCodecs : PyCodecs where
  encode
    | .cp437, text => text.map fun c => if c < 0x80 then UInt8.ofNat c else 0x3F
    | .utf8, text => text.flatMap utf8Char
  decode _ data := data.map fun b => if b < 0x80 then b.toNat else 0xFFFD
  encode_nul c text := by
    cases c with
    | cp437 => simp
    | utf8 => simp [utf8Char]
  decode_chars c data u hu := by
    obtain ⟨b, _, rfl⟩ := List.mem_map.mp hu
    exact not_isSurrogate_ascii b 0xFFFD (by decide)

/-- A page with the wide text "a" at its end. -/
def endGuest : GuestMemory RegionEngine :=
  ⟨(MemoryManager.memMap ⟨some 0x7FFF0000, none, false, none⟩ (MemoryManager.init emptyEngine)
    { size := 0x1000 }).2, ByteMemory.writeBytes (fun _ => 0) 0x10FFC [0x61]⟩

def endCall : ConvertCall := .wide ⟨CodePage.cpAcp, 0x10FFC, 0, 0x10000, 0x10, 0, 0⟩

theorem sourceMapped_endGuest : SourceMapped endGuest [0x61] endCall where
  string := ⟨⟨rfl, by decide⟩, by decide⟩
  allocated := by decide

theorem conversionLaw_iff_endGuest : ConversionLaw endGuest asciiCodecs 2 [0x61] endCall ↔
    ConversionGood endGuest asciiCodecs [0x61] endCall :=
  conversionLaw_iff asciiCodecs sourceMapped_endGuest (by decide) (by decide)

/-- A text at the end of the memory loses its NUL. -/
theorem wideCharToMultiByte_end : ¬ConversionLaw endGuest asciiCodecs 2 [0x61] endCall := by
  intro hlaw
  have hsame := hlaw.implied 0xFFFFFFFF 2 (by decide) (by decide)
  have himplied : (endCall.withLength 0xFFFFFFFF).convert endGuest asciiCodecs 2 =
      .ok { rv := 1, lastError := .success, written := [0x61] } := by decide
  have hexplicit : (endCall.withLength 2).convert endGuest asciiCodecs 2 =
      .ok { rv := 2, lastError := .success, written := [0x61, 0] } := by decide
  rw [himplied, hexplicit] at hsame
  cases hsame

end Speakeasy
