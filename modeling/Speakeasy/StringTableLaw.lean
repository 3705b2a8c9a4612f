import Speakeasy.ImageChecksum
import Speakeasy.WideStringRuns
import Speakeasy.StringSearchLaw

namespace Speakeasy

section

open ByteMemory

def rtString : Nat := 6

structure StringResource where
  typeId : Nat
  id : Nat
  dataRva : Nat
  size : Nat
deriving DecidableEq

/-- A loaded module, with the resources of its metadata where it has any. -/
structure ResourceModule where
  base : Nat
  imageSize : Nat
  resources : Option (List StringResource)

/-- The length field of an entry. -/
def stringLength (data : List UInt8) (offset : Nat) : Nat := fromBytes ((data.drop offset).take 2)

/-- The offset of the entry that follows a number of others. -/
def stringOffset (data : List UInt8) : Nat → Nat → Option Nat
  | 0, offset => if data.length < offset + 2 then none else some offset
  | entries + 1, offset =>
    if data.length < offset + 2 then none
    else stringOffset data entries (offset + 2 + stringLength data offset * 2)

def endsInHigh (us : List Nat) : Bool :=
  match (unitGroups us).getLast? with
  | some (.single u) => isHighSurrogate u
  | _ => false

/-- `decode("utf-16le", "replace")`. A byte that is left over is one more bad character, which takes an unpaired first
half before it with it. -/
def decodeUtf16Bytes (data : List UInt8) : List Nat :=
  let us := unpackWords data
  if data.length % 2 = 1 ∧ endsInHigh us = false then decodeUnits replace us ++ [0xFFFD] else decodeUnits replace us

/-- The bytes of the string at an entry that the block has. -/
def stringBytes (data : List UInt8) (offset : Nat) : List UInt8 :=
  (data.drop (offset + 2)).take (stringLength data offset * 2)

def findStringResourceById (m : ByteMemory) (pe : ResourceModule) (uID : Nat) : Option (Nat × List Nat) := do
  let resources ← pe.resources
  let entry ← resources.find? fun r => r.typeId = rtString ∧ r.id = uID / 16 + 1
  let address := pe.base + entry.dataRva
  let data := m.readBytes address entry.size
  let offset ← stringOffset data (uID % 16) 0
  return (address + offset + 2, decodeUtf16Bytes (stringBytes data offset))

structure LoadedModules where
  modules : List ResourceModule
  currMod : Option ResourceModule

namespace LoadedModules

def ResourceHolds (pe : ResourceModule) (addr : Nat) : Bool := pe.base ≤ addr && addr < pe.base + pe.imageSize

def getModFromAddr (s : LoadedModules) (addr : Nat) : Option ResourceModule :=
  match s.currMod with
  | some pe => if ResourceHolds pe addr then some pe else s.modules.find? (ResourceHolds · addr)
  | none => s.modules.find? (ResourceHolds · addr)

/-- The module that `LoadString` takes for an instance handle. -/
def instanceModule (s : LoadedModules) (hInstance : Nat) : Option ResourceModule :=
  if hInstance = 0 then s.modules.head?
  else (s.getModFromAddr hInstance).filter fun pe => pe.base = hInstance

end LoadedModules

/-- `write_mem_string`. -/
def writeMemString (m : ByteMemory) (text : List Nat) (address width : Nat) : Option ByteMemory :=
  if width = 1 then
    let text := if text.getLast? = some 0 then text else text ++ [0]
    some (m.writeChars 1 address (text.map encodeAnsiChar))
  else m.writeWideString text address

def loadString (m : ByteMemory) (s : LoadedModules) (cw ptrSize hInstance uID lpBuffer cchBufferMax : Nat) :
    Option (Nat × ByteMemory) :=
  match s.instanceModule hInstance with
  | none => some (0, m)
  | some pe =>
    match findStringResourceById m pe uID with
    | none => some (0, m)
    | some (address, text) =>
      if text = [] then some (0, m)
      else if cchBufferMax = 0 then
        if cw ≠ 2 then some (0, m) else some (text.length, m.writeBytes lpBuffer (toBytes ptrSize address))
      else
        let text := text.take (cchBufferMax - 1)
        (writeMemString m text lpBuffer cw).map fun m => (text.length, m)

/-- The entries of a block: each a length and as many units. -/
def stringBlock (ss : List (List Nat)) : List UInt8 := ss.flatMap fun us => toBytes 2 us.length ++ charBytes 2 us

section Blocks

variable {us : List Nat} {ss : List (List Nat)}

theorem unpackWords_charBytes (h : ∀ u ∈ us, u < 0x10000) : unpackWords (charBytes 2 us) = us := by
  induction us with
  | nil => rfl
  | cons u us ih =>
    have hu := h u List.mem_cons_self
    have hword : unpackWords (toBytes 2 u) = [u] := by
      show [(UInt8.ofNat u).toNat + 256 * (UInt8.ofNat (u / 256)).toNat] = _
      simp only [UInt8.toNat_ofNat', List.cons.injEq, and_true]
      omega
    rw [charBytes_cons, unpackWords_append _ (by rw [toBytes_length]), hword,
      ih fun v hv => h v (List.mem_cons_of_mem _ hv)]
    rfl

theorem stringLength_block (before : List UInt8) (ss : List (List Nat)) (h : us.length < 0x10000) :
    stringLength (before ++ stringBlock (us :: ss)) before.length = us.length := by
  have hhead : stringBlock (us :: ss) = toBytes 2 us.length ++ (charBytes 2 us ++ stringBlock ss) := by
    rw [stringBlock, List.flatMap_cons, List.append_assoc]
    rfl
  have htwo : (toBytes 2 us.length).length = 2 := toBytes_length 2 us.length
  rw [stringLength, List.drop_left, hhead, List.take_left' htwo, fromBytes_toBytes_of_lt (by omega)]

theorem length_stringBlock_cons (us : List Nat) (ss : List (List Nat)) :
    (stringBlock (us :: ss)).length = 2 + us.length * 2 + (stringBlock ss).length := by
  rw [stringBlock, List.flatMap_cons, List.length_append, List.length_append, toBytes_length, charBytes_length]
  rfl

/-- The walk over the entries before one comes to it. -/
theorem stringOffset_block (before : List UInt8) (hlen : ∀ us ∈ ss, us.length < 0x10000) {i : Nat} (hi : i < ss.length) :
    stringOffset (before ++ stringBlock ss) i before.length = some (before.length + (stringBlock (ss.take i)).length) := by
  induction ss generalizing before i with
  | nil => cases hi
  | cons us ss ih =>
    have hroom : ¬(before ++ stringBlock (us :: ss)).length < before.length + 2 := by
      rw [List.length_append, length_stringBlock_cons]
      omega
    cases i with
    | zero =>
      rw [stringOffset, if_neg hroom]
      rfl
    | succ i =>
      have hnext : before.length + 2 + us.length * 2 = (before ++ (toBytes 2 us.length ++ charBytes 2 us)).length := by
        rw [List.length_append, List.length_append, toBytes_length, charBytes_length]
        omega
      have hsplit : before ++ stringBlock (us :: ss) =
        (before ++ (toBytes 2 us.length ++ charBytes 2 us)) ++ stringBlock ss := by
        rw [stringBlock, List.flatMap_cons, ← List.append_assoc before]
        rfl
      rw [stringOffset, if_neg hroom, stringLength_block before ss (hlen us List.mem_cons_self), hnext, hsplit,
        ih _ (fun vs hvs => hlen vs (List.mem_cons_of_mem _ hvs)) (Nat.lt_of_succ_lt_succ hi), List.take_succ_cons,
        length_stringBlock_cons, ← hnext]
      congr 1
      omega

/-- What is found at each entry of a block. -/
theorem stringBytes_block (hlen : ∀ us ∈ ss, us.length < 0x10000) {i : Nat} (hi : i < ss.length) :
    stringOffset (stringBlock ss) i 0 = some (stringBlock (ss.take i)).length ∧
      stringBytes (stringBlock ss) (stringBlock (ss.take i)).length = charBytes 2 ss[i] := by
  have hwalk := stringOffset_block [] hlen hi
  rw [List.nil_append, List.length_nil, Nat.zero_add] at hwalk
  refine ⟨hwalk, ?_⟩
  have hsplit : stringBlock ss = stringBlock (ss.take i) ++ stringBlock (ss[i] :: ss.drop (i + 1)) := by
    have hcut : ss.take i ++ ss[i] :: ss.drop (i + 1) = ss := by
      rw [← List.drop_eq_getElem_cons hi, List.take_append_drop]
    rw [stringBlock, stringBlock, stringBlock, ← List.flatMap_append, hcut]
  have hlength : stringLength (stringBlock ss) (stringBlock (ss.take i)).length = ss[i].length := by
    rw [hsplit]
    exact stringLength_block _ _ (hlen _ (List.getElem_mem hi))
  have htail : (stringBlock ss).drop ((stringBlock (ss.take i)).length + 2) =
      charBytes 2 ss[i] ++ stringBlock (ss.drop (i + 1)) := by
    rw [← List.drop_drop]
    conv_lhs => rw [hsplit]
    have htwo : (toBytes 2 ss[i].length).length = 2 := toBytes_length 2 _
    rw [List.drop_left, stringBlock, List.flatMap_cons, List.append_assoc, List.drop_left' htwo]
    rfl
  rw [stringBytes, hlength, htail, List.take_left' (charBytes_length 2 _)]

theorem decodeUtf16Bytes_charBytes (h : ∀ u ∈ us, u < 0x10000) :
    decodeUtf16Bytes (charBytes 2 us) = decodeUnits replace us := by
  have heven : ¬((charBytes 2 us).length % 2 = 1 ∧ endsInHigh (unpackWords (charBytes 2 us)) = false) := by
    rw [charBytes_length]
    omega
  unfold decodeUtf16Bytes
  simp only
  rw [if_neg heven, unpackWords_charBytes h]

end Blocks

end

section

open ByteMemory

/-- `LoadStringW` gives a string of units to a buffer. -/
def LoadedString (us : List Nat) (first ptrSize lpBuffer n : Nat) (m : ByteMemory) (result : Nat × ByteMemory) : Prop :=
  if us = [] then result = (0, m)
  else if n = 0 then result = (us.length, m.writeBytes lpBuffer (toBytes ptrSize first))
  else result = (min us.length (n - 1), m.writeChars 2 lpBuffer (us.take (n - 1) ++ [0]))

/-- The strings and sizes that `LoadStringW` serves. The units that fit have no surrogate, and the last of them is no
NUL; or a NUL follows them, and one pair among them makes up for it. For the size 0, the string has no pair. -/
def LoadsUnits (us : List Nat) (n : Nat) : Prop :=
  if n = 0 then pairCount us = 0
  else
    ((∀ u ∈ us.take (n - 1), ¬isSurrogate u) ∧ (us.take (n - 1)).getLast? ≠ some 0) ∨
      (us[n - 1]? = some 0 ∧ pairCount (us.take (n - 1)) = 1 ∧ ¬HasUnpaired (us.take (n - 1)))

/-- The end of the block cuts a unit of the string, and the text has a character for it that is asked for. -/
def CutsUnit (data : List UInt8) (i n : Nat) : Prop :=
  ∃ offset, stringOffset data i 0 = some offset ∧ (stringBytes data offset).length % 2 = 1 ∧
    pairCount (unpackWords (stringBytes data offset)) = 0 ∧
    endsInHigh (unpackWords (stringBytes data offset)) = false ∧
    (n = 0 ∨ (stringBytes data offset).length / 2 + 1 < n)

section Texts

variable {us text : List Nat} {k : Nat}

theorem decodeUnits_lt (hus : ∀ u ∈ us, u < 0x10000) {c : Nat} (hc : c ∈ decodeUnits replace us) : c < 0x110000 := by
  obtain ⟨g, hg, rfl⟩ := List.mem_map.mp hc
  rcases mem_unitGroups hg with ⟨u, hu, rfl⟩ | ⟨u, hu, v, hv, hhigh, hlow, rfl⟩
  · have hlt := hus u hu
    have hrepl := @replacement_lt u
    rw [UnitGroup.char_single]
    split
    next => omega
    next => omega
  · simp only [isHighSurrogate, isLowSurrogate, Bool.and_eq_true, decide_eq_true_eq] at hhigh hlow
    rw [UnitGroup.char_pair]
    omega

/-- What was encoded is decoded as it was, whatever follows it. -/
theorem decodeUnits_encodeUnits_append (h : ∀ c ∈ text, ¬isSurrogate c ∧ c < 0x110000) (vs : List Nat) :
    decodeUnits replace (encodeUnits text ++ vs) = text ++ decodeUnits replace vs := by
  induction text with
  | nil => rfl
  | cons c text ih =>
    obtain ⟨hs, hlt⟩ := h c List.mem_cons_self
    have hrest := ih fun d hd => h d (List.mem_cons_of_mem _ hd)
    have hencode : encodeUnits (c :: text) = encodeChar c ++ encodeUnits text := rfl
    rw [hencode, List.append_assoc, encodeChar]
    split
    next hsmall =>
      have hone : ∀ x ∈ [c], ¬isSurrogate x := fun x hx => List.mem_singleton.mp hx ▸ hs
      rw [decodeUnits_plain hone, hrest]
      rfl
    next hbig =>
      have hhigh : isHighSurrogate (0xD800 + (c - 0x10000) / 0x400) = true := by
        simp only [isHighSurrogate, Bool.and_eq_true, decide_eq_true_eq]
        omega
      have hlow : isLowSurrogate (0xDC00 + (c - 0x10000) % 0x400) = true := by
        simp only [isLowSurrogate, Bool.and_eq_true, decide_eq_true_eq]
        omega
      have hchar : (UnitGroup.pair (0xD800 + (c - 0x10000) / 0x400) (0xDC00 + (c - 0x10000) % 0x400)).char replace = c := by
        rw [UnitGroup.char_pair]
        omega
      rw [List.cons_append, List.cons_append, List.nil_append, decodeUnits, unitGroups_pair _ hhigh hlow, List.map_cons,
        hchar]
      show c :: decodeUnits replace (encodeUnits text ++ vs) = _
      rw [hrest]
      rfl

theorem length_encodeChar (c : Nat) : (encodeChar c).length = if c < 0x10000 then 1 else 2 := by
  unfold encodeChar
  split
  next => rfl
  next => rfl

theorem length_le_encodeUnits (text : List Nat) : text.length ≤ (encodeUnits text).length := by
  induction text with
  | nil => exact Nat.le_refl _
  | cons c text ih =>
    have hone := length_encodeChar c
    show text.length + 1 ≤ (encodeChar c ++ encodeUnits text).length
    rw [List.length_append]
    split at hone
    next => omega
    next => omega

/-- A text that takes as many units as it has characters is its own units. -/
theorem encodeUnits_self (h : (encodeUnits text).length = text.length) : encodeUnits text = text := by
  induction text with
  | nil => rfl
  | cons c text ih =>
    have hone := length_encodeChar c
    have hle := length_le_encodeUnits text
    have hencode : encodeUnits (c :: text) = encodeChar c ++ encodeUnits text := rfl
    rw [hencode, List.length_append, List.length_cons] at h
    split at hone
    next hsmall => rw [hencode, ih (by omega), encodeChar, if_pos hsmall, List.singleton_append]
    next => omega

theorem encodeUnits_of_lt (h : ∀ c ∈ text, c < 0x10000) : encodeUnits text = text := by
  induction text with
  | nil => rfl
  | cons c text ih =>
    show encodeChar c ++ encodeUnits text = c :: text
    rw [encodeChar, if_pos (h c List.mem_cons_self), ih fun d hd => h d (List.mem_cons_of_mem _ hd), List.singleton_append]

/-- The units that are written for the first characters of a string. -/
def writtenUnits (us : List Nat) (k : Nat) : List Nat :=
  let text := (decodeUnits replace us).take k
  encodeUnits (if text.getLast? = some 0 then text else text ++ [0])

theorem decode_first_zero {cs : List Nat} (h : decodeUnits replace us = 0 :: cs) : us[0]? = some 0 := by
  cases us with
  | nil => cases h
  | cons u us =>
    by_cases hpair : isHighSurrogate u ∧ ∃ v ∈ us.head?, isLowSurrogate v
    · obtain ⟨hhigh, v, hv, hlow⟩ := hpair
      cases us with
      | nil => cases hv
      | cons w us =>
        rw [List.head?_cons, Option.mem_some] at hv
        rw [decodeUnits, unitGroups_pair us hhigh (hv ▸ hlow), List.map_cons] at h
        have hle := UnitGroup.le_char_pair replace u w
        have hzero := (List.cons.inj h).1
        omega
    · rw [decodeUnits, unitGroups_single hpair, List.map_cons, UnitGroup.char_single] at h
      have hzero := (List.cons.inj h).1
      split at hzero
      next => cases hzero
      next => rw [hzero]; rfl

theorem decode_take (hus : ∀ u ∈ us.take k, ¬isSurrogate u) : (decodeUnits replace us).take k = us.take k := by
  have hsplit := @decodeUnits_plain replace _ hus (us.drop k)
  rw [List.take_append_drop] at hsplit
  rw [hsplit]
  by_cases hlen : k ≤ us.length
  · rw [List.take_append_of_le_length (by rw [List.length_take_of_le hlen]), List.take_of_length_le]
    rw [List.length_take_of_le hlen]
  · have hwhole : us.take k = us := List.take_of_length_le (by omega)
    have hnil : decodeUnits replace [] = [] := rfl
    rw [List.drop_of_length_le (by omega), hnil, List.append_nil, hwhole, hwhole]

/-- The units that fit are written with a terminator, and they are counted, in just two cases. -/
theorem writtenUnits_iff (hus : ∀ u ∈ us, u < 0x10000) (k : Nat) :
    (writtenUnits us k = us.take k ++ [0] ∧ ((decodeUnits replace us).take k).length = min us.length k) ↔
      ((∀ u ∈ us.take k, ¬isSurrogate u) ∧ (us.take k).getLast? ≠ some 0) ∨
        (us[k]? = some 0 ∧ pairCount (us.take k) = 1 ∧ ¬HasUnpaired (us.take k)) := by
  have hchars : ∀ c ∈ decodeUnits replace us, ¬isSurrogate c ∧ c < 0x110000 :=
    fun c hc => ⟨decodeUnits_not_surrogate hc, decodeUnits_lt hus hc⟩
  have htake : ∀ u ∈ us.take k, u < 0x10000 := fun u hu => hus u (List.mem_of_mem_take hu)
  have hmin : (us.take k).length = min us.length k := by rw [List.length_take, Nat.min_comm]
  constructor
  · rintro ⟨hunits, hcount⟩
    unfold writtenUnits at hunits
    simp only at hunits
    split at hunits
    next hlast =>
      right
      obtain ⟨front, hfront⟩ : ∃ front, (decodeUnits replace us).take k = front ++ [0] := by
        rcases List.eq_nil_or_concat ((decodeUnits replace us).take k) with hnil | ⟨front, c, hconcat⟩
        · rw [hnil] at hlast
          cases hlast
        · rw [hconcat, List.concat_eq_append] at hlast ⊢
          rw [List.getLast?_concat] at hlast
          exact ⟨front, by rw [Option.some.inj hlast]⟩
      rw [hfront, encodeUnits_append] at hunits
      have hencode : encodeUnits front = us.take k := (List.append_inj' hunits rfl).1
      have hfrontChars : ∀ c ∈ front, ¬isSurrogate c ∧ c < 0x110000 := by
        intro c hc
        apply hchars c
        apply List.mem_of_mem_take (i := k)
        rw [hfront]
        exact List.mem_append_left _ hc
      have hdec : decodeUnits replace (us.take k) = front := by
        have happend := decodeUnits_encodeUnits_append hfrontChars []
        rwa [List.append_nil, hencode, show decodeUnits replace [] = [] from rfl, List.append_nil] at happend
      refine ⟨?_, ?_, ?_⟩
      · have hwhole : decodeUnits replace us = front ++ decodeUnits replace (us.drop k) := by
          have happend := decodeUnits_encodeUnits_append hfrontChars (us.drop k)
          rwa [hencode, List.take_append_drop] at happend
        have hcut : decodeUnits replace us = front ++ 0 :: (decodeUnits replace us).drop k := by
          conv_lhs => rw [← List.take_append_drop k (decodeUnits replace us), hfront]
          rw [List.append_assoc, List.singleton_append]
        have hrest := decode_first_zero (List.append_cancel_left (hwhole.symm.trans hcut))
        rwa [List.getElem?_drop, Nat.add_zero] at hrest
      · have hlen := length_unitGroups (us.take k)
        have hgroups := length_decodeUnits replace (us.take k)
        rw [hfront, List.length_append, List.length_singleton] at hcount
        rw [hdec] at hgroups
        omega
      · rw [← reread_replace_iff, ← encodeUnits_decode_replace htake, hdec, hencode]
    next hlast =>
      left
      rw [encodeUnits_append] at hunits
      have hencode := (List.append_inj' hunits rfl).1
      have hself : encodeUnits ((decodeUnits replace us).take k) = (decodeUnits replace us).take k := by
        apply encodeUnits_self
        rw [hencode, hcount, hmin]
      rw [hself] at hencode
      refine ⟨fun u hu => ?_, by rw [← hencode]; exact hlast⟩
      rw [← hencode] at hu
      exact (hchars u (List.mem_of_mem_take hu)).1
  · rintro (⟨hplain, hlast⟩ | ⟨hzero, hpairs, hpaired⟩)
    · rw [writtenUnits, decode_take hplain]
      rw [if_neg hlast, encodeUnits_of_lt]
      · exact ⟨rfl, hmin⟩
      · intro c hc
        rcases List.mem_append.mp hc with hc | hc
        · exact htake c hc
        · rw [List.mem_singleton.mp hc]
          decide
    · obtain ⟨hk, hget⟩ := List.getElem?_eq_some_iff.mp hzero
      have hsplit : us = us.take k ++ 0 :: us.drop (k + 1) := by
        conv_lhs => rw [← List.take_append_drop k us, List.drop_eq_getElem_cons hk, hget]
      have hdec : decodeUnits replace us = decodeUnits replace (us.take k) ++ 0 :: decodeUnits replace (us.drop (k + 1)) := by
        conv_lhs => rw [hsplit]
        exact decodeUnits_split _ _ (by decide)
      have hlen := length_unitGroups (us.take k)
      have hgroups := length_decodeUnits replace (us.take k)
      have hfull : (us.take k).length = k := List.length_take_of_le (Nat.le_of_lt hk)
      have htext : (decodeUnits replace us).take k = decodeUnits replace (us.take k) ++ [0] := by
        have hwhole : decodeUnits replace us =
            (decodeUnits replace (us.take k) ++ [0]) ++ decodeUnits replace (us.drop (k + 1)) := by
          rw [hdec, List.append_assoc, List.singleton_append]
        rw [hwhole, List.take_left']
        rw [List.length_append, List.length_singleton]
        omega
      rw [writtenUnits, htext]
      rw [List.getLast?_concat, if_pos rfl, encodeUnits_append, encodeUnits_decode_replace htake,
        (reread_replace_iff _).mpr hpaired, List.length_append, List.length_singleton]
      refine ⟨rfl, ?_⟩
      omega

theorem encodeUnits_lt (h : ∀ c ∈ text, c < 0x110000) {u : Nat} (hu : u ∈ encodeUnits text) : u < 0x10000 := by
  obtain ⟨c, hc, hmem⟩ := List.mem_flatMap.mp hu
  have hlt := h c hc
  unfold encodeChar at hmem
  split at hmem
  next hsmall => rwa [List.mem_singleton.mp hmem]
  next =>
    rcases List.mem_cons.mp hmem with rfl | hmem
    · omega
    · rw [List.mem_singleton.mp hmem]
      omega

theorem writtenUnits_lt (hus : ∀ u ∈ us, u < 0x10000) (k : Nat) {u : Nat} (hu : u ∈ writtenUnits us k) : u < 0x10000 := by
  have htext : ∀ c ∈ (decodeUnits replace us).take k, c < 0x110000 :=
    fun c hc => decodeUnits_lt hus (List.mem_of_mem_take hc)
  unfold writtenUnits at hu
  simp only at hu
  split at hu
  next => exact encodeUnits_lt htext hu
  next =>
    apply encodeUnits_lt _ hu
    intro c hc
    rcases List.mem_append.mp hc with hc | hc
    · exact htext c hc
    · rw [List.mem_singleton.mp hc]
      decide

end Texts

section Memory

variable {data : List UInt8} {address : Nat}

/-- The memory that has the bytes, and one byte everywhere else. -/
def filledAround (fill : UInt8) (address : Nat) (data : List UInt8) : ByteMemory :=
  ByteMemory.writeBytes (fun _ => fill) address data

theorem filledAround_holds (fill : UInt8) : (filledAround fill address data).Holds address data :=
  readBytes_writeBytes_self _ _ _

/-- Texts that leave the same memory, whatever lay in it, are of the same length. -/
theorem length_le_of_writeChars {cs ds : List Nat}
    (h : ∀ m : ByteMemory, m.Holds address data →
      m.writeChars 2 (address + data.length) cs = m.writeChars 2 (address + data.length) ds) : ds.length ≤ cs.length := by
  by_contra hlt
  have hbyte : ∀ fill : UInt8, fill = (charBytes 2 ds).getD (cs.length * 2) 0 := by
    intro fill
    have hsame := congrFun (h _ (filledAround_holds fill)) (address + data.length + cs.length * 2)
    have hinside : cs.length * 2 < (charBytes 2 ds).length := by
      rw [charBytes_length]
      omega
    have hds : ((filledAround fill address data).writeChars 2 (address + data.length) ds)
        (address + data.length + cs.length * 2) = (charBytes 2 ds).getD (cs.length * 2) 0 :=
      (writeBytes_inside hinside).trans (List.getD_eq_getElem _ _ hinside).symm
    have hcs : ((filledAround fill address data).writeChars 2 (address + data.length) cs)
        (address + data.length + cs.length * 2) =
          filledAround fill address data (address + data.length + cs.length * 2) := by
      apply writeBytes_outside
      right
      rw [charBytes_length]
    have hfill : filledAround fill address data (address + data.length + cs.length * 2) = fill := by
      apply writeBytes_outside
      omega
    rw [← hds, ← hsame, hcs, hfill]
  have hzero := hbyte 0
  rw [← hbyte 1] at hzero
  exact absurd hzero (by decide)

theorem eq_of_writeChars {cs ds : List Nat} (hcs : ∀ c ∈ cs, c < 0x10000) (hds : ∀ d ∈ ds, d < 0x10000)
    (h : ∀ m : ByteMemory, m.Holds address data →
      m.writeChars 2 (address + data.length) cs = m.writeChars 2 (address + data.length) ds) : cs = ds := by
  have hle := length_le_of_writeChars h
  have hge := length_le_of_writeChars fun m hm => (h m hm).symm
  have hcs2 : ∀ c ∈ cs, c < 256 ^ 2 := hcs
  exact (writeChars_inj hcs2 hds (by omega)).mp (h _ (filledAround_holds 0))

end Memory

section Loads

variable {s : LoadedModules} {hInstance uID address size : Nat} {m : ByteMemory} {data : List UInt8}

/-- An instance has the block of a string, at an address. -/
def FindsBlock (s : LoadedModules) (hInstance uID address size : Nat) : Prop :=
  ∃ pe resources entry, s.instanceModule hInstance = some pe ∧ pe.resources = some resources ∧
    resources.find? (fun r => r.typeId = rtString ∧ r.id = uID / 16 + 1) = some entry ∧
    address = pe.base + entry.dataRva ∧ size = entry.size

/-- What becomes of a text that was found. -/
def loadText (m : ByteMemory) (ptrSize first lpBuffer n : Nat) (text : List Nat) : Nat × ByteMemory :=
  if text = [] then (0, m)
  else if n = 0 then (text.length, m.writeBytes lpBuffer (toBytes ptrSize first))
  else
    let part := text.take (n - 1)
    (part.length, m.writeChars 2 lpBuffer (encodeUnits (if part.getLast? = some 0 then part else part ++ [0])))

theorem writeMemString_wide {text : List Nat} (h : ∀ c ∈ text, ¬isSurrogate c) (lpBuffer : Nat) :
    writeMemString m text lpBuffer 2 =
      some (m.writeChars 2 lpBuffer (encodeUnits (if text.getLast? = some 0 then text else text ++ [0]))) := by
  have hany : (if text.getLast? = some 0 then text else text ++ [0]).any isSurrogate = false := by
    rw [List.any_eq_false]
    intro c hc
    split at hc
    next => exact h c hc
    next =>
      rcases List.mem_append.mp hc with hc | hc
      · exact h c hc
      · rw [List.mem_singleton.mp hc]
        decide
  rw [writeMemString, if_neg (by decide), writeWideString, wideStringUnits, hany, if_neg Bool.false_ne_true]
  rfl

theorem decodeUtf16Bytes_not_surrogate {c : Nat} (h : c ∈ decodeUtf16Bytes data) : ¬isSurrogate c := by
  unfold decodeUtf16Bytes at h
  simp only at h
  split at h
  next =>
    rcases List.mem_append.mp h with h | h
    · exact decodeUnits_not_surrogate h
    · rw [List.mem_singleton.mp h]
      decide
  next => exact decodeUnits_not_surrogate h

theorem loadString_of_finds (hfinds : FindsBlock s hInstance uID address data.length) (hdata : m.Holds address data)
    (ptrSize lpBuffer n : Nat) :
    loadString m s 2 ptrSize hInstance uID lpBuffer n =
      match stringOffset data (uID % 16) 0 with
      | none => some (0, m)
      | some offset =>
        some (loadText m ptrSize (address + offset + 2) lpBuffer n (decodeUtf16Bytes (stringBytes data offset))) := by
  obtain ⟨pe, resources, entry, hpe, hresources, hentry, haddress, hsize⟩ := hfinds
  have hread : m.readBytes (pe.base + entry.dataRva) entry.size = data := by
    rw [← haddress, ← hsize]
    exact hdata
  have hfound : findStringResourceById m pe uID = (stringOffset data (uID % 16) 0).map fun offset =>
      (address + offset + 2, decodeUtf16Bytes (stringBytes data offset)) := by
    unfold findStringResourceById
    rw [hresources, haddress]
    simp only [Option.bind_eq_bind, Option.bind_some]
    rw [hentry]
    simp only [Option.bind_some, hread]
    cases stringOffset data (uID % 16) 0 with
    | none => rfl
    | some offset => rfl
  unfold loadString
  rw [hpe]
  simp only
  rw [hfound]
  cases stringOffset data (uID % 16) 0 with
  | none => rfl
  | some offset =>
    simp only [Option.map_some, loadText]
    split
    next => rfl
    next =>
      split
      next => rfl
      next =>
        rw [writeMemString_wide fun c hc => decodeUtf16Bytes_not_surrogate (List.mem_of_mem_take hc)]
        rfl

theorem loadText_units (us : List Nat) (ptrSize first lpBuffer n : Nat) :
    LoadedString us first ptrSize lpBuffer n m (loadText m ptrSize first lpBuffer n (decodeUnits replace us)) ↔
      (us = [] ∨ n = 0 ∧ (decodeUnits replace us).length = us.length ∨
        n ≠ 0 ∧ ((decodeUnits replace us).take (n - 1)).length = min us.length (n - 1) ∧
          m.writeChars 2 lpBuffer (writtenUnits us (n - 1)) = m.writeChars 2 lpBuffer (us.take (n - 1) ++ [0])) := by
  unfold LoadedString loadText
  by_cases hnil : us = []
  · rw [if_pos hnil, if_pos (decodeUnits_eq_nil.mpr hnil)]
    simp only [hnil, true_or]
  · rw [if_neg hnil, if_neg fun h => hnil (decodeUnits_eq_nil.mp h)]
    by_cases hn : n = 0
    · rw [if_pos hn, if_pos hn]
      simp only [hnil, hn, ne_eq, not_true_eq_false, false_and, or_false, false_or, true_and, Prod.mk.injEq, and_true]
    · rw [if_neg hn, if_neg hn]
      simp only [hnil, hn, ne_eq, not_false_eq_true, false_and, false_or, true_and, Prod.mk.injEq, writtenUnits]

theorem loadsUnits_nil (n : Nat) : LoadsUnits [] n := by
  unfold LoadsUnits
  split
  next => rfl
  next => exact Or.inl ⟨fun u hu => (List.not_mem_nil (List.mem_of_mem_take hu)).elim, by rw [List.take_nil]; decide⟩

/-- A string of the block is loaded right, whatever else lies in memory and wherever the buffer is. -/
def LoadsStrings (s : LoadedModules) (ptrSize hInstance uID n address : Nat) (ss : List (List Nat)) : Prop :=
  ∀ m lpBuffer, ByteMemory.Holds m address (stringBlock ss) →
    ∃ result, loadString m s 2 ptrSize hInstance uID lpBuffer n = some result ∧
      LoadedString (ss.getD (uID % 16) []) (address + (stringBlock (ss.take (uID % 16))).length + 2) ptrSize lpBuffer n m
        result

/-- What a block leaves in memory: for the size 0 the address of the units, else first units of them and a NUL. A bad
unit is U+FFFD, and so is a half unit at the end. -/
def LeftOf (bytes : List UInt8) (first ptrSize lpBuffer n count : Nat) (m m' : ByteMemory) : Prop :=
  if n = 0 then m' = m.writeBytes lpBuffer (toBytes ptrSize first)
  else
    ∃ us, us <+: rereadUnits replace (unpackWords bytes) ++ [0xFFFD] ∧ count ≤ us.length + 1 ∧ us.length ≤ 2 * count ∧
      m' = m.writeChars 2 lpBuffer (us ++ [0])

/-- The answer is 0 without a write, or it counts units of the block. -/
def LoadsInside (s : LoadedModules) (ptrSize hInstance uID n address : Nat) (data : List UInt8) : Prop :=
  ∀ m lpBuffer, ByteMemory.Holds m address data →
    ∃ count m', loadString m s 2 ptrSize hInstance uID lpBuffer n = some (count, m') ∧
      ((count, m') = (0, m) ∨ ∃ offset, stringOffset data (uID % 16) 0 = some offset ∧
        offset + 2 + 2 * count ≤ data.length ∧
        LeftOf (stringBytes data offset) (address + offset + 2) ptrSize lpBuffer n count m m')

/-- Every string of a well-formed block. -/
theorem loadsStrings_iff {ss : List (List Nat)} (hcount : ss.length = 16)
    (hss : ∀ us ∈ ss, us.length < 0x10000 ∧ ∀ u ∈ us, u < 0x10000)
    (hfinds : FindsBlock s hInstance uID address (stringBlock ss).length) (ptrSize n : Nat) :
    LoadsStrings s ptrSize hInstance uID n address ss ↔ LoadsUnits (ss.getD (uID % 16) []) n := by
  unfold LoadsStrings
  have hi : uID % 16 < ss.length := by omega
  have hget : ss.getD (uID % 16) [] = ss[uID % 16] := List.getD_eq_getElem _ _ hi
  obtain ⟨hoffset, hbytes⟩ := stringBytes_block (fun us hus => (hss us hus).1) hi
  have hus := (hss _ (List.getElem_mem hi)).2
  rw [hget]
  have hload : ∀ m lpBuffer, m.Holds address (stringBlock ss) →
      loadString m s 2 ptrSize hInstance uID lpBuffer n =
        some (loadText m ptrSize (address + (stringBlock (ss.take (uID % 16))).length + 2) lpBuffer n
          (decodeUnits replace ss[uID % 16])) := by
    intro m lpBuffer hm
    rw [loadString_of_finds hfinds hm, hoffset]
    simp only
    rw [hbytes, decodeUtf16Bytes_charBytes hus]
  have hgroups := length_decodeUnits replace ss[uID % 16]
  have hlen := length_unitGroups ss[uID % 16]
  have hwritten := writtenUnits_iff hus (n - 1)
  constructor
  · intro h
    have hloaded : ∀ m lpBuffer, m.Holds address (stringBlock ss) →
        LoadedString ss[uID % 16] (address + (stringBlock (ss.take (uID % 16))).length + 2) ptrSize lpBuffer n m
          (loadText m ptrSize (address + (stringBlock (ss.take (uID % 16))).length + 2) lpBuffer n
            (decodeUnits replace ss[uID % 16])) := by
      intro m lpBuffer hm
      obtain ⟨result, hresult, hloaded⟩ := h m lpBuffer hm
      rw [hload m lpBuffer hm, Option.some.injEq] at hresult
      rwa [← hresult] at hloaded
    have hcases := fun m lpBuffer hm => (loadText_units _ ptrSize _ lpBuffer n).mp (hloaded m lpBuffer hm)
    by_cases hnil : ss[uID % 16] = []
    · rw [hnil]
      exact loadsUnits_nil n
    · have hfirst := hcases _ 0 (filledAround_holds 0)
      unfold LoadsUnits
      split
      next hn =>
        rcases hfirst with hfirst | ⟨-, hsame⟩ | ⟨hpos, -⟩
        · exact absurd hfirst hnil
        · omega
        · exact absurd hn hpos
      next hn =>
        apply hwritten.mp
        refine ⟨?_, ?_⟩
        · apply eq_of_writeChars (fun u hu => writtenUnits_lt hus (n - 1) hu)
          · intro u hu
            rcases List.mem_append.mp hu with hu | hu
            · exact hus u (List.mem_of_mem_take hu)
            · rw [List.mem_singleton.mp hu]
              decide
          · intro m hm
            rcases hcases m (address + (stringBlock ss).length) hm with hzero | ⟨hzero, -⟩ | ⟨-, -, hsame⟩
            · exact absurd hzero hnil
            · exact absurd hzero hn
            · exact hsame
        · rcases hfirst with hfirst | ⟨hzero, -⟩ | ⟨-, hcount, -⟩
          · exact absurd hfirst hnil
          · exact absurd hzero hn
          · exact hcount
  · intro h m lpBuffer hm
    refine ⟨_, hload m lpBuffer hm, (loadText_units _ ptrSize _ lpBuffer n).mpr ?_⟩
    unfold LoadsUnits at h
    split at h
    next hn => exact Or.inr (Or.inl ⟨hn, by omega⟩)
    next hn =>
      obtain ⟨hunits, hcount⟩ := hwritten.mpr h
      exact Or.inr (Or.inr ⟨hn, hcount, by rw [hunits]⟩)

theorem length_unpackWords : ∀ data : List UInt8, (unpackWords data).length = data.length / 2
  | [] => rfl
  | [_] => by simp [unpackWords]
  | _ :: _ :: data => by
    rw [unpackWords, List.length_cons, length_unpackWords data, List.length_cons, List.length_cons]
    omega

theorem unpackWords_lt (data : List UInt8) : ∀ u ∈ unpackWords data, u < 0x10000 := by
  induction data using unpackWords.induct with
  | case1 b₀ b₁ bs ih =>
    intro u hu
    rw [unpackWords] at hu
    rcases List.mem_cons.mp hu with rfl | hu
    · have hlow := b₀.toNat_lt
      have hhigh := b₁.toNat_lt
      omega
    · exact ih u hu
  | case2 data hshort =>
    intro u hu
    rw [unpackWords.eq_2 data hshort] at hu
    exact (List.not_mem_nil hu).elim

theorem length_decodeUtf16Bytes (data : List UInt8) :
    (decodeUtf16Bytes data).length + pairCount (unpackWords data) =
      data.length / 2 + if data.length % 2 = 1 ∧ endsInHigh (unpackWords data) = false then 1 else 0 := by
  have hlen := length_unitGroups (unpackWords data)
  have hgroups := length_decodeUnits replace (unpackWords data)
  rw [length_unpackWords] at hlen
  unfold decodeUtf16Bytes
  simp only
  split
  next =>
    rw [List.length_append, List.length_singleton]
    omega
  next => omega

theorem stringOffset_room {i offset found : Nat} (h : stringOffset data i offset = some found) : found + 2 ≤ data.length := by
  induction i generalizing offset with
  | zero =>
    rw [stringOffset] at h
    split at h
    next => cases h
    next hroom =>
      rw [Option.some.injEq] at h
      omega
  | succ i ih =>
    rw [stringOffset] at h
    split at h
    next => cases h
    next => exact ih h

/-- The bytes of a string end at the block's end when they are fewer than the length asks for. -/
theorem stringBytes_end {offset : Nat} (hroom : offset + 2 ≤ data.length) :
    offset + 2 + (stringBytes data offset).length ≤ data.length ∧
      ((stringBytes data offset).length % 2 = 1 → offset + 2 + (stringBytes data offset).length = data.length) := by
  rw [stringBytes, List.length_take, List.length_drop]
  omega

theorem encodeUnits_decodeUtf16Bytes (data : List UInt8) :
    encodeUnits (decodeUtf16Bytes data) <+: rereadUnits replace (unpackWords data) ++ [0xFFFD] := by
  have hunits := encodeUnits_decode_replace (unpackWords_lt data)
  unfold decodeUtf16Bytes
  simp only
  split
  next =>
    rw [encodeUnits_append, hunits]
    exact List.prefix_rfl
  next =>
    rw [hunits]
    exact List.prefix_append _ _

theorem encodeUnits_mono {cs ds : List Nat} (h : cs <+: ds) : encodeUnits cs <+: encodeUnits ds := by
  obtain ⟨rest, rfl⟩ := h
  rw [encodeUnits_append]
  exact List.prefix_append _ _

theorem encodeUnits_length_le (cs : List Nat) : (encodeUnits cs).length ≤ 2 * cs.length := by
  induction cs with
  | nil => exact Nat.le_refl 0
  | cons c cs ih =>
    have hone := length_encodeChar c
    have hcons : (encodeUnits (c :: cs)).length = (encodeChar c).length + (encodeUnits cs).length := List.length_append
    rw [hcons, hone, List.length_cons]
    split
    next => omega
    next => omega

/-- A kept NUL at the end of the part is the one that ends the string. -/
theorem loadText_left (hnil : decodeUtf16Bytes data ≠ []) (first ptrSize lpBuffer n : Nat) :
    LeftOf data first ptrSize lpBuffer n (loadText m ptrSize first lpBuffer n (decodeUtf16Bytes data)).1 m
      (loadText m ptrSize first lpBuffer n (decodeUtf16Bytes data)).2 := by
  unfold LeftOf loadText
  rw [if_neg hnil]
  split
  next => rfl
  next =>
    simp only
    have hpart : encodeUnits ((decodeUtf16Bytes data).take (n - 1)) <+:
        rereadUnits replace (unpackWords data) ++ [0xFFFD] :=
      (encodeUnits_mono (List.take_prefix _ _)).trans (encodeUnits_decodeUtf16Bytes data)
    split
    next hlast =>
      obtain ⟨cs, hcs⟩ := List.getLast?_eq_some_iff.mp hlast
      rw [hcs, encodeUnits_append] at hpart ⊢
      have hlow := length_le_encodeUnits cs
      have hhigh := encodeUnits_length_le cs
      refine ⟨encodeUnits cs, (List.prefix_append _ _).trans hpart, ?_, ?_, rfl⟩
      · rw [List.length_append, List.length_singleton]
        omega
      · rw [List.length_append, List.length_singleton]
        omega
    next =>
      have hlow := length_le_encodeUnits ((decodeUtf16Bytes data).take (n - 1))
      refine ⟨_, hpart, by omega, encodeUnits_length_le _, ?_⟩
      rw [encodeUnits_append]
      rfl

/-- Every block, whatever is in it. -/
theorem loadsInside_iff (hfinds : FindsBlock s hInstance uID address data.length) (ptrSize n : Nat) :
    LoadsInside s ptrSize hInstance uID n address data ↔ ¬CutsUnit data (uID % 16) n := by
  unfold LoadsInside
  have hload := fun (m : ByteMemory) lpBuffer (hm : m.Holds address data) =>
    loadString_of_finds hfinds hm ptrSize lpBuffer n
  cases hoffset : stringOffset data (uID % 16) 0 with
  | none =>
    have hcuts : ¬CutsUnit data (uID % 16) n := by
      rintro ⟨offset, hsome, -⟩
      rw [hoffset] at hsome
      cases hsome
    refine iff_of_true ?_ hcuts
    intro m lpBuffer hm
    refine ⟨0, m, ?_, Or.inl rfl⟩
    rw [hload m lpBuffer hm, hoffset]
  | some offset =>
    have hroom := stringOffset_room hoffset
    obtain ⟨hinside, hend⟩ := stringBytes_end hroom
    have hlen := length_decodeUtf16Bytes (stringBytes data offset)
    have hcount : ∀ m lpBuffer, (loadText m ptrSize (address + offset + 2) lpBuffer n
        (decodeUtf16Bytes (stringBytes data offset))).1 =
          if n = 0 then (decodeUtf16Bytes (stringBytes data offset)).length
          else min (n - 1) (decodeUtf16Bytes (stringBytes data offset)).length := by
      intro m lpBuffer
      unfold loadText
      split
      next hnil => rw [hnil, List.length_nil, Nat.min_zero, ite_self]
      next =>
        split
        next => rfl
        next => exact List.length_take
    constructor
    · intro h
      rintro ⟨found, hfound, hodd, hpairs, hhigh, hsize⟩
      rw [hoffset, Option.some.injEq] at hfound
      subst hfound
      rw [if_pos ⟨hodd, hhigh⟩] at hlen
      obtain ⟨count, m', hresult, hright⟩ := h _ 0 (filledAround_holds 0)
      rw [hload _ 0 (filledAround_holds 0), hoffset] at hresult
      have hfirst := hcount (filledAround 0 address data) 0
      rw [Option.some.inj hresult] at hfirst
      rcases hright with hzero | ⟨found, hfound, hright, -⟩
      · have hzero : count = 0 := congrArg Prod.fst hzero
        split at hfirst
        next => omega
        next => omega
      · rw [Option.some.injEq] at hfound
        split at hfirst
        next => omega
        next => omega
    · intro h m lpBuffer hm
      refine ⟨_, _, by rw [hload m lpBuffer hm, hoffset], ?_⟩
      by_cases hnil : decodeUtf16Bytes (stringBytes data offset) = []
      · left
        rw [loadText, if_pos hnil]
      refine Or.inr ⟨offset, rfl, ?_, loadText_left hnil _ _ _ _⟩
      have hfirst := hcount m lpBuffer
      rw [hfirst]
      by_cases hcut : (stringBytes data offset).length % 2 = 1 ∧ endsInHigh (unpackWords (stringBytes data offset)) = false
      · rw [if_pos hcut] at hlen
        by_cases hpairs : pairCount (unpackWords (stringBytes data offset)) = 0
        · have hsize : ¬(n = 0 ∨ (stringBytes data offset).length / 2 + 1 < n) :=
            fun hsize => h ⟨offset, hoffset, hcut.1, hpairs, hcut.2, hsize⟩
          split
          next => omega
          next => omega
        · split
          next => omega
          next => omega
      · rw [if_neg hcut] at hlen
        split
        next => omega
        next => omega

theorem loadString_law (hfinds : FindsBlock s hInstance uID address size) (ptrSize n : Nat) :
    (∀ ss, ss.length = 16 → (∀ us ∈ ss, us.length < 0x10000 ∧ ∀ u ∈ us, u < 0x10000) → (stringBlock ss).length = size →
      (LoadsStrings s ptrSize hInstance uID n address ss ↔ LoadsUnits (ss.getD (uID % 16) []) n)) ∧
    ∀ data : List UInt8, data.length = size →
      (LoadsInside s ptrSize hInstance uID n address data ↔ ¬CutsUnit data (uID % 16) n) := by
  constructor
  · intro ss hcount hss hlength
    exact loadsStrings_iff hcount hss (hlength ▸ hfinds) ptrSize n
  · intro data hlength
    exact loadsInside_iff (hlength ▸ hfinds) ptrSize n

end Loads

/-- One module, with one block of strings. -/
def oneTable (size : Nat) : LoadedModules where
  modules := [⟨0x400000, 0x1000, some [⟨rtString, 1, 0x100, size⟩]⟩]
  currMod := none

theorem oneTable_finds (size : Nat) : FindsBlock (oneTable size) 0x400000 0 0x400100 size := by
  refine ⟨⟨0x400000, 0x1000, some [⟨rtString, 1, 0x100, size⟩]⟩, _, ⟨rtString, 1, 0x100, size⟩, ?_, rfl, ?_, rfl, rfl⟩
  · simp [LoadedModules.instanceModule, LoadedModules.getModFromAddr, LoadedModules.ResourceHolds, oneTable]
  · simp

theorem loadString_law_block :
    LoadsStrings (oneTable 36) 4 0x400000 0 2 0x400100 ([0x41, 0x42] :: List.replicate 15 []) :=
  ((loadString_law (oneTable_finds 36) 4 2).1 _ (by decide) (by decide) (by decide)).mpr
    (Or.inl ⟨by decide, by decide⟩)

/-- A pair is one character of the text, and two units of the buffer. -/
theorem loadString_pair : ¬LoadsStrings (oneTable 36) 4 0x400000 0 2 0x400100 ([0xD83D, 0xDE00] :: List.replicate 15 []) := by
  intro h
  have hholds : (filledAround 0xCC 0x400100 (stringBlock ([0xD83D, 0xDE00] :: List.replicate 15 []))).Holds 0x400100
      (stringBlock ([0xD83D, 0xDE00] :: List.replicate 15 [])) := filledAround_holds 0xCC
  obtain ⟨result, hresult, hloaded⟩ := h _ 0x2000 hholds
  have hsecond : result.2.readInt 0x2002 2 = 0 := by
    rw [show result = _ from hloaded]
    decide
  have hunits := congrArg (Option.map fun r => r.2.readInt 0x2002 2) hresult
  rw [Option.map_some, hsecond] at hunits
  exact absurd hunits (by decide)

end

end Speakeasy
