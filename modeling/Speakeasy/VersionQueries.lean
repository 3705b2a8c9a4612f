import Speakeasy.VersionTrees

namespace Speakeasy

open ByteMemory

def vsVersionSignature : List UInt8 := [0x46, 0x45, 0x32, 0x58]

/-- `get_size` of a resource. -/
def versionInfoSize (resource : List UInt8) : Nat :=
  if resource = [] then 0 else resource.length * 2 + vsVersionSignature.length

def versionErrorNotFound : Nat := 1813

/-- The answer of `VerQueryValue`: the result and the last error that it sets, the address that it returns, the text that
it stores, and what it writes to its arguments. -/
structure VersionReply where
  result : Nat
  lastError : Option Nat
  value : Option Nat
  stored : List (Nat × List UInt8)
  arguments : List (Nat × List UInt8)

namespace ByteMemory

/-- `get_info`: what it writes for a resource that was found. -/
def versionInfoWrites (resource : List UInt8) (dwLen lpData : Nat) : List (Nat × List UInt8) :=
  let length := if 2 ≤ resource.length then fromBytes (resource.take 2) else 0
  (lpData, resource.take dwLen) ::
    if length + vsVersionSignature.length ≤ dwLen then [(lpData + length, vsVersionSignature)] else []

/-- What a call does with a value that it found. -/
def versionReply (m : ByteMemory) (cw ptrSize pBlock lplpBuffer puLen : Nat) : Option (Nat × Nat × Bool) → VersionReply
  | none => ⟨0, some versionErrorNotFound, none, [], []⟩
  | some (offset, valueLength, isText) =>
    let length := m.readInt pBlock 2
    let ansi := isText = true ∧ cw = 1
    let text := decodeUnits replace (unpackWords (m.readBytes (pBlock + offset) (valueLength * 2)))
    let value := if ansi then pBlock + length + vsVersionSignature.length + offset else pBlock + offset
    let stored := if ansi then [(value, charBytes 1 (text.map encodeAnsiChar))] else []
    let buffer := if lplpBuffer = 0 then [] else [(lplpBuffer, toBytes ptrSize value)]
    let len := if puLen = 0 then [] else [(puLen, toBytes 4 valueLength)]
    ⟨1, none, some value, stored, buffer ++ len⟩

def verQueryValue (lower : List Nat → List Nat) (m : ByteMemory) (fuel cw ptrSize pBlock lpSubBlock lplpBuffer puLen : Nat) :
    Option VersionReply :=
  if pBlock = 0 ∨ lpSubBlock = 0 then some ⟨0, none, none, [], []⟩
  else
    (m.readMemString fuel lpSubBlock cw).map fun subBlock =>
      m.versionReply cw ptrSize pBlock lplpBuffer puLen
        (getVersionValue lower (m.readBytes pBlock (m.readInt pBlock 2)) subBlock)

/-- A call returns an address of the buffer, and stores inside it. -/
def StaysInBuffer (pBlock size : Nat) (reply : VersionReply) : Prop :=
  (∀ a, reply.value = some a → pBlock ≤ a ∧ a < pBlock + size) ∧
    ∀ w ∈ reply.stored, pBlock ≤ w.1 ∧ w.1 + w.2.length ≤ pBlock + size

/-- The value that the path leads to begins before the end of the buffer; and the room after the block is enough for a
text that is converted. -/
def ValueFits (lower : List Nat → List Nat) (m : ByteMemory) (cw pBlock : Nat) (resource : List UInt8) (subBlock : List Nat) :
    Prop :=
  ∀ offset valueLength isText,
    getVersionValue lower (m.readBytes pBlock (m.readInt pBlock 2)) subBlock = some (offset, valueLength, isText) →
    if isText = true ∧ cw = 1 then
      m.readInt pBlock 2 + offset < 2 * resource.length ∧
        m.readInt pBlock 2 + offset +
          (decodeUnits replace (unpackWords (m.readBytes (pBlock + offset) (valueLength * 2)))).length ≤ 2 * resource.length
    else offset < 2 * resource.length + 4

variable {lower : List Nat → List Nat} {m : ByteMemory} {fuel cw ptrSize pBlock lpSubBlock lplpBuffer puLen : Nat}
  {resource : List UInt8} {subBlock : List Nat}

theorem versionInfoSize_eq (h : resource ≠ []) : versionInfoSize resource = 2 * resource.length + 4 := by
  rw [versionInfoSize, if_neg h, Nat.mul_comm]
  rfl

/-- To fill a buffer of the right size stays inside it. -/
theorem versionInfoWrites_inside (h : resource ≠ []) : ∀ w ∈ versionInfoWrites resource (versionInfoSize resource) pBlock,
    pBlock ≤ w.1 ∧ w.1 + w.2.length ≤ pBlock + versionInfoSize resource := by
  have hsize := versionInfoSize_eq h
  have hsignature : vsVersionSignature.length = 4 := rfl
  intro w hw
  unfold versionInfoWrites at hw
  simp only at hw
  rcases List.mem_cons.mp hw with rfl | hw
  · have hlength := List.length_take_le' (versionInfoSize resource) resource
    exact ⟨Nat.le_refl _, by simp only; omega⟩
  · generalize (if 2 ≤ resource.length then fromBytes (resource.take 2) else 0) = length at hw
    split at hw
    next hroom =>
      rw [List.mem_singleton.mp hw]
      exact ⟨Nat.le_add_right _ _, by simp only; omega⟩
    next => cases hw

theorem versionReply_iff (m : ByteMemory) (cw ptrSize pBlock lplpBuffer puLen size : Nat)
    (found : Option (Nat × Nat × Bool)) :
    StaysInBuffer pBlock (2 * size + 4) (m.versionReply cw ptrSize pBlock lplpBuffer puLen found) ↔
      ∀ offset valueLength isText, found = some (offset, valueLength, isText) →
        if isText = true ∧ cw = 1 then
          m.readInt pBlock 2 + offset < 2 * size ∧
            m.readInt pBlock 2 + offset +
              (decodeUnits replace (unpackWords (m.readBytes (pBlock + offset) (valueLength * 2)))).length ≤ 2 * size
        else offset < 2 * size + 4 := by
  have hsignature : vsVersionSignature.length = 4 := rfl
  cases found with
  | none =>
    refine iff_of_true ⟨?_, ?_⟩ ?_
    · intro a ha
      cases ha
    · intro w hw
      cases hw
    · intro _ _ _ h
      cases h
  | some found =>
    obtain ⟨offset, valueLength, isText⟩ := found
    have hone : (∀ o v t, some (offset, valueLength, isText) = some (o, v, t) →
        if t = true ∧ cw = 1 then
          m.readInt pBlock 2 + o < 2 * size ∧
            m.readInt pBlock 2 + o + (decodeUnits replace (unpackWords (m.readBytes (pBlock + o) (v * 2)))).length ≤ 2 * size
        else o < 2 * size + 4) ↔
        if isText = true ∧ cw = 1 then
          m.readInt pBlock 2 + offset < 2 * size ∧
            m.readInt pBlock 2 + offset +
              (decodeUnits replace (unpackWords (m.readBytes (pBlock + offset) (valueLength * 2)))).length ≤ 2 * size
        else offset < 2 * size + 4 :=
      ⟨fun h => h _ _ _ rfl, fun h o v t heq => by cases heq; exact h⟩
    rw [hone]
    unfold StaysInBuffer versionReply
    simp only
    by_cases hansi : isText = true ∧ cw = 1
    · simp only [if_pos hansi, Option.some.injEq, forall_eq', List.mem_singleton, forall_eq, charBytes_length,
        List.length_map, Nat.mul_one, hsignature]
      omega
    · simp only [if_neg hansi, Option.some.injEq, forall_eq', List.not_mem_nil, false_imp_iff, implies_true, and_true]
      omega

theorem verQueryValue_iff (hblock : pBlock ≠ 0) (hsub : lpSubBlock ≠ 0) (hresource : resource ≠ [])
    (hpath : m.readMemString fuel lpSubBlock cw = some subBlock) :
    (∃ reply, m.verQueryValue lower fuel cw ptrSize pBlock lpSubBlock lplpBuffer puLen = some reply ∧
      StaysInBuffer pBlock (versionInfoSize resource) reply) ↔ ValueFits lower m cw pBlock resource subBlock := by
  have hnull : ¬(pBlock = 0 ∨ lpSubBlock = 0) := by omega
  rw [verQueryValue, if_neg hnull, hpath, Option.map_some, versionInfoSize_eq hresource, ValueFits, ← versionReply_iff]
  constructor
  · rintro ⟨reply, hreply, hinside⟩
    rw [Option.some.injEq] at hreply
    rw [← hreply] at hinside
    exact hinside
  · exact fun hinside => ⟨_, rfl, hinside⟩

/-- The memory after `GetFileVersionInfo` filled a buffer of the size that `GetFileVersionInfoSize` gives. -/
def filledBuffer (m : ByteMemory) (resource : List UInt8) (pBlock : Nat) : ByteMemory :=
  m.writeAll (versionInfoWrites resource (versionInfoSize resource) pBlock)

/-- A serialised resource stands in the buffer, up to the end of its root. -/
theorem filledBuffer_block (m : ByteMemory) {t : VersionTree} (ht : VersionTree.Serialised resource t)
    (hroot : t.offset = 0) :
    (m.filledBuffer resource pBlock).readInt pBlock 2 = t.last ∧
      (m.filledBuffer resource pBlock).readBytes pBlock t.last = resource.take t.last := by
  obtain ⟨hheader, -, -, hlength, -⟩ := ht.front
  obtain ⟨hvalueEnd, hlast⟩ := ht.bounds
  have hlt := VersionTree.offset_lt_valueEnd t
  have hfront := VersionTree.frontEnd_le_valueEnd t
  have hfrontEnd : t.frontEnd = t.offset + 8 + 2 * (encodeUnits t.key).length := rfl
  have hne : resource ≠ [] := by
    intro hnil
    rw [hnil, List.length_nil] at hlast
    omega
  have hword := (hheader.part.1).dword hlength
  rw [hroot, Nat.sub_zero, List.drop_zero] at hword
  have htwo : 2 ≤ resource.length := by omega
  have hwhole : resource.take (versionInfoSize resource) = resource := by
    apply List.take_of_length_le
    rw [versionInfoSize_eq hne]
    omega
  have hread : ∀ count, count ≤ t.last →
      (m.filledBuffer resource pBlock).readBytes pBlock count = resource.take count := by
    intro count hcount
    have hfirst : (m.writeBytes pBlock resource).readBytes (pBlock + 0) count = (resource.drop 0).take count :=
      readBytes_writeBytes (by omega)
    rw [Nat.add_zero, List.drop_zero] at hfirst
    rw [filledBuffer, versionInfoWrites, if_pos htwo, hword, hwhole]
    split
    next =>
      show ((m.writeBytes pBlock resource).writeBytes (pBlock + t.last) vsVersionSignature).readBytes pBlock count = _
      rw [readBytes_writeBytes_of_apart (by left; omega), hfirst]
    next => exact hfirst
  refine ⟨?_, hread _ (Nat.le_refl _)⟩
  rw [readInt, hread 2 (by omega), hword]

/-- For a serialised resource, the only values that do not fit are empty texts of the ANSI calls behind the end. -/
theorem valueFits_serialised (lower : List Nat → List Nat) (m : ByteMemory) (cw : Nat) (subBlock : List Nat) {t : VersionTree}
    (ht : VersionTree.Serialised resource t) (hroot : t.offset = 0) :
    ValueFits lower (m.filledBuffer resource pBlock) cw pBlock resource subBlock ↔
      ∀ n, t.lookup lower (versionPath lower subBlock) = some n →
        ¬(cw = 1 ∧ n.value = .text [] ∧ 2 * resource.length ≤ t.last + n.valueOffset) := by
  obtain ⟨hlength, hblock⟩ := @filledBuffer_block pBlock resource m t ht hroot
  have hlast := ht.bounds.2
  have hfound := VersionTree.getVersionValue_serialised lower subBlock (ht.take (Nat.le_refl _)) hroot
  unfold ValueFits
  rw [hlength, hblock, hfound]
  cases hn : t.lookup lower (versionPath lower subBlock) with
  | none =>
    refine iff_of_true ?_ ?_
    · intro _ _ _ h
      cases h
    · intro _ h
      cases h
  | some n =>
    obtain ⟨hserial, hnlast⟩ := VersionTree.lookup_serialised ht hn
    obtain ⟨hvalueEnd, -⟩ := hserial.bounds
    have hfront := VersionTree.frontEnd_le_valueEnd n
    have halign : n.valueOffset < n.frontEnd + 4 := by
      show align4 n.frontEnd < _
      unfold align4
      omega
    have hchars : (decodeUnits replace (unpackWords ((m.filledBuffer resource pBlock).readBytes (pBlock + n.valueOffset)
        (n.value.length * 2)))).length ≤ n.value.length := by
      have hgroups := length_unitGroups (unpackWords ((m.filledBuffer resource pBlock).readBytes (pBlock + n.valueOffset)
        (n.value.length * 2)))
      rw [length_unpackWords, readBytes_length] at hgroups
      rw [length_decodeUnits]
      omega
    have hplace : n.value.bytes ≠ [] → n.valueOffset + n.value.bytes.length ≤ resource.length := by
      intro hbytes
      have hend : n.valueEnd = n.valueOffset + n.value.bytes.length := if_neg hbytes
      omega
    constructor
    · rintro h k hk ⟨hcw, htext, hroom⟩
      rw [Option.some.injEq] at hk
      subst hk
      have hfits := h _ _ _ rfl
      rw [htext, if_pos ⟨rfl, hcw⟩] at hfits
      omega
    · intro h o v b hsome
      rw [Option.map_some, Option.some.injEq, Prod.mk.injEq, Prod.mk.injEq] at hsome
      obtain ⟨rfl, rfl, rfl⟩ := hsome
      generalize (decodeUnits replace (unpackWords ((m.filledBuffer resource pBlock).readBytes (pBlock + n.valueOffset)
        (n.value.length * 2)))).length = chars at hchars ⊢
      split
      next hansi =>
        obtain ⟨htext, hcw⟩ := hansi
        cases hvalue : n.value with
        | binary data =>
          rw [hvalue] at htext
          cases htext
        | text units =>
          rw [hvalue] at hchars hplace
          have hlen : (VersionValue.text units).length = units.length := rfl
          have hbytes : (VersionValue.text units).bytes.length = units.length * 2 := charBytes_length 2 units
          by_cases hempty : units = []
          · have hroom : ¬2 * resource.length ≤ t.last + n.valueOffset :=
              fun hroom => h n rfl ⟨hcw, by rw [hvalue, hempty], hroom⟩
            rw [hempty] at hchars
            have hzero : (VersionValue.text []).length = 0 := rfl
            omega
          · have hpos := List.length_pos_of_ne_nil hempty
            have hroom := hplace fun hnil => by
              rw [hnil, List.length_nil] at hbytes
              omega
            omega
      next => omega

theorem versionInfo_law (lower : List Nat → List Nat) (m : ByteMemory) (ptrSize lplpBuffer puLen : Nat) (hblock : pBlock ≠ 0)
    (hsub : lpSubBlock ≠ 0) (hresource : resource ≠ [])
    (hpath : (m.filledBuffer resource pBlock).readMemString fuel lpSubBlock cw = some subBlock) :
    (∀ (block : List UInt8) (t : VersionTree) (path : List Nat), VersionTree.Serialised block t → t.offset = 0 →
      getVersionValue lower block path = (t.lookup lower (versionPath lower path)).map fun n =>
        (n.valueOffset, n.value.length, n.value.isText)) ∧
    (∀ w ∈ versionInfoWrites resource (versionInfoSize resource) pBlock,
      pBlock ≤ w.1 ∧ w.1 + w.2.length ≤ pBlock + versionInfoSize resource) ∧
    ((∃ reply, (m.filledBuffer resource pBlock).verQueryValue lower fuel cw ptrSize pBlock lpSubBlock lplpBuffer puLen =
        some reply ∧ StaysInBuffer pBlock (versionInfoSize resource) reply) ↔
      ValueFits lower (m.filledBuffer resource pBlock) cw pBlock resource subBlock) ∧
    ∀ t : VersionTree, VersionTree.Serialised resource t → t.offset = 0 →
      (ValueFits lower (m.filledBuffer resource pBlock) cw pBlock resource subBlock ↔
        ∀ n, t.lookup lower (versionPath lower subBlock) = some n →
          ¬(cw = 1 ∧ n.value = .text [] ∧ 2 * resource.length ≤ t.last + n.valueOffset)) :=
  ⟨fun _ _ path ht hroot => VersionTree.getVersionValue_serialised lower path ht hroot,
    versionInfoWrites_inside hresource, verQueryValue_iff hblock hsub hresource hpath,
    fun _ ht hroot => valueFits_serialised lower m cw subBlock ht hroot⟩

/-- A root with two bytes of data, in it `S`, and in that `K` with the text `hi` and its NUL. -/
def nestedResource : List UInt8 :=
  [42, 0, 2, 0, 0, 0, 0, 0, 7, 9, 0, 0,
    30, 0, 0, 0, 1, 0, 0x53, 0, 0, 0, 0, 0,
    18, 0, 3, 0, 1, 0, 0x4B, 0, 0, 0, 0, 0, 0x68, 0, 0x69, 0, 0, 0]

def nestedLeaf : VersionTree := .node 24 42 [0x4B] (.text [0x68, 0x69, 0]) []

def nestedTree : VersionTree := .node 0 42 [] (.binary [7, 9]) [.node 12 42 [0x53] (.text []) [nestedLeaf]]

theorem nestedTree_serialised : VersionTree.Serialised nestedResource nestedTree := by
  have hleaf : VersionTree.Serialised nestedResource nestedLeaf := by
    rw [nestedLeaf, VersionTree.Serialised, VersionTree.SerialisedAll]
    exact ⟨⟨⟨by decide, by decide⟩, fun _ => ⟨by decide, by decide⟩, by decide, by decide, by decide⟩, by decide,
      by decide, by decide⟩
  rw [nestedTree, VersionTree.Serialised, VersionTree.SerialisedAll, VersionTree.SerialisedAll, VersionTree.Serialised,
    VersionTree.SerialisedAll, VersionTree.SerialisedAll]
  refine ⟨⟨⟨by decide, by decide⟩, fun _ => ⟨by decide, by decide⟩, ?_, by decide, by decide⟩, rfl,
    ⟨⟨⟨by decide, by decide⟩, fun h => absurd rfl h, by decide, by decide, by decide⟩, rfl, hleaf, by decide, by decide,
      by decide⟩, by decide, by decide, by decide⟩
  intro c hc
  cases hc

/-- The lower case of ASCII. -/
def lowerKey (cs : List Nat) : List Nat := cs.map fun c => if 0x41 ≤ c ∧ c ≤ 0x5A then c + 0x20 else c

/-- The path `\s\k`, in the case that the keys do not have. -/
def nestedPath : List Nat := [0x5C, 0x73, 0x5C, 0x6B]

def nestedMemory : ByteMemory := writeBytes (fun _ => 0) 0x3000 (charBytes 1 nestedPath)

theorem nestedTree_lookup : nestedTree.lookup lowerKey (versionPath lowerKey nestedPath) = some nestedLeaf := by
  have hpath : versionPath lowerKey nestedPath = [[0x73], [0x6B]] := by decide
  rw [hpath]
  rfl

theorem versionInfo_law_nested :
    getVersionValue lowerKey nestedResource nestedPath = some (36, 3, true) ∧
    ∃ reply, (nestedMemory.filledBuffer nestedResource 0x1000).verQueryValue lowerKey 5 1 4 0x1000 0x3000 0x4000 0x4004 =
        some reply ∧
      StaysInBuffer 0x1000 (versionInfoSize nestedResource) reply := by
  have hpath : (nestedMemory.filledBuffer nestedResource 0x1000).readMemString 5 0x3000 1 = some nestedPath := by decide
  have hlaw := versionInfo_law lowerKey nestedMemory 4 0x4000 0x4004 (show 0x1000 ≠ 0 by decide)
    (show 0x3000 ≠ 0 by decide) (show nestedResource ≠ [] by decide) hpath
  constructor
  · rw [hlaw.1 _ _ nestedPath nestedTree_serialised rfl, nestedTree_lookup]
    rfl
  · apply hlaw.2.2.1.mpr
    apply (hlaw.2.2.2 nestedTree nestedTree_serialised rfl).mpr
    intro n hn
    rw [nestedTree_lookup, Option.some.injEq] at hn
    subst hn
    rintro ⟨-, hempty, -⟩
    cases hempty

/-- A root whose value is said to be a text of a hundred characters, in a resource of twelve bytes. -/
def longResource : List UInt8 := [12, 0, 100, 0, 1, 0, 0, 0, 0, 0, 0, 0]

theorem longResource_root : getVersionNode longResource 0 = some ⟨12, [], 8, 100, true⟩ := by
  have hkey : versionKeyEnd longResource 12 6 = 6 := by
    rw [versionKeyEnd, if_neg (by decide)]
  unfold getVersionNode
  rw [if_neg (by decide)]
  show some (⟨12, decodeUnits replace (unpackWords ((longResource.drop 6).take (versionKeyEnd longResource 12 6 - 6))),
    align4 (versionKeyEnd longResource 12 6 + 2), 100, true⟩ : VersionNode) = _
  rw [hkey]
  decide

/-- The converted text does not end inside the buffer. -/
theorem verQueryValue_long :
    ¬∃ reply, (filledBuffer (fun _ => 0) longResource 0x1000).verQueryValue id 1 1 4 0x1000 0x3000 0 0 = some reply ∧
      StaysInBuffer 0x1000 (versionInfoSize longResource) reply := by
  have hpath : (filledBuffer (fun _ => 0) longResource 0x1000).readMemString 1 0x3000 1 = some [] := by decide
  rw [verQueryValue_iff (by decide) (by decide) (by decide) hpath]
  intro h
  have hlength : (filledBuffer (fun _ => 0) longResource 0x1000).readInt 0x1000 2 = 12 := by decide
  have hblock : (filledBuffer (fun _ => 0) longResource 0x1000).readBytes 0x1000 12 = longResource := by decide
  have hfound : getVersionValue id longResource [] = some (8, 100, true) := by
    rw [getVersionValue, longResource_root]
    decide
  have hfits := h 8 100 true (by rw [hlength, hblock, hfound])
  rw [if_pos ⟨rfl, rfl⟩, hlength] at hfits
  have hchars : 100 ≤ (decodeUnits replace (unpackWords
      ((filledBuffer (fun _ => 0) longResource 0x1000).readBytes (0x1000 + 8) (100 * 2)))).length := by
    decide
  have hresource : longResource.length = 12 := rfl
  omega

end ByteMemory

end Speakeasy
