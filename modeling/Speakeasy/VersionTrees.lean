import Speakeasy.StringTableLaw

namespace Speakeasy

open ByteMemory

def align4 (offset : Nat) : Nat := (offset + 3) / 4 * 4

theorem le_align4 (offset : Nat) : offset ≤ align4 offset := by
  unfold align4
  omega

theorem align4_align4 (offset : Nat) : align4 (align4 offset) = align4 offset := by
  unfold align4
  omega

/-- A node as `get_version_node` decodes it. -/
structure VersionNode where
  last : Nat
  key : List Nat
  valueOffset : Nat
  valueLength : Nat
  isText : Bool
deriving DecidableEq

/-- Where the loop over the key ends. -/
def versionKeyEnd (block : List UInt8) (last keyEnd : Nat) : Nat :=
  if keyEnd + 2 ≤ last ∧ (block.drop keyEnd).take 2 ≠ [0, 0] then versionKeyEnd block last (keyEnd + 2) else keyEnd
termination_by last - keyEnd

/-- `get_version_node`, where the header of a node outside the block raises. -/
def getVersionNode (block : List UInt8) (offset : Nat) : Option VersionNode :=
  if block.length < offset + 6 then none
  else
    let length := fromBytes ((block.drop offset).take 2)
    let valueLength := fromBytes ((block.drop (offset + 2)).take 2)
    let valueType := fromBytes ((block.drop (offset + 4)).take 2)
    let last := min (offset + length) block.length
    let keyEnd := versionKeyEnd block last (offset + 6)
    let key := decodeUnits replace (unpackWords ((block.drop (offset + 6)).take (keyEnd - (offset + 6))))
    some ⟨last, key, align4 (keyEnd + 2), valueLength, valueType = 1⟩

/-- The loop over the children of a node. A child without a length ends the search. -/
def findChild (lower : List Nat → List Nat) (block : List UInt8) (key : List Nat) (last child : Nat) : Option VersionNode :=
  if child < last then
    match getVersionNode block child with
    | none => none
    | some node =>
      if node.last ≤ child then none
      else if lower node.key = key then some node
      else findChild lower block key last (align4 node.last)
  else none
termination_by last - child
decreasing_by
  have hle := le_align4 node.last
  omega

/-- Where the children of a node begin. -/
def VersionNode.firstChild (node : VersionNode) : Nat :=
  align4 (node.valueOffset + node.valueLength * if node.isText then 2 else 1)

def descendVersion (lower : List Nat → List Nat) (block : List UInt8) : List (List Nat) → VersionNode → Option VersionNode
  | [], node => some node
  | key :: keys, node =>
    (findChild lower block key node.last node.firstChild).bind (descendVersion lower block keys)

/-- The elements of a path. -/
def versionPath (lower : List Nat → List Nat) (subBlock : List Nat) : List (List Nat) :=
  ((subBlock.splitOn 0x5C).filter (· ≠ [])).map lower

def getVersionValue (lower : List Nat → List Nat) (block : List UInt8) (subBlock : List Nat) : Option (Nat × Nat × Bool) :=
  (getVersionNode block 0).bind fun root =>
    (descendVersion lower block (versionPath lower subBlock) root).map fun node =>
      (node.valueOffset, node.valueLength, node.isText)

inductive VersionValue
  | binary (data : List UInt8)
  | text (units : List Nat)

namespace VersionValue

def bytes : VersionValue → List UInt8
  | binary data => data
  | text units => charBytes 2 units

/-- The value length of a node: bytes, or characters of a text. -/
def length : VersionValue → Nat
  | binary data => data.length
  | text units => units.length

def isText : VersionValue → Bool
  | binary _ => false
  | text _ => true

theorem length_bytes (v : VersionValue) : v.bytes.length = v.length * if v.isText then 2 else 1 := by
  cases v with
  | binary data => exact (Nat.mul_one _).symm
  | text units => exact charBytes_length 2 units

end VersionValue

/-- A tree of nodes, each with the offsets of its first byte and after its last. -/
inductive VersionTree
  | node (offset last : Nat) (key : List Nat) (value : VersionValue) (children : List VersionTree)

namespace VersionTree

def offset : VersionTree → Nat
  | node offset _ _ _ _ => offset

def last : VersionTree → Nat
  | node _ last _ _ _ => last

def key : VersionTree → List Nat
  | node _ _ key _ _ => key

def value : VersionTree → VersionValue
  | node _ _ _ value _ => value

def children : VersionTree → List VersionTree
  | node _ _ _ _ children => children

/-- Where the header and the key end, with the terminator of the key. -/
def frontEnd (t : VersionTree) : Nat := t.offset + 8 + 2 * (encodeUnits t.key).length

def valueOffset (t : VersionTree) : Nat := align4 t.frontEnd

/-- Where the value ends. -/
def valueEnd (t : VersionTree) : Nat :=
  if t.value.bytes = [] then t.frontEnd else t.valueOffset + t.value.bytes.length

/-- The node that a path leads to: the first child with the key, at each level. -/
def lookup (lower : List Nat → List Nat) : List (List Nat) → VersionTree → Option VersionTree
  | [], t => some t
  | key :: keys, t => (t.children.find? fun c => lower c.key = key).bind (lookup lower keys)

/-- The bytes lie at an offset of a block. -/
def BytesAt (block : List UInt8) (offset : Nat) (bs : List UInt8) : Prop :=
  (block.drop offset).take bs.length = bs ∧ offset + bs.length ≤ block.length

/-- The header, the key and the value of a node are in a block. -/
structure FrontAt (block : List UInt8) (t : VersionTree) : Prop where
  header : BytesAt block t.offset (toBytes 2 (t.last - t.offset) ++ (toBytes 2 t.value.length ++
    (toBytes 2 (if t.value.isText then 1 else 0) ++ charBytes 2 (encodeUnits t.key ++ [0]))))
  value : t.value.bytes ≠ [] → BytesAt block t.valueOffset t.value.bytes
  key : ∀ c ∈ t.key, c ≠ 0 ∧ ¬isSurrogate c ∧ c < 0x110000
  length : t.last - t.offset < 0x10000
  valueLength : t.value.length < 0x10000

mutual

/-- A block has a node and all below it, in the format of `VS_VERSIONINFO`. -/
def Serialised (block : List UInt8) : VersionTree → Prop
  | node offset last key value children =>
    FrontAt block (node offset last key value children) ∧
      SerialisedAll block (node offset last key value children).valueEnd last children

/-- The children follow one another after the end of what is before them, each aligned, up to the end of the parent, which
may have padding after them. -/
def SerialisedAll (block : List UInt8) (before last : Nat) : List VersionTree → Prop
  | [] => before ≤ last ∧ last ≤ align4 before ∧ last ≤ block.length
  | c :: cs => c.offset = align4 before ∧ Serialised block c ∧ SerialisedAll block c.last last cs

end

/-- What is decoded of a node. -/
def head (t : VersionTree) : VersionNode := ⟨t.last, t.key, t.valueOffset, t.value.length, t.value.isText⟩

section Layout

variable {block : List UInt8} {t : VersionTree} {cs : List VersionTree} {before last : Nat}

theorem BytesAt.part {bs ds : List UInt8} {o : Nat} (h : BytesAt block o (bs ++ ds)) :
    BytesAt block o bs ∧ BytesAt block (o + bs.length) ds := by
  obtain ⟨htake, hroom⟩ := h
  rw [List.length_append] at htake hroom
  rw [List.take_add] at htake
  have hlen : ((block.drop o).take bs.length).length = bs.length := by
    rw [List.length_take, List.length_drop]
    omega
  obtain ⟨hfront, hrest⟩ := List.append_inj htake hlen
  rw [List.drop_drop] at hrest
  exact ⟨⟨hfront, by omega⟩, ⟨hrest, by omega⟩⟩

theorem BytesAt.dword {o v : Nat} (h : BytesAt block o (toBytes 2 v)) (hv : v < 0x10000) :
    fromBytes ((block.drop o).take 2) = v := by
  have htake := h.1
  rw [toBytes_length] at htake
  rw [htake, fromBytes_toBytes_of_lt hv]

theorem Serialised.front (h : Serialised block t) : FrontAt block t := by
  cases t with
  | node offset last key value children =>
    rw [Serialised] at h
    exact h.1

theorem Serialised.below (h : Serialised block t) : SerialisedAll block t.valueEnd t.last t.children := by
  cases t with
  | node offset last key value children =>
    rw [Serialised] at h
    exact h.2

theorem frontEnd_le_valueEnd (t : VersionTree) : t.frontEnd ≤ t.valueEnd := by
  have halign := le_align4 t.frontEnd
  unfold valueEnd valueOffset
  split
  next => exact Nat.le_refl _
  next => omega

theorem offset_lt_valueEnd (t : VersionTree) : t.offset < t.valueEnd := by
  have hfront : t.offset < t.frontEnd := by
    unfold frontEnd
    omega
  exact Nat.lt_of_lt_of_le hfront (frontEnd_le_valueEnd t)

mutual

/-- A node ends after its value and inside the block. -/
theorem Serialised.bounds {t : VersionTree} (h : Serialised block t) : t.valueEnd ≤ t.last ∧ t.last ≤ block.length := by
  match t, h with
  | node offset last key value children, h =>
    rw [Serialised] at h
    exact SerialisedAll.bounds h.2

/-- The parent ends after all its children. -/
theorem SerialisedAll.bounds {before last : Nat} {cs : List VersionTree} (h : SerialisedAll block before last cs) :
    before ≤ last ∧ last ≤ block.length := by
  match cs, h with
  | [], h =>
    rw [SerialisedAll] at h
    exact ⟨h.1, h.2.2⟩
  | c :: cs, h =>
    rw [SerialisedAll] at h
    obtain ⟨hoffset, hchild, hrest⟩ := h
    have hbefore := le_align4 before
    have hinside := Serialised.bounds hchild
    have hafter := SerialisedAll.bounds hrest
    have hlt := offset_lt_valueEnd c
    exact ⟨by omega, hafter.2⟩

end

theorem encodeUnits_ne_zero {text : List Nat} (h : ∀ c ∈ text, c ≠ 0) {u : Nat} (hu : u ∈ encodeUnits text) : u ≠ 0 := by
  obtain ⟨c, hc, hmem⟩ := List.mem_flatMap.mp hu
  unfold encodeChar at hmem
  split at hmem
  next =>
    rw [List.mem_singleton.mp hmem]
    exact h c hc
  next =>
    rcases List.mem_cons.mp hmem with rfl | hmem
    · omega
    · rw [List.mem_singleton.mp hmem]
      omega

/-- The loop over a key stops at its terminator. -/
theorem versionKeyEnd_eq {us : List Nat} {o : Nat} (h : BytesAt block o (charBytes 2 (us ++ [0])))
    (hus : ∀ u ∈ us, u ≠ 0 ∧ u < 0x10000) (hlast : o + 2 * us.length ≤ last) :
    versionKeyEnd block last o = o + 2 * us.length := by
  induction us generalizing o with
  | nil =>
    have hzero := h.1
    have hstop : ¬(o + 2 ≤ last ∧ (block.drop o).take 2 ≠ [0, 0]) := fun hgo => hgo.2 hzero
    rw [versionKeyEnd, if_neg hstop]
    rfl
  | cons u us ih =>
    rw [List.length_cons] at hlast
    rw [List.cons_append, charBytes_cons] at h
    obtain ⟨hunit, hrest⟩ := h.part
    rw [toBytes_length] at hrest
    have hvalue := hunit.dword (hus u List.mem_cons_self).2
    have hgo : o + 2 ≤ last ∧ (block.drop o).take 2 ≠ [0, 0] := by
      refine ⟨by omega, fun hzero => ?_⟩
      rw [hzero] at hvalue
      exact (hus u List.mem_cons_self).1 hvalue.symm
    rw [versionKeyEnd, if_pos hgo, ih hrest (fun v hv => hus v (List.mem_cons_of_mem u hv)) (by omega), List.length_cons]
    omega

theorem decodeUnits_encodeUnits {text : List Nat} (h : ∀ c ∈ text, ¬isSurrogate c ∧ c < 0x110000) :
    decodeUnits replace (encodeUnits text) = text := by
  have happend := decodeUnits_encodeUnits_append h []
  have hnil : decodeUnits replace [] = [] := rfl
  rwa [List.append_nil, hnil, List.append_nil] at happend

/-- A node of a tree is decoded. -/
theorem getVersionNode_head (h : Serialised block t) : getVersionNode block t.offset = some t.head := by
  obtain ⟨hheader, -, hkey, hlength, hvalueLength⟩ := h.front
  obtain ⟨hvalueEnd, hlast⟩ := h.bounds
  obtain ⟨hlengthAt, hrest⟩ := hheader.part
  obtain ⟨hvalueAt, hrest⟩ := hrest.part
  obtain ⟨htypeAt, hkeyAt⟩ := hrest.part
  simp only [toBytes_length] at hvalueAt htypeAt hkeyAt
  have hunits : ∀ u ∈ encodeUnits t.key, u ≠ 0 ∧ u < 0x10000 := fun u hu =>
    ⟨encodeUnits_ne_zero (fun c hc => (hkey c hc).1) hu, encodeUnits_lt (fun c hc => (hkey c hc).2.2) hu⟩
  have hfront := frontEnd_le_valueEnd t
  have hfrontEnd : t.frontEnd = t.offset + 8 + 2 * (encodeUnits t.key).length := rfl
  have hlen := hlengthAt.dword hlength
  have hvlen := hvalueAt.dword hvalueLength
  have htype := htypeAt.dword (show (if t.value.isText then 1 else 0) < 0x10000 by split <;> decide)
  have hend : t.offset + 2 + 2 + 2 = t.offset + 6 := by omega
  rw [hend] at hkeyAt
  have hkeyEnd := versionKeyEnd_eq hkeyAt hunits (show t.offset + 6 + 2 * (encodeUnits t.key).length ≤ t.last by omega)
  have hroom : ¬block.length < t.offset + 6 := by omega
  have hmin : min (t.offset + (t.last - t.offset)) block.length = t.last := by omega
  have hspan : t.offset + 6 + 2 * (encodeUnits t.key).length - (t.offset + 6) = (encodeUnits t.key).length * 2 := by omega
  have hkeyBytes : (block.drop (t.offset + 6)).take ((encodeUnits t.key).length * 2) = charBytes 2 (encodeUnits t.key) := by
    rw [charBytes_append] at hkeyAt
    have htake := hkeyAt.part.1.1
    rwa [charBytes_length] at htake
  have hafter : t.offset + 6 + 2 * (encodeUnits t.key).length + 2 = t.frontEnd := by omega
  have htext : decide ((if t.value.isText then 1 else 0) = 1) = t.value.isText := by
    cases t.value.isText with
    | false => rfl
    | true => rfl
  unfold getVersionNode
  rw [if_neg hroom]
  simp only
  rw [hlen, hvlen, show t.offset + 4 = t.offset + 2 + 2 from rfl, htype, hmin, hkeyEnd, hspan, hkeyBytes,
    unpackWords_charBytes fun u hu => (hunits u hu).2, decodeUnits_encodeUnits fun c hc => (hkey c hc).2, hafter, htext]
  rfl

theorem firstChild_head (t : VersionTree) : t.head.firstChild = align4 t.valueEnd := by
  have hbytes := t.value.length_bytes
  show align4 (t.valueOffset + t.value.length * if t.value.isText then 2 else 1) = _
  rw [← hbytes, valueEnd]
  split
  next hnil => rw [hnil, List.length_nil, Nat.add_zero, valueOffset, align4_align4]
  next => rfl

/-- The scan gives the first child with the key. -/
theorem findChild_serialised (lower : List Nat → List Nat) (key : List Nat) (h : SerialisedAll block before last cs) :
    findChild lower block key last (align4 before) = (cs.find? fun c => lower c.key = key).map head := by
  induction cs generalizing before with
  | nil =>
    rw [SerialisedAll] at h
    rw [findChild, if_neg (by omega)]
    rfl
  | cons c cs ih =>
    rw [SerialisedAll] at h
    obtain ⟨hoffset, hchild, hrest⟩ := h
    have hbounds := hchild.bounds
    have hafter := hrest.bounds
    have hlt := offset_lt_valueEnd c
    have hhead : ¬c.head.last ≤ c.offset := by
      show ¬c.last ≤ c.offset
      omega
    rw [findChild, if_pos (by omega), ← hoffset, getVersionNode_head hchild]
    simp only
    rw [if_neg hhead]
    by_cases hkey : lower c.key = key
    · have hhere : lower c.head.key = key := hkey
      rw [if_pos hhere]
      simp only [List.find?_cons, hkey, decide_true, Option.map_some]
    · have hthere : ¬lower c.head.key = key := hkey
      rw [if_neg hthere]
      simp only [List.find?_cons, hkey, decide_false]
      exact ih hrest

theorem SerialisedAll.mem (h : SerialisedAll block before last cs) {c : VersionTree} (hc : c ∈ cs) : Serialised block c := by
  induction cs generalizing before with
  | nil => cases hc
  | cons d ds ih =>
    rw [SerialisedAll] at h
    rcases List.mem_cons.mp hc with rfl | hc
    · exact h.2.1
    · exact ih h.2.2 hc

theorem descendVersion_serialised (lower : List Nat → List Nat) (keys : List (List Nat)) (h : Serialised block t) :
    descendVersion lower block keys t.head = (t.lookup lower keys).map head := by
  induction keys generalizing t with
  | nil =>
    rw [descendVersion, lookup]
    rfl
  | cons key keys ih =>
    have hscan := findChild_serialised lower key h.below
    have hlast : t.head.last = t.last := rfl
    rw [descendVersion, lookup, firstChild_head, hlast, hscan]
    cases hfound : t.children.find? fun c => lower c.key = key with
    | none => rfl
    | some c => exact ih (h.below.mem (List.mem_of_find?_eq_some hfound))

/-- The lookup of a path in a serialised tree. -/
theorem getVersionValue_serialised (lower : List Nat → List Nat) (subBlock : List Nat) (h : Serialised block t)
    (hroot : t.offset = 0) :
    getVersionValue lower block subBlock = (t.lookup lower (versionPath lower subBlock)).map fun n =>
      (n.valueOffset, n.value.length, n.value.isText) := by
  have hhead := getVersionNode_head h
  rw [hroot] at hhead
  rw [getVersionValue, hhead, Option.bind_some, descendVersion_serialised lower _ h, Option.map_map]
  rfl

theorem SerialisedAll.mem_last (h : SerialisedAll block before last cs) {c : VersionTree} (hc : c ∈ cs) : c.last ≤ last := by
  induction cs generalizing before with
  | nil => cases hc
  | cons d ds ih =>
    rw [SerialisedAll] at h
    rcases List.mem_cons.mp hc with rfl | hc
    · exact h.2.2.bounds.1
    · exact ih h.2.2 hc

/-- A path leads to a node that is in the block, and in the tree. -/
theorem lookup_serialised {lower : List Nat → List Nat} {keys : List (List Nat)} {n : VersionTree} (h : Serialised block t)
    (hn : t.lookup lower keys = some n) : Serialised block n ∧ n.last ≤ t.last := by
  induction keys generalizing t with
  | nil =>
    rw [lookup, Option.some.injEq] at hn
    rw [← hn]
    exact ⟨h, Nat.le_refl _⟩
  | cons key keys ih =>
    rw [lookup] at hn
    obtain ⟨c, hc, hn⟩ := Option.bind_eq_some_iff.mp hn
    have hmem := List.mem_of_find?_eq_some hc
    obtain ⟨hserial, hlast⟩ := ih (h.below.mem hmem) hn
    exact ⟨hserial, Nat.le_trans hlast (h.below.mem_last hmem)⟩

theorem BytesAt.take {o e : Nat} {bs : List UInt8} (h : BytesAt block o bs) (he : o + bs.length ≤ e) :
    BytesAt (block.take e) o bs := by
  obtain ⟨htake, hroom⟩ := h
  refine ⟨?_, ?_⟩
  · rw [List.drop_take, List.take_take, Nat.min_eq_left (by omega)]
    exact htake
  · rw [List.length_take]
    omega

mutual

/-- What follows the end of a node does not matter. -/
theorem Serialised.take {t : VersionTree} {e : Nat} (h : Serialised block t) (he : t.last ≤ e) :
    Serialised (block.take e) t := by
  match t, h, he with
  | node offset last key value children, h, he =>
    have hbounds := h.bounds
    have hfront := frontEnd_le_valueEnd (node offset last key value children)
    have hfrontEnd : (node offset last key value children).frontEnd = offset + 8 + 2 * (encodeUnits key).length := rfl
    have hlast : last ≤ e := he
    rw [Serialised] at h ⊢
    obtain ⟨⟨hheader, hvalue, hkey, hlength, hvalueLength⟩, hbelow⟩ := h
    refine ⟨⟨hheader.take ?_, fun hne => (hvalue hne).take ?_, hkey, hlength, hvalueLength⟩,
      SerialisedAll.take hbelow hlast⟩
    · simp only [List.length_append, toBytes_length, charBytes_length, List.length_singleton]
      show offset + (2 + (2 + (2 + ((encodeUnits key).length + 1) * 2))) ≤ e
      have hend : (node offset last key value children).last = last := rfl
      omega
    · have hend : (node offset last key value children).valueEnd =
          (node offset last key value children).valueOffset + value.bytes.length := if_neg hne
      have hlastEq : (node offset last key value children).last = last := rfl
      show (node offset last key value children).valueOffset + value.bytes.length ≤ e
      omega

theorem SerialisedAll.take {before last e : Nat} {cs : List VersionTree} (h : SerialisedAll block before last cs)
    (he : last ≤ e) : SerialisedAll (block.take e) before last cs := by
  match cs, h with
  | [], h =>
    rw [SerialisedAll] at h ⊢
    rw [List.length_take]
    exact ⟨h.1, h.2.1, by omega⟩
  | c :: cs, h =>
    rw [SerialisedAll] at h ⊢
    have hafter := h.2.2.bounds.1
    exact ⟨h.1, Serialised.take h.2.1 (by omega), SerialisedAll.take h.2.2 he⟩

end

end Layout

end VersionTree

end Speakeasy
