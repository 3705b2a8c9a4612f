import Speakeasy.EnumServices
import Mathlib.Algebra.BigOperators.Group.List.Basic

namespace Speakeasy

open PageEngine MemoryManager

namespace Service

variable {arch : Arch} {wide : Bool}

theorem entrySize_le (arch : Arch) : 2 * arch.ptrSize + 28 ≤ entrySize arch := by
  cases arch with
  | x86 => decide
  | amd64 => decide

theorem entryBytes_length (s : Service) (name display : Nat) :
    (entryBytes arch s name display).length = entrySize arch := by
  have hle := entrySize_le arch
  simp only [entryBytes, List.length_append, toBytes_length, List.length_replicate, List.length_flatMap,
    List.map_cons, List.map_nil, List.sum_cons, List.sum_nil]
  omega

/-- The loop stops at the longest prefix that fits. -/
theorem fitCount_spec {limit : Nat} {sizes : List Nat} (fuel count : Nat)
    (hfuel : sizes.length ≤ count + fuel) (hcount : count ≤ sizes.length)
    (hfits : (sizes.take count).sum ≤ limit) :
    fitCount limit sizes fuel count ≤ sizes.length ∧
      (sizes.take (fitCount limit sizes fuel count)).sum ≤ limit ∧
      (fitCount limit sizes fuel count < sizes.length →
        limit < (sizes.take (fitCount limit sizes fuel count + 1)).sum) := by
  induction fuel generalizing count with
  | zero => exact ⟨hcount, hfits, fun hlt => absurd hlt (by unfold fitCount; omega)⟩
  | succ fuel ih =>
    rw [fitCount]
    split
    next h => exact ih (count + 1) (by omega) h.1 h.2
    next h => exact ⟨hcount, hfits, fun hlt => by omega⟩

/-- The bytes of the texts of services. -/
def textSize (wide : Bool) (services : List Service) : Nat :=
  (services.map fun s => (encode wide s.name).length + (encode wide s.display).length).sum

theorem sum_size (services : List Service) :
    (services.map (size arch wide)).sum = services.length * entrySize arch + textSize wide services := by
  induction services with
  | nil => simp [textSize]
  | cons s services ih =>
    unfold textSize at ih ⊢
    rw [List.map_cons, List.sum_cons, ih, List.map_cons, List.sum_cons, List.length_cons, Nat.succ_mul, size]
    omega

/-- The writes for the entries and the texts of a page. -/
def pageWrites (arch : Arch) (wide : Bool) (lpServices : Nat) : List Service → Nat → Nat → List (Nat × List UInt8)
  | [], _, _ => []
  | s :: services, index, strings =>
    (strings, encode wide s.name) :: (strings + (encode wide s.name).length, encode wide s.display) ::
      (lpServices + index * entrySize arch,
        entryBytes arch s strings (strings + (encode wide s.name).length)) ::
      pageWrites arch wide lpServices services (index + 1)
        (strings + (encode wide s.name).length + (encode wide s.display).length)

variable {lpServices : Nat}

/-- Every write of a page is in the entries or in the texts. -/
theorem pageWrites_range (services : List Service) (index strings : Nat) :
    ∀ w ∈ pageWrites arch wide lpServices services index strings,
      (lpServices + index * entrySize arch ≤ w.1 ∧
        w.1 + w.2.length ≤ lpServices + (index + services.length) * entrySize arch) ∨
      (strings ≤ w.1 ∧ w.1 + w.2.length ≤ strings + textSize wide services) := by
  induction services generalizing index strings with
  | nil => simp [pageWrites]
  | cons s services ih =>
    intro w hw
    have htext : textSize wide (s :: services) =
        (encode wide s.name).length + (encode wide s.display).length + textSize wide services := by
      simp [textSize]
    have hentries : (index + (s :: services).length) * entrySize arch =
        index * entrySize arch + entrySize arch + services.length * entrySize arch := by
      rw [List.length_cons]
      ring
    have hnext : (index + 1 + services.length) * entrySize arch =
        index * entrySize arch + entrySize arch + services.length * entrySize arch := by ring
    have hsucc : (index + 1) * entrySize arch = index * entrySize arch + entrySize arch := by ring
    rw [pageWrites, List.mem_cons, List.mem_cons, List.mem_cons] at hw
    rw [htext, hentries]
    rcases hw with rfl | rfl | rfl | hw
    · right
      constructor
      · exact Nat.le_refl _
      · dsimp only
        omega
    · right
      constructor
      · exact Nat.le_add_right ..
      · dsimp only
        omega
    · left
      rw [entryBytes_length]
      constructor
      · exact Nat.le_refl _
      · omega
    · have hrange := ih (index + 1) _ w hw
      rw [hnext, hsucc] at hrange
      omega

/-- The writes of a page do not overlap when the texts are behind the entries. -/
theorem pageWrites_pairwise (services : List Service) (index strings : Nat)
    (hbehind : lpServices + (index + services.length) * entrySize arch ≤ strings) :
    (pageWrites arch wide lpServices services index strings).Pairwise
      fun v w => v.1 + v.2.length ≤ w.1 ∨ w.1 + w.2.length ≤ v.1 := by
  induction services generalizing index strings with
  | nil => exact List.Pairwise.nil
  | cons s services ih =>
    have hnext : (index + (s :: services).length) * entrySize arch =
        (index + 1 + services.length) * entrySize arch := by
      rw [List.length_cons]
      ring
    have hsucc : (index + 1) * entrySize arch = index * entrySize arch + entrySize arch := by ring
    have hmono : (index + 1) * entrySize arch ≤ (index + 1 + services.length) * entrySize arch :=
      Nat.mul_le_mul_right _ (Nat.le_add_right ..)
    rw [hnext] at hbehind
    have hrange := @pageWrites_range arch wide lpServices services (index + 1)
      (strings + (encode wide s.name).length + (encode wide s.display).length)
    have hlength : (entryBytes arch s strings (strings + (encode wide s.name).length)).length = _ :=
      entryBytes_length ..
    rw [pageWrites, List.pairwise_cons, List.pairwise_cons, List.pairwise_cons]
    simp only [List.mem_cons]
    refine ⟨?_, ?_, ?_, ih _ _ (by omega)⟩
    · rintro w (rfl | rfl | hw)
      · exact Or.inl (Nat.le_refl _)
      · right
        rw [hlength]
        omega
      · have := hrange w hw
        omega
    · rintro w (rfl | hw)
      · right
        rw [hlength]
        omega
      · have := hrange w hw
        omega
    · intro w hw
      rw [hlength]
      have := hrange w hw
      omega

/-- The writes of one service of a page. -/
theorem pageWrites_get {services : List Service} {k : Nat} {s : Service} (hk : services[k]? = some s)
    (index strings : Nat) :
    ∃ name, strings ≤ name ∧
      name + (encode wide s.name).length + (encode wide s.display).length ≤ strings + textSize wide services ∧
      (name, encode wide s.name) ∈ pageWrites arch wide lpServices services index strings ∧
      (name + (encode wide s.name).length, encode wide s.display) ∈
        pageWrites arch wide lpServices services index strings ∧
      (lpServices + (index + k) * entrySize arch,
        entryBytes arch s name (name + (encode wide s.name).length)) ∈
        pageWrites arch wide lpServices services index strings := by
  induction services generalizing k index strings with
  | nil => simp at hk
  | cons r services ih =>
    have htext : textSize wide (r :: services) =
        (encode wide r.name).length + (encode wide r.display).length + textSize wide services := by
      simp [textSize]
    cases k with
    | zero =>
      cases Option.some.inj hk
      refine ⟨strings, Nat.le_refl _, by omega, List.mem_cons_self, ?_, ?_⟩
      · exact List.mem_cons_of_mem _ List.mem_cons_self
      · exact List.mem_cons_of_mem _ (List.mem_cons_of_mem _ List.mem_cons_self)
    | succ k =>
      rw [List.getElem?_cons_succ] at hk
      obtain ⟨name, hle, hend, hname, hdisplay, hentry⟩ := ih hk (index + 1)
        (strings + (encode wide r.name).length + (encode wide r.display).length)
      have htail : ∀ w, w ∈ pageWrites arch wide lpServices services (index + 1)
          (strings + (encode wide r.name).length + (encode wide r.display).length) →
          w ∈ pageWrites arch wide lpServices (r :: services) index strings := fun w hw =>
        List.mem_cons_of_mem _ (List.mem_cons_of_mem _ (List.mem_cons_of_mem _ hw))
      rw [show index + 1 + k = index + (k + 1) by omega] at hentry
      exact ⟨name, by omega, by omega, htail _ hname, htail _ hdisplay, htail _ hentry⟩

theorem size_pos (arch : Arch) (wide : Bool) (s : Service) : 0 < size arch wide s := by
  have hle := entrySize_le arch
  rw [size]
  omega

/-- The parts of an entry. -/
theorem entryBytes_name (s : Service) (name display : Nat) :
    (entryBytes arch s name display).take arch.ptrSize = toBytes arch.ptrSize name := by
  unfold entryBytes
  rw [List.append_assoc, List.append_assoc, List.take_left' (toBytes_length _ _)]

theorem entryBytes_display (s : Service) (name display : Nat) :
    ((entryBytes arch s name display).drop arch.ptrSize).take arch.ptrSize =
      toBytes arch.ptrSize display := by
  unfold entryBytes
  rw [List.append_assoc, List.append_assoc, List.drop_left' (toBytes_length _ _),
    List.take_left' (toBytes_length _ _)]

theorem statusBytes_length (s : Service) :
    ([s.serviceType.toNat, s.state.toNat, s.accepted, 0, 0, 0, 0].flatMap (toBytes 4)).length = 28 := by
  simp

theorem entryBytes_status (s : Service) (name display : Nat) :
    ((entryBytes arch s name display).drop (2 * arch.ptrSize)).take 28 =
      [s.serviceType.toNat, s.state.toNat, s.accepted, 0, 0, 0, 0].flatMap (toBytes 4) := by
  have hptrs : (toBytes arch.ptrSize name ++ toBytes arch.ptrSize display).length = 2 * arch.ptrSize := by
    rw [List.length_append, toBytes_length, toBytes_length]
    omega
  unfold entryBytes
  rw [List.append_assoc, List.drop_left' hptrs, List.take_left' s.statusBytes_length]

section Writes

variable {ε : Type} [PageEngine ε]

theorem store_ok {g : GuestMemory ε} {a : Nat} {data : List UInt8} (h : g.RangeMapped a data.length) :
    store g a data = .ok ⟨g.mgr, g.bytes.writeBytes a data⟩ := by
  have hwrite : g.memWrite a data = .ok ⟨g.mgr, g.bytes.writeBytes a data⟩ := if_pos h
  rw [store, hwrite]
  rfl

theorem part_mapped {g : GuestMemory ε} {b n a k : Nat} (h : g.RangeMapped b n) (hle : b ≤ a)
    (hend : a + k ≤ b + n) : g.RangeMapped a k := by
  intro i hi
  have hmapped := h (a - b + i) (by omega)
  rwa [show b + (a - b + i) = a + i by omega] at hmapped

theorem utf16le_eq (text : PyStr) : utf16le (text ++ ['\x00']) = charBytes 2 (encodeUnits (text.map Char.toNat ++ [0])) := by
  have hmap : (text ++ ['\x00']).map Char.toNat = text.map Char.toNat ++ [0] := List.map_append
  rw [← hmap, encodeUnits, List.flatMap_map, charBytes, List.flatMap_assoc]
  apply List.flatMap_congr
  intro c _
  unfold encodeChar
  split
  next => exact (List.append_nil _).symm
  next => exact congrArg _ (List.append_nil _).symm

theorem length_encode (text : PyStr) : (encode wide text).length = nameSize wide text := by
  unfold encode nameSize
  split
  next => rw [utf16le_eq, ByteMemory.textSize_eq]
  next => rw [CodePage.encodeAnsi, List.length_map, List.length_map, List.length_append, List.length_singleton]

theorem isAnsiByte_encode (c : Nat) : encodeAnsiChar c < 0x100 ∧ IsAnsiByte c (encodeAnsiChar c) := by
  unfold encodeAnsiChar
  split
  next hself => exact ⟨by omega, Or.inl (if_neg (by omega))⟩
  next hother =>
    split
    next i hidx =>
      obtain ⟨hlt, hget, -⟩ := List.idxOf?_eq_some_iff.mp hidx
      have hlen : ansiBlock.length = 32 := rfl
      refine ⟨by omega, Or.inl ?_⟩
      rw [decodeAnsiChar, if_pos (by omega), Nat.add_sub_cancel_left, List.getD_eq_getElem _ _ hlt, hget]
    next hnone =>
      refine ⟨by decide, Or.inr ⟨rfl, ?_⟩⟩
      intro x hx hdec
      unfold decodeAnsiChar at hdec
      split at hdec
      next hblock =>
        have hlt : x - 0x80 < ansiBlock.length := by
          rw [show ansiBlock.length = 32 from rfl]
          omega
        rw [List.getD_eq_getElem _ _ hlt] at hdec
        exact List.idxOf?_eq_none_iff.mp hnone (hdec ▸ List.getElem_mem hlt)
      next => omega

theorem readInt_encodeAnsi {m : ByteMemory} {a : Nat} {cs : List Nat} (h : m.Holds a (CodePage.encodeAnsi cs)) (i c : Nat)
    (hc : cs[i]? = some c) : m.readInt (a + i) 1 = encodeAnsiChar c := by
  induction cs generalizing a i with
  | nil => cases hc
  | cons d cs ih =>
    have hcons : m.Holds a ([UInt8.ofNat (encodeAnsiChar d)] ++ CodePage.encodeAnsi cs) := h
    obtain ⟨hfirst, hrest⟩ := hcons.of_append
    cases i with
    | zero =>
      rw [List.getElem?_cons_zero, Option.some.injEq] at hc
      subst hc
      have hbyte : m.Holds a (toBytes 1 (encodeAnsiChar d)) := by
        have hone : toBytes 1 (encodeAnsiChar d) = [UInt8.ofNat (encodeAnsiChar d)] := by
          simp [toBytes]
        rw [hone]
        exact hfirst
      rw [Nat.add_zero, hbyte.readInt_eq]
      exact Nat.mod_eq_of_lt (isAnsiByte_encode d).1
    | succ i =>
      have hnext := ih hrest i hc
      rwa [List.length_singleton, Nat.add_assoc, Nat.add_comm 1 i] at hnext

/-- What is written for a text is the text, with its NUL. -/
theorem nameAt_of_holds {m : ByteMemory} {a : Nat} {text : PyStr} (h : m.Holds a (encode wide text)) :
    NameAt wide m a text := by
  unfold encode at h
  unfold NameAt
  split
  next hwide =>
    rw [if_pos hwide, utf16le_eq] at h
    exact ByteMemory.holdsText_of_holds (fun _ => ByteMemory.toNat_lt_of_mem) h
  next hwide =>
    rw [if_neg hwide] at h
    have hread := readInt_encodeAnsi h
    constructor
    · intro i c hc
      have hi := (List.getElem?_eq_some_iff.mp hc).1
      rw [hread i c.toNat (by rw [List.getElem?_map, List.getElem?_append_left hi, hc]; rfl)]
      exact (isAnsiByte_encode _).2
    · rw [hread text.length 0 (by rw [List.getElem?_map, List.getElem?_concat_length]; rfl)]
      rfl

theorem encode_pos (text : PyStr) : 0 < (encode wide text).length := by
  unfold encode
  split
  next =>
    unfold utf16le
    rw [List.flatMap_append, List.length_append]
    exact Nat.lt_of_lt_of_le (by decide : 0 < (List.flatMap (fun c => if c.toNat < 0x10000 then
      toBytes 2 c.toNat else toBytes 2 (0xD800 + (c.toNat - 0x10000) / 0x400) ++
        toBytes 2 (0xDC00 + (c.toNat - 0x10000) % 0x400)) ['\x00']).length) (Nat.le_add_left ..)
  next =>
    rw [CodePage.encodeAnsi, List.length_map, List.length_map, List.length_append]
    exact Nat.succ_pos _

theorem writeText_ok {g : GuestMemory ε} {strings : Nat} {text : PyStr}
    (h : g.RangeMapped strings (encode wide text).length)
    (hlt : strings + (encode wide text).length ≤ 256 ^ arch.ptrSize) :
    writeText arch wide g strings text =
      .ok (⟨g.mgr, g.bytes.writeBytes strings (encode wide text)⟩, strings + (encode wide text).length) := by
  have hpos : 0 < (encode wide text).length := encode_pos text
  rw [writeText, store_ok h]
  exact if_neg (by omega)

/-- A page is written when its texts end in the buffer. -/
theorem writeServices_ok {limit : Nat} (services : List Service) (index strings : Nat) {g : GuestMemory ε}
    (hmapped : g.RangeMapped lpServices limit) (hspace : lpServices + limit ≤ 256 ^ arch.ptrSize)
    (hbehind : lpServices + (index + services.length) * entrySize arch ≤ strings)
    (hend : strings + textSize wide services ≤ lpServices + limit) :
    writeServices arch wide lpServices services index strings g =
      .ok ⟨g.mgr, g.bytes.writeAll (pageWrites arch wide lpServices services index strings)⟩ := by
  induction services generalizing index strings g with
  | nil => rfl
  | cons s services ih =>
    have htext : textSize wide (s :: services) =
        (encode wide s.name).length + (encode wide s.display).length + textSize wide services := by
      simp [textSize]
    have hnext : (index + (s :: services).length) * entrySize arch =
        (index + 1 + services.length) * entrySize arch := by
      rw [List.length_cons]
      ring
    have hsucc : (index + 1) * entrySize arch = index * entrySize arch + entrySize arch := by ring
    have hmono : (index + 1) * entrySize arch ≤ (index + 1 + services.length) * entrySize arch :=
      Nat.mul_le_mul_right _ (Nat.le_add_right ..)
    rw [hnext] at hbehind
    have hname : writeText arch wide g strings s.name = _ :=
      writeText_ok (part_mapped hmapped (by omega) (by omega)) (by omega)
    have hdisplay : writeText arch wide ⟨g.mgr, g.bytes.writeBytes strings (encode wide s.name)⟩
        (strings + (encode wide s.name).length) s.display = _ :=
      writeText_ok (part_mapped (g := g) hmapped (by omega) (by omega)) (by omega)
    have hlength : (entryBytes arch s strings (strings + (encode wide s.name).length)).length = _ :=
      entryBytes_length ..
    have hentry : store ⟨g.mgr, (g.bytes.writeBytes strings (encode wide s.name)).writeBytes
          (strings + (encode wide s.name).length) (encode wide s.display)⟩
        (lpServices + index * entrySize arch)
        (entryBytes arch s strings (strings + (encode wide s.name).length)) = _ :=
      store_ok (part_mapped (g := g) hmapped (by omega) (by rw [hlength]; omega))
    rw [writeServices]
    simp only [bind, Except.bind, hname, hdisplay, hentry]
    exact ih (index + 1) _ hmapped (by omega) (by omega)

theorem writeOut_ok {g : GuestMemory ε} {p : Nat} (value : Nat) (hp : p ≠ 0) (h : g.RangeMapped p 4) :
    writeOut g p value = .ok ⟨g.mgr, g.bytes.writeBytes p (toBytes 4 (value % 2 ^ 32))⟩ := by
  rw [writeOut, if_pos hp]
  exact store_ok (by rwa [toBytes_length])

end Writes

end Service

namespace Paging

open Service

variable {ε : Type} [PageEngine ε] {arch : Arch} {wide : Bool} {services : List Service}
  {dwServiceType dwServiceState : Nat} {g : GuestMemory ε} {a : EnumArgs}

/-- How many of the remaining services a call delivers. -/
def pageCount (arch : Arch) (wide : Bool) (a : EnumArgs) (rest : List Service) : Nat :=
  fitCount a.cbBufSize (rest.map (size arch wide)) (rest.map (size arch wide)).length 0

/-- The bytes that a call asks for. -/
def pageNeeded (arch : Arch) (wide : Bool) (a : EnumArgs) (rest : List Service) : Nat :=
  ((rest.map (size arch wide)).drop (pageCount arch wide a rest)).sum

/-- All writes of a call. -/
def callWrites (arch : Arch) (wide : Bool) (a : EnumArgs) (start : Nat) (rest : List Service) :
    List (Nat × List UInt8) :=
  let count := pageCount arch wide a rest
  let needed := pageNeeded arch wide a rest
  pageWrites arch wide a.lpServices (rest.take count) 0 (a.lpServices + count * entrySize arch) ++
    [(a.pcbBytesNeeded, toBytes 4 (needed % 2 ^ 32)), (a.lpServicesReturned, toBytes 4 (count % 2 ^ 32)),
      (a.lpResumeHandle, toBytes 4 ((if needed ≠ 0 then start + count else 0) % 2 ^ 32))]

theorem pageCount_spec (a : EnumArgs) (rest : List Service) :
    pageCount arch wide a rest ≤ rest.length ∧
    pageCount arch wide a rest * entrySize arch + textSize wide (rest.take (pageCount arch wide a rest)) ≤
      a.cbBufSize ∧
    (pageCount arch wide a rest < rest.length →
      a.cbBufSize < ((rest.take (pageCount arch wide a rest + 1)).map (size arch wide)).sum) := by
  obtain ⟨hle, hfits, hmore⟩ := @fitCount_spec a.cbBufSize (rest.map (size arch wide))
    (rest.map (size arch wide)).length 0 (by omega) (Nat.zero_le _) (Nat.zero_le _)
  rw [List.length_map] at hle hfits hmore
  have hcount : (rest.take (pageCount arch wide a rest)).length = pageCount arch wide a rest := by
    rw [List.length_take]
    exact Nat.min_eq_left (by rw [pageCount, List.length_map]; exact hle)
  refine ⟨?_, ?_, ?_⟩
  · rw [pageCount, List.length_map]
    exact hle
  · rw [← List.map_take, sum_size] at hfits
    rw [pageCount, List.length_map] at hcount ⊢
    rwa [hcount] at hfits
  · rw [pageCount, List.length_map]
    rwa [← List.map_take] at hmore

/-- The services of a list are those of the page and those behind it. -/
theorem sum_page (a : EnumArgs) (rest : List Service) :
    ((rest.take (pageCount arch wide a rest)).map (size arch wide)).sum + pageNeeded arch wide a rest =
      (rest.map (size arch wide)).sum := by
  rw [pageNeeded, List.map_take]
  exact List.sum_take_add_sum_drop ..

/-- All services fit when the buffer has their bytes. -/
theorem pageCount_all {rest : List Service} (h : (rest.map (size arch wide)).sum ≤ a.cbBufSize) :
    pageCount arch wide a rest = rest.length := by
  obtain ⟨hle, _, hmore⟩ := @pageCount_spec arch wide a rest
  by_contra hne
  have hlt := hmore (by omega)
  have hsum := List.sum_take_add_sum_drop (rest.map (size arch wide)) (pageCount arch wide a rest + 1)
  rw [← List.map_take] at hsum
  omega

theorem pageNeeded_eq_zero {rest : List Service} :
    pageNeeded arch wide a rest = 0 ↔ pageCount arch wide a rest = rest.length := by
  constructor
  · intro h
    have hle := (@pageCount_spec arch wide a rest).1
    by_contra hne
    have hlt : pageCount arch wide a rest < (rest.map (size arch wide)).length := by
      rw [List.length_map]
      omega
    rw [pageNeeded, List.drop_eq_getElem_cons hlt, List.sum_cons, List.getElem_map] at h
    exact Nat.ne_of_gt (Nat.add_pos_left (size_pos ..) _) h
  · intro h
    rw [pageNeeded, List.drop_eq_nil_of_le (by rw [List.length_map]; omega)]
    rfl

/-- A call on mapped memory writes its page and its three dwords. -/
theorem enumServicesStatus_ok (h : CallMapped arch g a) :
    enumServicesStatus arch wide services dwServiceType dwServiceState g a =
      .ok (if pageNeeded arch wide a ((matching services dwServiceType dwServiceState).drop
          (g.bytes.readInt a.lpResumeHandle 4)) ≠ 0 then ⟨0, some errorMoreData⟩ else ⟨1, none⟩,
        ⟨g.mgr, g.bytes.writeAll (callWrites arch wide a (g.bytes.readInt a.lpResumeHandle 4)
          ((matching services dwServiceType dwServiceState).drop (g.bytes.readInt a.lpResumeHandle 4)))⟩) := by
  generalize hstart : g.bytes.readInt a.lpResumeHandle 4 = start
  generalize hrest : (matching services dwServiceType dwServiceState).drop start = rest
  have houts := h.outs
  simp only [List.mem_cons, List.not_mem_nil, or_false, forall_eq_or_imp, forall_eq] at houts
  obtain ⟨⟨hneeded, hneededm, _⟩, ⟨hreturned, hreturnedm, _⟩, ⟨hresume, hresumem, _⟩⟩ := houts
  obtain ⟨hle, hfits, _⟩ := @pageCount_spec arch wide a rest
  have hlength : (rest.take (pageCount arch wide a rest)).length = pageCount arch wide a rest := by
    rw [List.length_take]
    omega
  have hread : ((g.memRead a.lpResumeHandle 4).map fromBytes).mapError EnumFault.mem = .ok start := by
    rw [GuestMemory.memRead, if_pos hresumem, ← hstart]
    rfl
  have hpage := @writeServices_ok arch wide a.lpServices ε _ a.cbBufSize
    (rest.take (pageCount arch wide a rest)) 0
    (a.lpServices + pageCount arch wide a rest * entrySize arch) g h.buffer h.inSpace
    (by rw [hlength, Nat.zero_add]) (by omega)
  have hwrites : ∀ m : ByteMemory, m.writeAll (callWrites arch wide a start rest) =
      (((m.writeAll (pageWrites arch wide a.lpServices (rest.take (pageCount arch wide a rest)) 0
        (a.lpServices + pageCount arch wide a rest * entrySize arch))).writeBytes a.pcbBytesNeeded
          (toBytes 4 (pageNeeded arch wide a rest % 2 ^ 32))).writeBytes a.lpServicesReturned
          (toBytes 4 (pageCount arch wide a rest % 2 ^ 32))).writeBytes a.lpResumeHandle
          (toBytes 4 ((if pageNeeded arch wide a rest ≠ 0 then start + pageCount arch wide a rest else 0) %
            2 ^ 32)) := fun m => ByteMemory.writeAll_append ..
  rw [hwrites, enumServicesStatus, if_pos hresume, hread]
  simp only [bind, Except.bind, hrest]
  unfold pageCount at hpage
  rw [hpage]
  have hstore1 := writeOut_ok (g := ⟨g.mgr, g.bytes.writeAll (pageWrites arch wide a.lpServices
    (rest.take (pageCount arch wide a rest)) 0 (a.lpServices + pageCount arch wide a rest * entrySize arch))⟩)
    (pageNeeded arch wide a rest) hneeded hneededm
  have hstore2 := writeOut_ok (g := ⟨g.mgr, (g.bytes.writeAll (pageWrites arch wide a.lpServices
    (rest.take (pageCount arch wide a rest)) 0
    (a.lpServices + pageCount arch wide a rest * entrySize arch))).writeBytes a.pcbBytesNeeded
      (toBytes 4 (pageNeeded arch wide a rest % 2 ^ 32))⟩) (pageCount arch wide a rest) hreturned hreturnedm
  have hstore3 := writeOut_ok (g := ⟨g.mgr, ((g.bytes.writeAll (pageWrites arch wide a.lpServices
    (rest.take (pageCount arch wide a rest)) 0
    (a.lpServices + pageCount arch wide a rest * entrySize arch))).writeBytes a.pcbBytesNeeded
      (toBytes 4 (pageNeeded arch wide a rest % 2 ^ 32))).writeBytes a.lpServicesReturned
      (toBytes 4 (pageCount arch wide a rest % 2 ^ 32))⟩)
    (if pageNeeded arch wide a rest ≠ 0 then start + pageCount arch wide a rest else 0) hresume hresumem
  unfold pageNeeded pageCount at hstore1 hstore2 hstore3
  simp only [hstore1, hstore2, hstore3]
  rfl

variable {start : Nat} {rest : List Service}

/-- The page of a call is in its buffer. -/
theorem pageWrites_inside (a : EnumArgs) (rest : List Service) :
    ∀ w ∈ pageWrites arch wide a.lpServices (rest.take (pageCount arch wide a rest)) 0
        (a.lpServices + pageCount arch wide a rest * entrySize arch),
      a.lpServices ≤ w.1 ∧ w.1 + w.2.length ≤ a.lpServices + a.cbBufSize := by
  intro w hw
  obtain ⟨hle, hfits, _⟩ := @pageCount_spec arch wide a rest
  have hlength : (rest.take (pageCount arch wide a rest)).length = pageCount arch wide a rest := by
    rw [List.length_take]
    omega
  have hrange := @pageWrites_range arch wide a.lpServices _ _ _ w hw
  rw [hlength, Nat.zero_add] at hrange
  omega

theorem callWrites_pairwise (h : CallMapped arch g a) :
    (callWrites arch wide a start rest).Pairwise
      fun v w => v.1 + v.2.length ≤ w.1 ∨ w.1 + w.2.length ≤ v.1 := by
  obtain ⟨hle, hfits, _⟩ := @pageCount_spec arch wide a rest
  have hlength : (rest.take (pageCount arch wide a rest)).length = pageCount arch wide a rest := by
    rw [List.length_take]
    omega
  have houts := h.outs
  have hapart := h.apart
  simp only [List.mem_cons, List.not_mem_nil, or_false, forall_eq_or_imp, forall_eq] at houts
  simp only [List.pairwise_cons, List.mem_cons, List.not_mem_nil, or_false, forall_eq_or_imp, forall_eq,
    List.Pairwise.nil, and_true, false_imp_iff, implies_true] at hapart
  refine List.pairwise_append.mpr ⟨pageWrites_pairwise _ _ _ (by rw [hlength, Nat.zero_add]), ?_, ?_⟩
  · simp only [List.pairwise_cons, List.mem_cons, List.not_mem_nil, or_false, forall_eq_or_imp, forall_eq,
      List.Pairwise.nil, and_true, false_imp_iff, implies_true, toBytes_length]
    exact ⟨hapart.1, hapart.2⟩
  · intro v hv w hw
    have hinside := pageWrites_inside a rest v hv
    simp only [List.mem_cons, List.not_mem_nil, or_false] at hw
    rcases hw with rfl | rfl | rfl
    · rw [toBytes_length]
      omega
    · rw [toBytes_length]
      omega
    · rw [toBytes_length]
      omega

/-- A dword that a call writes is read back. -/
theorem readInt_callWrites (h : CallMapped arch g a) {p value : Nat}
    (hw : (p, toBytes 4 (value % 2 ^ 32)) ∈ callWrites arch wide a start rest) (m : ByteMemory) :
    (m.writeAll (callWrites arch wide a start rest)).readInt p 4 = value % 2 ^ 32 := by
  have hholds := ByteMemory.holds_writeAll (m := m) (callWrites_pairwise h) hw
  unfold ByteMemory.Holds at hholds
  rw [toBytes_length] at hholds
  rw [ByteMemory.readInt, hholds]
  exact fromBytes_toBytes_of_lt (by omega)

theorem callWrites_outside {x : Nat} (hx : ¬Writable a x) (m : ByteMemory) :
    m.writeAll (callWrites arch wide a start rest) x = m x := by
  apply ByteMemory.writeAll_outside
  intro w hw
  obtain ⟨hbuffer, hany⟩ := not_or.mp hx
  have houts : ∀ p ∈ [a.pcbBytesNeeded, a.lpServicesReturned, a.lpResumeHandle],
      ¬(p ≤ x ∧ x < p + 4) := fun p hp hin => hany ⟨p, hp, hin⟩
  rcases List.mem_append.mp hw with hw | hw
  · have hinside := pageWrites_inside a rest w hw
    omega
  · simp only [List.mem_cons, List.not_mem_nil, or_false, forall_eq_or_imp, forall_eq] at hw houts
    rcases hw with rfl | rfl | rfl
    · have hneeded := houts.1
      rw [toBytes_length]
      omega
    · have hreturned := houts.2.1
      rw [toBytes_length]
      omega
    · have hresume := houts.2.2
      rw [toBytes_length]
      omega

/-- The entries of a page hold the services. -/
theorem callWrites_entry (h : CallMapped arch g a) {k : Nat} {s : Service} (hk : rest[k]? = some s)
    (hlt : k < pageCount arch wide a rest) (m : ByteMemory) :
    EntryHolds arch wide (m.writeAll (callWrites arch wide a start rest)) a k s := by
  obtain ⟨hle, hfits, _⟩ := @pageCount_spec arch wide a rest
  have htake : (rest.take (pageCount arch wide a rest))[k]? = some s := by
    rw [List.getElem?_take_of_lt hlt]
    exact hk
  obtain ⟨name, hname, hend, hwname, hwdisplay, hwentry⟩ := @pageWrites_get arch wide a.lpServices _ _ _ htake 0
    (a.lpServices + pageCount arch wide a rest * entrySize arch)
  rw [Nat.zero_add] at hwentry
  have hpair := @callWrites_pairwise ε _ arch wide g a start rest h
  have hholds : ∀ w ∈ pageWrites arch wide a.lpServices (rest.take (pageCount arch wide a rest)) 0
      (a.lpServices + pageCount arch wide a rest * entrySize arch),
      (m.writeAll (callWrites arch wide a start rest)).Holds w.1 w.2 := fun w hw =>
    ByteMemory.holds_writeAll hpair (List.mem_append_left _ hw)
  have hentry := hholds _ hwentry
  have hentries : (k + 1) * entrySize arch ≤ pageCount arch wide a rest * entrySize arch :=
    Nat.mul_le_mul_right _ hlt
  have hptrs := entrySize_le arch
  have hposname : 0 < (encode wide s.name).length := encode_pos s.name
  have hposdisplay : 0 < (encode wide s.display).length := encode_pos s.display
  have hspace := h.inSpace
  have hnamesize := @length_encode wide s.name
  have hdisplaysize := @length_encode wide s.display
  refine ⟨by omega, ⟨name, name + (encode wide s.name).length, ?_, ?_, nameAt_of_holds (hholds _ hwname),
    nameAt_of_holds (hholds _ hwdisplay), by omega, by omega, by omega, by omega⟩, ?_⟩
  · have hread := @ByteMemory.Holds.part _ _ 0 arch.ptrSize _ hentry (by rw [entryBytes_length]; omega)
    rw [Nat.add_zero, List.drop_zero, entryBytes_name] at hread
    rw [ByteMemory.readInt, hread]
    exact fromBytes_toBytes_of_lt (by omega)
  · have hread := @ByteMemory.Holds.part _ _ arch.ptrSize arch.ptrSize _ hentry
      (by rw [entryBytes_length]; omega)
    rw [entryBytes_display] at hread
    rw [ByteMemory.readInt, hread]
    exact fromBytes_toBytes_of_lt (by omega)
  · have hread := @ByteMemory.Holds.part _ _ (2 * arch.ptrSize) 28 _ hentry
      (by rw [entryBytes_length]; omega)
    rw [entryBytes_status] at hread
    rw [ByteMemory.Holds, s.statusBytes_length]
    exact hread

section Runs

variable {t : Paging} {c : GuestMemory ε × EnumArgs}

/-- What an enumeration keeps until a call returns 1. -/
structure Inv (arch : Arch) (wide : Bool) (services : List Service) (dwServiceType dwServiceState : Nat)
    (t : Paging) : Prop where
  delivered : t.finished = false → t.delivered = (matching services dwServiceType dwServiceState).take t.handle
  handle : t.finished = false → t.handle ≤ (matching services dwServiceType dwServiceState).length
  needed : t.finished = false → ∀ n, t.needed = some n →
    n = (((matching services dwServiceType dwServiceState).drop t.handle).map (size arch wide)).sum

theorem length_le_sum_size (services : List Service) :
    services.length ≤ (services.map (size arch wide)).sum := by
  induction services with
  | nil => exact Nat.zero_le _
  | cons s services ih =>
    have hpos := size_pos arch wide s
    rw [List.map_cons, List.sum_cons, List.length_cons]
    omega

/-- The state after a call whose sizes are dwords. -/
theorem step_eq (h : CallMapped arch c.1 c.2)
    (hsmall : ((matching services dwServiceType dwServiceState).map (size arch wide)).sum < 2 ^ 32)
    (hresumes : c.1.bytes.readInt c.2.lpResumeHandle 4 = t.handle)
    (hhandle : t.handle ≤ (matching services dwServiceType dwServiceState).length)
    (hrest : (matching services dwServiceType dwServiceState).drop t.handle = rest) :
    ∃ reply g, enumServicesStatus arch wide services dwServiceType dwServiceState c.1 c.2 = .ok (reply, g) ∧
      g.bytes = c.1.bytes.writeAll (callWrites arch wide c.2 t.handle rest) ∧
      g.bytes.readInt c.2.lpServicesReturned 4 = pageCount arch wide c.2 rest ∧
      t.step arch wide services dwServiceType dwServiceState c =
        { handle := if pageNeeded arch wide c.2 rest ≠ 0 then t.handle + pageCount arch wide c.2 rest else 0
          delivered := t.delivered ++ rest.take (pageCount arch wide c.2 rest)
          needed := some (pageNeeded arch wide c.2 rest)
          finished := pageNeeded arch wide c.2 rest = 0 } := by
  have hcall := @enumServicesStatus_ok ε _ arch wide services dwServiceType dwServiceState c.1 c.2 h
  rw [hresumes, hrest] at hcall
  have hle := (@pageCount_spec arch wide c.2 rest).1
  have hlength : rest.length = (matching services dwServiceType dwServiceState).length - t.handle := by
    rw [← hrest, List.length_drop]
  have hsum : (rest.map (size arch wide)).sum ≤
      ((matching services dwServiceType dwServiceState).map (size arch wide)).sum := by
    have hsplit := List.sum_take_add_sum_drop
      ((matching services dwServiceType dwServiceState).map (size arch wide)) t.handle
    rw [← List.map_drop, hrest] at hsplit
    omega
  have hpage := @sum_page arch wide c.2 rest
  have hcount : (matching services dwServiceType dwServiceState).length ≤
      ((matching services dwServiceType dwServiceState).map (size arch wide)).sum := length_le_sum_size _
  have hneeded : (c.1.bytes.writeAll (callWrites arch wide c.2 t.handle rest)).readInt c.2.pcbBytesNeeded 4 =
      pageNeeded arch wide c.2 rest := by
    rw [readInt_callWrites h (List.mem_append_right _ List.mem_cons_self)]
    exact Nat.mod_eq_of_lt (by omega)
  have hreturned : (c.1.bytes.writeAll (callWrites arch wide c.2 t.handle rest)).readInt
      c.2.lpServicesReturned 4 = pageCount arch wide c.2 rest := by
    rw [readInt_callWrites h (List.mem_append_right _ (List.mem_cons_of_mem _ List.mem_cons_self))]
    exact Nat.mod_eq_of_lt (by omega)
  have hresume : (c.1.bytes.writeAll (callWrites arch wide c.2 t.handle rest)).readInt c.2.lpResumeHandle 4 =
      if pageNeeded arch wide c.2 rest ≠ 0 then t.handle + pageCount arch wide c.2 rest else 0 := by
    rw [readInt_callWrites h (List.mem_append_right _
      (List.mem_cons_of_mem _ (List.mem_cons_of_mem _ List.mem_cons_self)))]
    refine Nat.mod_eq_of_lt ?_
    split
    next => omega
    next => omega
  refine ⟨_, _, hcall, rfl, hreturned, ?_⟩
  rw [step, hcall]
  simp only [hneeded, hreturned, hresume, hrest]
  congr 1
  split
  next hne => simp [hne]
  next heq => simp [not_not.mp heq]

/-- One call of an enumeration. -/
theorem Inv.step_law (hi : Inv arch wide services dwServiceType dwServiceState t)
    (hsmall : ((matching services dwServiceType dwServiceState).map (size arch wide)).sum < 2 ^ 32)
    (h : Allowed arch t c) :
    PageLaw arch wide services dwServiceType dwServiceState t c ∧
      Inv arch wide services dwServiceType dwServiceState
        (t.step arch wide services dwServiceType dwServiceState c) := by
  have hdelivered := hi.delivered h.going
  have hhandle := hi.handle h.going
  have hneeded := hi.needed h.going
  generalize hrest : (matching services dwServiceType dwServiceState).drop t.handle = rest at hneeded
  obtain ⟨reply, g, hcall, hbytes, hreturned, hstep⟩ := step_eq h.mapped hsmall h.resumes hhandle hrest
  have hcount := (@pageCount_spec arch wide c.2 rest).1
  have hlength : rest.length = (matching services dwServiceType dwServiceState).length - t.handle := by
    rw [← hrest, List.length_drop]
  have hnext : t.delivered ++ rest.take (pageCount arch wide c.2 rest) =
      (matching services dwServiceType dwServiceState).take (t.handle + pageCount arch wide c.2 rest) := by
    rw [hdelivered, List.take_add, hrest]
  have hall : pageNeeded arch wide c.2 rest = 0 →
      t.delivered ++ rest.take (pageCount arch wide c.2 rest) =
        matching services dwServiceType dwServiceState := by
    intro hzero
    rw [hnext, pageNeeded_eq_zero.mp hzero]
    exact List.take_of_length_le (by omega)
  constructor
  · constructor
    · refine ⟨reply, g, hcall, ?_, ?_, ?_⟩
      · intro x hx
        rw [hbytes]
        exact callWrites_outside hx _
      · rw [hreturned, hrest]
        exact hcount
      · intro i s hlt hget
        rw [hreturned] at hlt
        rw [hrest] at hget
        rw [hbytes]
        exact callWrites_entry h.mapped hget hlt _
    · rw [hstep, hnext]
      exact List.take_prefix ..
    · intro hfinished
      rw [hstep] at hfinished ⊢
      have hzero := of_decide_eq_true hfinished
      exact ⟨hall hzero, if_neg (not_not.mpr hzero)⟩
    · intro n hn hle
      rw [hneeded n hn] at hle
      rw [hstep]
      exact decide_eq_true (pageNeeded_eq_zero.mpr (pageCount_all hle))
  · rw [hstep]
    constructor
    · intro hgoing
      have hne := of_decide_eq_false hgoing
      simp only [if_pos hne]
      exact hnext
    · intro hgoing
      have hne := of_decide_eq_false hgoing
      simp only [if_pos hne]
      omega
    · intro hgoing n hn
      have hne := of_decide_eq_false hgoing
      cases hn
      simp only [if_pos hne]
      rw [pageNeeded, ← List.drop_drop, hrest, List.map_drop]

/-- Every enumeration keeps the law of its calls. -/
theorem run_enumServicesStatus (arch : Arch) (wide : Bool) (services : List Service)
    (dwServiceType dwServiceState : Nat)
    (hsmall : ((matching services dwServiceType dwServiceState).map (size arch wide)).sum < 2 ^ 32)
    (calls : List (GuestMemory ε × EnumArgs))
    (hcalls : FoldRuns.EachStep (step arch wide services dwServiceType dwServiceState) (Allowed arch) fresh calls) :
    FoldRuns.EachStep (step arch wide services dwServiceType dwServiceState)
      (PageLaw arch wide services dwServiceType dwServiceState) fresh calls := by
  have hfresh : Inv arch wide services dwServiceType dwServiceState fresh := by
    refine ⟨fun _ => rfl, fun _ => Nat.zero_le _, ?_⟩
    intro _ n hn
    cases hn
  exact FoldRuns.eachStep_of_inv (fun _ _ hi hc => hi.step_law hsmall hc) hfresh hcalls

end Runs

/-- A page with the dwords of a call, of which the third is the resume handle. -/
def enumGuest (handle : Nat) : GuestMemory RegionEngine :=
  ⟨(memMap DriverState.driverEnv (MemoryManager.init emptyEngine) { size := 0x1000 }).2,
    ByteMemory.writeBytes (fun _ => 0) 0x10008 (toBytes 4 handle)⟩

def enumArgs (cbBufSize : Nat) : EnumArgs := ⟨0x10100, cbBufSize, 0x10000, 0x10004, 0x10008⟩

theorem page_enumGuest (handle : Nat) : (enumGuest handle).RangeMapped 0x10000 0x1000 := by
  have hpage : DriverState.Allocated (enumGuest 0).mgr 0x10000 0x1000 := by
    unfold DriverState.Allocated
    decide
  exact hpage.rangeMapped (g := enumGuest handle) (memMap_inv (inv_init emptyEngine) _)

theorem callMapped_enumGuest {handle cbBufSize : Nat} (h : cbBufSize ≤ 0xF00) :
    CallMapped .x86 (enumGuest handle) (enumArgs cbBufSize) where
  buffer := part_mapped (page_enumGuest handle) (by simp [enumArgs]) (by simp only [enumArgs]; omega)
  inSpace := by
    have hend : 0x10100 + cbBufSize ≤ 0x11000 := by omega
    exact Nat.le_trans hend (by decide)
  outs := by
    simp only [enumArgs, List.mem_cons, List.not_mem_nil, or_false, forall_eq_or_imp, forall_eq]
    have hpart : ∀ p, 0x10000 ≤ p → p + 4 ≤ 0x11000 → (enumGuest handle).RangeMapped p 4 :=
      fun p hle hend => part_mapped (page_enumGuest handle) hle hend
    refine ⟨⟨by decide, hpart _ (by decide) (by decide), Or.inl (by decide)⟩,
      ⟨by decide, hpart _ (by decide) (by decide), Or.inl (by decide)⟩,
      ⟨by decide, hpart _ (by decide) (by decide), Or.inl (by decide)⟩⟩
  apart := by simp [enumArgs]

theorem run_enumServicesStatus_emulated :
    FoldRuns.EachStep (step .x86 false emulatedServices 0x30 3)
      (PageLaw .x86 false emulatedServices 0x30 3) fresh
      [(enumGuest 0, enumArgs 200), (enumGuest 3, enumArgs 598)] := by
  refine run_enumServicesStatus .x86 false emulatedServices 0x30 3 (by decide) _ ?_
  simp only [FoldRuns.eachStep_cons, FoldRuns.eachStep_nil, and_true]
  exact ⟨⟨callMapped_enumGuest (by decide), by decide, rfl⟩,
    ⟨callMapped_enumGuest (by decide), by decide, by decide⟩⟩

/-- A call with no buffer returns the handle 0 and delivers nothing. -/
theorem enumServicesStatus_noBuffer :
    Allowed .x86 fresh (enumGuest 0, enumArgs 0) ∧
      ¬FoldRuns.EachStep (step .x86 false emulatedServices 0x30 3)
        (HandleLaw .x86 false emulatedServices 0x30 3) fresh [(enumGuest 0, enumArgs 0)] := by
  refine ⟨⟨callMapped_enumGuest (by decide), by decide, rfl⟩, fun h => ?_⟩
  have hlaw := (FoldRuns.eachStep_cons.mp h).1 (by decide)
  revert hlaw
  decide

end Paging

end Speakeasy
