import Speakeasy.WideStringLaw

namespace Speakeasy

open ByteMemory

theorem order_eq_iff {p q p' q' : Prop} [Decidable p] [Decidable q] [Decidable p'] [Decidable q']
    (hpq : p → ¬q) (hpq' : p' → ¬q') :
    ((if q then 1 else 0) - (if p then 1 else 0) : Int) = (if q' then 1 else 0) - (if p' then 1 else 0) ↔
      (p ↔ p') ∧ (q ↔ q') := by
  by_cases hp : p
  · by_cases hp' : p'
    · simp [hp, hp', hpq hp, hpq' hp']
    · by_cases hq' : q'
      · simp [hp, hp', hpq hp, hq']
      · simp [hp, hp', hpq hp, hq']
  · by_cases hp' : p'
    · by_cases hq : q
      · simp [hp, hp', hq, hpq' hp']
      · simp [hp, hp', hq, hpq' hp']
    · by_cases hq : q
      · by_cases hq' : q'
        · simp [hp, hp', hq, hq']
        · simp [hp, hp', hq, hq']
      · by_cases hq' : q'
        · simp [hp, hp', hq, hq']
        · simp [hp, hp', hq, hq']

theorem textOrder_eq_iff (s1 s2 us vs : List Nat) : textOrder s1 s2 = textOrder us vs ↔ SameOrder s1 s2 us vs :=
  order_eq_iff (fun h => List.lt_asymm h) (fun h => List.lt_asymm h)

/-- Big endian bytes are in the order of their units. -/
theorem bigEndian_lt_iff {us vs : List Nat} (hus : ∀ u ∈ us, u < 0x10000) (hvs : ∀ v ∈ vs, v < 0x10000) :
    us.flatMap (fun u => [u / 0x100, u % 0x100]) < vs.flatMap (fun u => [u / 0x100, u % 0x100]) ↔ us < vs := by
  induction us generalizing vs with
  | nil =>
    cases vs with
    | nil => simp
    | cons v vs => simp
  | cons u us ih =>
    cases vs with
    | nil => simp
    | cons v vs =>
      have htail := ih (fun x hx => hus x (List.mem_cons_of_mem _ hx)) fun x hx => hvs x (List.mem_cons_of_mem _ hx)
      simp only [List.flatMap_cons, List.cons_append, List.nil_append, List.cons_lt_cons_iff, htail]
      constructor
      · rintro (hlt | ⟨heq, hlt | ⟨hmod, hrest⟩⟩)
        · exact Or.inl (by omega)
        · exact Or.inl (by omega)
        · exact Or.inr ⟨by omega, hrest⟩
      · rintro (hlt | ⟨rfl, hrest⟩)
        · by_cases hdiv : u / 0x100 = v / 0x100
          · exact Or.inr ⟨hdiv, Or.inl (by omega)⟩
          · exact Or.inl (by omega)
        · exact Or.inr ⟨rfl, Or.inr ⟨rfl, hrest⟩⟩

namespace ByteMemory

variable {m : ByteMemory} {a b fuel : Nat} {us vs : List Nat}

theorem HoldsString.units (h : m.HoldsString 2 a us) : ∀ u ∈ us, u < 0x10000 := fun u hu => (h.chars u hu).2

theorem decodeUnits_not_surrogate {c : Nat} (h : c ∈ decodeUnits replace us) : ¬isSurrogate c := by
  by_cases hc : c < 0x10000
  · rcases (mem_decode_replace hc).mp h with ⟨-, hs⟩ | ⟨rfl, -⟩
    · exact hs
    · exact replacement_not_surrogate
  · simp only [isSurrogate, Bool.and_eq_true, decide_eq_true_eq]
    omega

theorem decodeUnits_any_surrogate (us : List Nat) : (decodeUnits replace us).any isSurrogate = false := by
  rw [List.any_eq_false]
  exact fun c hc => decodeUnits_not_surrogate hc

theorem replacement_lt {u : Nat} : replace u < 0x10000 := by
  unfold replace
  omega

theorem encodeUnits_decode_replace (hus : ∀ u ∈ us, u < 0x10000) :
    encodeUnits (decodeUnits replace us) = rereadUnits replace us :=
  encodeUnits_decodeUnits hus fun _ _ => replacement_lt

theorem rereadUnits_lt (hus : ∀ u ∈ us, u < 0x10000) : ∀ u ∈ rereadUnits replace us, u < 0x10000 := by
  intro u hu
  obtain ⟨g, hg, hmem⟩ := List.mem_flatMap.mp hu
  rcases mem_unitGroups hg with ⟨w, hw, rfl⟩ | ⟨w, hw, x, hx, -, -, rfl⟩
  · rw [UnitGroup.reread, List.mem_singleton] at hmem
    rw [hmem]
    split
    next => exact replacement_lt
    next => exact hus w hw
  · rw [UnitGroup.reread, List.mem_cons, List.mem_singleton] at hmem
    rcases hmem with rfl | rfl
    · exact hus u hw
    · exact hus u hx

theorem replace_ne (u : Nat) (h : isSurrogate u) : replace u ≠ u := by
  intro heq
  have hrepl : u = 0xFFFD := heq.symm
  rw [hrepl] at h
  exact replacement_not_surrogate h

theorem reread_replace_iff (us : List Nat) : rereadUnits replace us = us ↔ ¬HasUnpaired us :=
  rereadUnits_eq_iff replace_ne us

/-- Two texts of one length leave the same memory only when they are the same. -/
theorem writeChars_inj {width : Nat} {cs ds : List Nat} (hcs : ∀ c ∈ cs, c < 256 ^ width)
    (hds : ∀ d ∈ ds, d < 256 ^ width) (hlen : cs.length = ds.length) :
    m.writeChars width a cs = m.writeChars width a ds ↔ cs = ds := by
  constructor
  · intro h
    apply charBytes_injective hcs hds hlen
    have hbytes : (charBytes width cs).length = (charBytes width ds).length := by
      rw [charBytes_length, charBytes_length, hlen]
    rw [← readBytes_writeBytes_self m a (charBytes width cs), ← readBytes_writeBytes_self m a (charBytes width ds),
      hbytes]
    exact congrArg (fun m : ByteMemory => m.readBytes a (charBytes width ds).length) h
  · intro h
    rw [h]

/-- To write again what lies in front changes nothing. -/
theorem writeBytes_append {bs ds : List UInt8} (h : m.Holds a bs) :
    m.writeBytes a (bs ++ ds) = m.writeBytes (a + bs.length) ds := by
  have hsame : ∀ x, a ≤ x → x < a + bs.length → bs.getD (x - a) 0 = m x := by
    intro x hle hlt
    have hget := congrArg (fun xs => xs.getD (x - a) 0) h
    simp only [readBytes, List.getD_eq_getElem?_getD, List.getElem?_map] at hget
    rw [List.getElem?_range (by omega), Option.map_some, Option.getD_some, Nat.add_sub_cancel' hle] at hget
    rw [List.getD_eq_getElem?_getD, ← hget]
  funext x
  unfold writeBytes
  rw [List.length_append]
  by_cases hfront : a ≤ x ∧ x < a + bs.length
  · rw [if_pos ⟨hfront.1, by omega⟩, if_neg (by omega), List.getD_append _ _ _ _ (by omega), hsame x hfront.1 hfront.2]
  · by_cases hback : a + bs.length ≤ x ∧ x < a + bs.length + ds.length
    · rw [if_pos ⟨by omega, by omega⟩, if_pos hback, List.getD_append_right _ _ _ _ (by omega)]
      congr 1
      omega
    · rw [if_neg (by omega), if_neg hback]

theorem HoldsString.front {width : Nat} {cs : List Nat} (h : m.HoldsString width a cs) :
    m.Holds a (charBytes width cs) := by
  have hlen : 0 * width + cs.length * width ≤ (charBytes width (cs ++ [0])).length := by
    rw [charBytes_length, List.length_append, ← Nat.add_mul]
    exact Nat.mul_le_mul_right width (by omega)
  have hpart := @Holds.part m a 0 (cs.length * width) _ h.holds (by omega)
  rw [Nat.add_zero, List.drop_zero, charBytes_append, List.take_left' (charBytes_length _ _)] at hpart
  rwa [Holds, charBytes_length]

theorem foundAddress_inj {str : Nat} (h : 0 < str) (o o' : Option Nat) :
    foundAddress str o = foundAddress str o' ↔ o = o' := by
  constructor
  · intro heq
    cases o with
    | none =>
      cases o' with
      | none => rfl
      | some i =>
        simp only [foundAddress] at heq
        omega
    | some j =>
      cases o' with
      | none =>
        simp only [foundAddress] at heq
        omega
      | some i =>
        simp only [foundAddress] at heq
        rw [show j = i by omega]
  · intro heq
    rw [heq]

theorem decodeUnits_terminated (us : List Nat) :
    decodeUnits replace us ++ [0] = decodeUnits replace (us ++ [0]) := (decodeUnits_split us [] (by decide)).symm

theorem wcslen_eq_iff (h : m.HoldsString 2 a us) (hfuel : us.length < fuel) :
    m.wcslen fuel a = some us.length ↔ pairCount us = 0 := by
  have hlen := length_unitGroups us
  rw [wcslen, h.readWideString_eq 0 hfuel, Option.map_some, Option.some.injEq]
  show (decodeUnits replace us).length = us.length ↔ pairCount us = 0
  rw [length_decodeUnits]
  omega

theorem wcsnlenLoop_eq (h : m.HoldsString 2 a us) (left : Nat) {rv : Nat} (hrv : rv ≤ us.length) :
    m.wcsnlenLoop a left rv = min us.length (rv + left) := by
  induction left generalizing rv with
  | zero =>
    rw [wcsnlenLoop]
    omega
  | succ left ih =>
    rw [wcsnlenLoop, h.readInt_get hrv]
    by_cases hend : rv = us.length
    · have hzero : (us ++ [0]).getD rv 0 = 0 := by
        rw [hend, List.getD_append_right _ _ _ _ (Nat.le_refl _), Nat.sub_self]
        rfl
      rw [if_pos hzero]
      omega
    · have hpos := h.getD_pos (show rv < us.length by omega)
      rw [if_neg (by omega), ih (by omega)]
      omega

theorem wcsnlen_eq (h : m.HoldsString 2 a us) (hfuel : us.length < fuel) (count : Nat) :
    m.wcsnlen fuel a count = some (min us.length count) := by
  rw [wcsnlen, h.readWideString_eq count hfuel, Option.map_some, wcsnlenLoop_eq h count (Nat.zero_le _), Nat.zero_add]

theorem wcschr_eq_iff (h : m.HoldsString 2 a us) (hnull : 0 < a) (hfuel : us.length < fuel) (c : Nat) :
    m.wcschr fuel a c = some (foundAddress a ((us ++ [0]).idxOf? (c % 0x10000))) ↔
      FindsFirst (us ++ [0]) (c % 0x10000) := by
  rw [wcschr, h.readWideString_eq 0 hfuel, Option.map_some, Option.some.injEq, foundAddress_inj hnull,
    ← idxOf?_decodeUnits_iff (Nat.mod_lt _ (by decide)), ← decodeUnits_terminated]
  rfl

theorem wcsrchr_eq_iff (h : m.HoldsString 2 a us) (hnull : 0 < a) (hfuel : us.length < fuel) (c : Nat) :
    m.wcsrchr fuel a c = some (foundAddress a (rfindChar (c % 0x10000) (us ++ [0]))) ↔
      FindsLast (us ++ [0]) (c % 0x10000) := by
  rw [wcsrchr, h.readWideString_eq 0 hfuel, Option.map_some, Option.some.injEq, foundAddress_inj hnull,
    ← rfindChar_decodeUnits_iff (Nat.mod_lt _ (by decide)), ← decodeUnits_terminated]
  rfl

theorem wideStringUnits_decode (hus : ∀ u ∈ us, 0 < u ∧ u < 0x10000) :
    wideStringUnits (decodeUnits replace us) = some (rereadUnits replace us ++ [0]) := by
  have hlast : (decodeUnits replace us).getLast? ≠ some 0 := by
    intro hlast
    have hmem := List.mem_of_getLast? hlast
    rcases (mem_decode_replace (by decide)).mp hmem with ⟨hzero, -⟩ | ⟨hzero, -⟩
    · exact absurd (hus 0 hzero).1 (Nat.lt_irrefl 0)
    · cases hzero
  have hnone : (decodeUnits replace us ++ [0]).any isSurrogate = false := by
    rw [List.any_append, decodeUnits_any_surrogate]
    rfl
  unfold wideStringUnits
  simp only [if_neg hlast, hnone, Bool.false_eq_true, if_false]
  rw [encodeUnits_append, encodeUnits_decode_replace fun u hu => (hus u hu).2]
  rfl

theorem wcscpy_eq (h : m.HoldsString 2 b vs) (hfuel : vs.length < fuel) (dest : Nat) :
    m.wcscpy fuel dest b = some (dest, m.writeChars 2 dest (rereadUnits replace vs ++ [0])) := by
  have hread := h.readWideString_eq 0 hfuel
  rw [boundedChars, if_pos rfl] at hread
  unfold wcscpy
  simp only [hread, Option.bind_eq_bind, Option.bind_some, writeWideString, wideStringUnits_decode h.chars]
  rfl

theorem wcscpy_eq_iff (h : m.HoldsString 2 b vs) (hfuel : vs.length < fuel) (dest : Nat) :
    m.wcscpy fuel dest b = some (dest, m.writeChars 2 dest (vs ++ [0])) ↔ ¬HasUnpaired vs := by
  have hzero : ∀ {cs : List Nat}, (∀ c ∈ cs, c < 0x10000) → ∀ c ∈ cs ++ [0], c < 256 ^ 2 := by
    intro cs hcs c hc
    rcases List.mem_append.mp hc with hc | hc
    · exact hcs c hc
    · rw [List.mem_singleton.mp hc]
      decide
  have hlen : (rereadUnits replace vs ++ [0]).length = (vs ++ [0]).length := by
    rw [List.length_append, List.length_append, length_rereadUnits]
  rw [wcscpy_eq h hfuel, Option.some.injEq, Prod.mk.injEq, and_iff_right rfl,
    writeChars_inj (hzero (rereadUnits_lt h.units)) (hzero h.units) hlen, List.append_left_inj, reread_replace_iff]

theorem wcsncpy_eq (h : m.HoldsString 2 b vs) (hfuel : vs.length < fuel) (dest count : Nat) :
    m.wcsncpy fuel dest b count =
      some (dest, m.writeChars 2 dest (vs.take count ++ List.replicate (count - vs.length) 0)) := by
  unfold wcsncpy
  by_cases hcount : count = 0
  · have hsame : m.writeChars 2 dest [] = m := by
      funext x
      exact if_neg (by simp [charBytes])
    rw [if_neg (by omega), hcount, List.take_zero, Nat.zero_sub]
    exact congrArg (fun m' => some (dest, m')) hsame.symm
  · have hpad : count - (vs.take count).length = count - vs.length := by
      rw [List.length_take]
      omega
    simp only [if_pos hcount, h.readCstr_eq count hfuel, boundedChars, if_neg hcount, Option.bind_eq_bind,
      Option.bind_some, hpad]
    rfl

theorem wcscat_eq (ha : m.HoldsString 2 a us) (hb : m.HoldsString 2 b vs) (hus : us.length < fuel)
    (hvs : vs.length < fuel) :
    m.wcscat fuel a b =
      some (a, m.writeChars 2 a (rereadUnits replace us ++ rereadUnits replace vs ++ [0])) := by
  have hread := ha.readWideString_eq 0 hus
  have hread' := hb.readWideString_eq 0 hvs
  have hnone : (decodeUnits replace us ++ decodeUnits replace vs).any isSurrogate = false := by
    rw [List.any_append, decodeUnits_any_surrogate, decodeUnits_any_surrogate]
    rfl
  rw [boundedChars, if_pos rfl] at hread hread'
  unfold wcscat
  simp only [hread, hread', Option.bind_eq_bind, Option.bind_some, hnone, Bool.false_eq_true, if_false,
    encodeUnits_append, encodeUnits_decode_replace ha.units, encodeUnits_decode_replace hb.units]
  rfl

theorem wcscat_eq_iff (ha : m.HoldsString 2 a us) (hb : m.HoldsString 2 b vs) (hus : us.length < fuel)
    (hvs : vs.length < fuel) :
    m.wcscat fuel a b = some (a, m.writeChars 2 (a + us.length * 2) (vs ++ [0])) ↔
      ¬HasUnpaired us ∧ ¬HasUnpaired vs := by
  have hwhole : m.writeChars 2 (a + us.length * 2) (vs ++ [0]) = m.writeChars 2 a (us ++ vs ++ [0]) := by
    unfold writeChars
    rw [List.append_assoc, charBytes_append 2 us, writeBytes_append ha.front, charBytes_length]
  have hrange : ∀ {cs ds : List Nat}, (∀ c ∈ cs, c < 0x10000) → (∀ d ∈ ds, d < 0x10000) →
      ∀ c ∈ cs ++ ds ++ [0], c < 256 ^ 2 := by
    intro cs ds hcs hds c hc
    rcases List.mem_append.mp hc with hc | hc
    · rcases List.mem_append.mp hc with hc | hc
      · exact hcs c hc
      · exact hds c hc
    · rw [List.mem_singleton.mp hc]
      decide
  have hlen : (rereadUnits replace us ++ rereadUnits replace vs ++ [0]).length = (us ++ vs ++ [0]).length := by
    simp only [List.length_append, length_rereadUnits]
  rw [wcscat_eq ha hb hus hvs, Option.some.injEq, Prod.mk.injEq, and_iff_right rfl, hwhole,
    writeChars_inj (hrange (rereadUnits_lt ha.units) (rereadUnits_lt hb.units)) (hrange ha.units hb.units) hlen,
    List.append_left_inj, ← reread_replace_iff us, ← reread_replace_iff vs]
  constructor
  · exact fun h => List.append_inj h (length_rereadUnits _ _)
  · rintro ⟨hus, hvs⟩
    rw [hus, hvs]

theorem wcscmp_eq_iff (ha : m.HoldsString 2 a us) (hb : m.HoldsString 2 b vs) (hus : us.length < fuel)
    (hvs : vs.length < fuel) :
    m.wcscmp fuel a b = some (textOrder us vs) ↔ OrderKept 0 us vs := by
  have hread := ha.readWideString_eq 0 hus
  have hread' := hb.readWideString_eq 0 hvs
  rw [boundedChars, if_pos rfl] at hread hread'
  have hkeys : getStringOrder (decodeUnits replace us) (decodeUnits replace vs) =
      textOrder (rereadUnits replace us) (rereadUnits replace vs) := by
    unfold getStringOrder bigEndianUnits
    rw [encodeUnits_decode_replace ha.units, encodeUnits_decode_replace hb.units, textOrder_eq_iff]
    exact ⟨bigEndian_lt_iff (rereadUnits_lt ha.units) (rereadUnits_lt hb.units),
      bigEndian_lt_iff (rereadUnits_lt hb.units) (rereadUnits_lt ha.units)⟩
  have hrun : m.wcscmp fuel a b = some (textOrder (rereadUnits replace us) (rereadUnits replace vs)) := by
    unfold wcscmp
    simp only [hread, hread', Option.bind_eq_bind, Option.bind_some, hkeys]
    rfl
  have hkept := sameOrder_readings_iff (Or.inl rfl) (fun u hu => (ha.chars u hu).1) fun v hv => (hb.chars v hv).1
  rw [readings_zero, readings_zero] at hkept
  rw [hrun, Option.some.injEq, textOrder_eq_iff, hkept]

theorem wcsncmp_eq_iff (ha : m.HoldsString 2 a us) (hb : m.HoldsString 2 b vs) (hus : us.length < fuel)
    (hvs : vs.length < fuel) (count : Nat) :
    m.wcsncmp fuel a b count = some (textOrder (us.take count) (vs.take count)) ↔
      OrderKept 0x10000 (us.take count) (vs.take count) := by
  have hrun : m.wcsncmp fuel a b count =
      some (textOrder (decodeUnits replace (us.take count)) (decodeUnits replace (vs.take count))) := by
    unfold wcsncmp
    by_cases hcount : count = 0
    · rw [if_pos hcount, hcount]
      rfl
    · simp only [if_neg hcount, ha.readWideString_eq count hus, hb.readWideString_eq count hvs, boundedChars,
        Option.bind_eq_bind, Option.bind_some]
      rfl
  have hchars : ∀ u ∈ us.take count, 0 < u ∧ u < 0x10000 := fun u hu => ha.chars u (List.mem_of_mem_take hu)
  have hchars' : ∀ v ∈ vs.take count, 0 < v ∧ v < 0x10000 := fun v hv => hb.chars v (List.mem_of_mem_take hv)
  have hkept := sameOrder_readings_iff (Or.inr rfl) (fun u hu => (hchars u hu).1) fun v hv => (hchars' v hv).1
  have hless := decodeUnits_lt_iff (fun u hu => (hchars u hu).2) fun v hv => (hchars' v hv).2
  have hgreater := decodeUnits_lt_iff (fun v hv => (hchars' v hv).2) fun u hu => (hchars u hu).2
  rw [hrun, Option.some.injEq, textOrder_eq_iff, SameOrder, hless, hgreater, ← hkept]
  rfl

end ByteMemory

/-- When each wide string function does on `us` and `vs` what its work on units says. -/
theorem wideString_law {m : ByteMemory} {a b fuel : Nat} {us vs : List Nat} (ha : m.HoldsString 2 a us)
    (hb : m.HoldsString 2 b vs) (hnull : 0 < a) (hus : us.length < fuel) (hvs : vs.length < fuel)
    (c count dest : Nat) :
    (m.wcslen fuel a = some us.length ↔ pairCount us = 0) ∧
      m.wcsnlen fuel a count = some (min us.length count) ∧
      (m.wcschr fuel a c = some (foundAddress a ((us ++ [0]).idxOf? (c % 0x10000))) ↔
        FindsFirst (us ++ [0]) (c % 0x10000)) ∧
      (m.wcsrchr fuel a c = some (foundAddress a (rfindChar (c % 0x10000) (us ++ [0]))) ↔
        FindsLast (us ++ [0]) (c % 0x10000)) ∧
      (m.wcscpy fuel dest b = some (dest, m.writeChars 2 dest (vs ++ [0])) ↔ ¬HasUnpaired vs) ∧
      m.wcsncpy fuel dest b count =
        some (dest, m.writeChars 2 dest (vs.take count ++ List.replicate (count - vs.length) 0)) ∧
      (m.wcscat fuel a b = some (a, m.writeChars 2 (a + us.length * 2) (vs ++ [0])) ↔
        ¬HasUnpaired us ∧ ¬HasUnpaired vs) ∧
      (m.wcscmp fuel a b = some (textOrder us vs) ↔ OrderKept 0 us vs) ∧
      (m.wcsncmp fuel a b count = some (textOrder (us.take count) (vs.take count)) ↔
        OrderKept 0x10000 (us.take count) (vs.take count)) := by
  refine ⟨wcslen_eq_iff ha hus, wcsnlen_eq ha hus count, wcschr_eq_iff ha hnull hus c,
    wcsrchr_eq_iff ha hnull hus c, wcscpy_eq_iff hb hvs dest, wcsncpy_eq hb hvs dest count,
    wcscat_eq_iff ha hb hus hvs, wcscmp_eq_iff ha hb hus hvs, wcsncmp_eq_iff ha hb hus hvs count⟩

/-- A pair, a letter and an unpaired surrogate at 0x1000, and the letter alone at 0x2000. -/
def surrogateMemory : ByteMemory :=
  ByteMemory.writeChars (ByteMemory.writeChars (fun _ => 0) 2 0x1000 [0xD83D, 0xDE00, 0x41, 0xD800]) 2 0x2000 [0x41]

theorem surrogateMemory_holds :
    surrogateMemory.HoldsString 2 0x1000 [0xD83D, 0xDE00, 0x41, 0xD800] ∧
      surrogateMemory.HoldsString 2 0x2000 [0x41] := by
  refine ⟨⟨by unfold Holds; decide, by decide⟩, ⟨by unfold Holds; decide, by decide⟩⟩

theorem wideString_law_pair :
    surrogateMemory.wcslen 8 0x1000 = some 4 ↔ pairCount [0xD83D, 0xDE00, 0x41, 0xD800] = 0 :=
  (wideString_law surrogateMemory_holds.1 surrogateMemory_holds.2 (by decide) (by decide) (by decide) 0x41 0 0x3000).1

/-- The pair counts as one character, what is found behind it has the address in front, and a copy changes the unpaired
surrogate. -/
theorem wideString_units_fail :
    surrogateMemory.HoldsString 2 0x1000 [0xD83D, 0xDE00, 0x41, 0xD800] ∧
      surrogateMemory.wcslen 8 0x1000 = some 3 ∧
      surrogateMemory.wcschr 8 0x1000 0x41 = some 0x1002 ∧
      (surrogateMemory.wcscpy 8 0x3000 0x1000).map (fun r => r.2.readInt 0x3006 2) = some 0xFFFD ∧
      surrogateMemory.wcsncmp 8 0x1000 0x2000 1 = some 1 := by
  refine ⟨surrogateMemory_holds.1, by decide, by decide, by decide, by decide⟩

end Speakeasy
