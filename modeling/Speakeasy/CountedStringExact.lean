import Speakeasy.CountedStringTexts
import Speakeasy.DeviceListRuns
import Speakeasy.WideStringLaw

namespace Speakeasy

open PageEngine MemoryManager CountedString

namespace GuestMemory

variable {ε : Type} [PageEngine ε] {arch : Arch} {env : MemEnv} {g : GuestMemory ε} {a dst src allocate : Nat}
  {s d : CountedString} {cs us : List Nat}

section Ansi

/-- The characters of a counted array become units, where there is room for them. -/
def AnsiLaw (arch : Arch) (env : MemEnv) (g : GuestMemory ε) (dst src allocate : Nat) (d : CountedString)
    (cs : List Nat) : Prop :=
  ∃ fuel status t, g.rtlAnsiStringToUnicodeString arch env fuel dst src allocate = .ok (status, t) ∧
    (status = statusSuccess ↔ allocate ≠ 0 ∨ 2 * cs.length ≤ d.maximumLength) ∧
    (status ≠ statusSuccess → t = g.logged) ∧
    (status = statusSuccess → ∃ d', (allocate = 0 → d'.buffer = d.buffer ∧ d'.maximumLength = d.maximumLength) ∧
      Stored arch g t dst d' 0 (charBytes 2 cs))

/-- The read of a counted array stops at its end. -/
def AnsiWhole (g : GuestMemory ε) (a : Nat) (cs : List Nat) : Prop :=
  if cs = [] then g.MappedString 1 a [] else 0 ∉ cs

/-- The array is read whole, and a new buffer has a length of 16 bits and memory; or the array is cut at a zero,
and even the cut text does not fit. -/
def AnsiSound (env : MemEnv) (g : GuestMemory ε) (allocate : Nat) (s d : CountedString) (cs : List Nat) : Prop :=
  (g.AnsiWhole s.buffer cs ∧ (allocate ≠ 0 → 2 * cs.length < 0x10000 ∧
      ∃ r, g.logged.memAlloc env (cs.length * 2) (ansiTag cs) = .ok r)) ∨
    (cs ≠ [] ∧ 0 ∈ cs ∧ allocate = 0 ∧ d.maximumLength < (cs.takeWhile (· ≠ 0)).length * 2)

theorem textAt_whole (h : g.AnsiWhole a cs) : g.TextAt 1 a cs cs := by
  unfold AnsiWhole at h
  unfold TextAt
  split
  next hempty =>
    rw [if_pos hempty] at h
    rwa [hempty]
  next hne =>
    rw [if_neg hne] at h
    exact (takeWhile_of_not_mem h).symm

/-- A text as long as the array is the array. -/
theorem whole_of_length {text : List Nat} (ht : g.TextAt 1 a cs text) (hlen : text.length = cs.length) :
    g.AnsiWhole a cs ∧ text = cs := by
  unfold TextAt at ht
  unfold AnsiWhole
  split at ht
  next hempty =>
    subst hempty
    obtain rfl := List.length_eq_zero_iff.mp hlen
    rw [if_pos rfl]
    exact ⟨ht, rfl⟩
  next hne =>
    have hsame : cs.takeWhile (· ≠ 0) = cs :=
      (List.takeWhile_prefix _).eq_of_length (by rw [← ht, hlen])
    rw [if_neg hne]
    refine ⟨fun hzero => ?_, ht.trans hsame⟩
    rw [← hsame] at hzero
    have htrue := List.mem_takeWhile_imp hzero
    simp at htrue

theorem decodeAnsiChar_lt {c : Nat} (h : c < 0x100) : decodeAnsiChar c < 0x10000 := by
  unfold decodeAnsiChar
  split
  next hblock =>
    have hall : ∀ i < 32, ansiBlock.getD i 0 < 0x10000 := by decide
    exact hall (c - 0x80) (by omega)
  next => omega

theorem encodeUnits_bmp {text : List Nat} (h : ∀ c ∈ text, c < 0x10000) : encodeUnits text = text := by
  induction text with
  | nil => rfl
  | cons c text ih =>
    have hrest := ih fun x hx => h x (List.mem_cons_of_mem _ hx)
    have hc : encodeChar c = [c] := if_pos (h c List.mem_cons_self)
    show encodeChar c ++ encodeUnits text = c :: text
    rw [hc, hrest]
    rfl

theorem decodeAnsi_ascii (h : ∀ c ∈ cs, c < 0x80) : cs.map decodeAnsiChar = cs := by
  have hself : ∀ c ∈ cs, decodeAnsiChar c = c := by
    intro c hc
    have hlt := h c hc
    exact if_neg (by omega)
  exact (List.map_congr_left hself).trans (List.map_id cs)

/-- The bytes that a conversion writes. -/
def ansiData (text : List Nat) : List UInt8 := charBytes 2 (encodeUnits (text.map decodeAnsiChar))

theorem ansiData_length {text : List Nat} (h : ∀ c ∈ text, c < 0x100) : (ansiData text).length = text.length * 2 := by
  have hlt : ∀ c ∈ text.map decodeAnsiChar, c < 0x10000 := by
    intro c hc
    obtain ⟨b, hb, rfl⟩ := List.mem_map.mp hc
    exact decodeAnsiChar_lt (h b hb)
  rw [ansiData, charBytes_length, encodeUnits_bmp hlt, List.length_map]

theorem ansiData_ascii (h : ∀ c ∈ cs, c < 0x80) : ansiData cs = charBytes 2 cs := by
  rw [ansiData, decodeAnsi_ascii h, encodeUnits_bmp]
  intro c hc
  have hlt := h c hc
  omega

/-- The destination with a new buffer. -/
def newBuffer (d : CountedString) (n ptr : Nat) : CountedString :=
  CountedString.setLength { d.setMaximumLength n with buffer := ptr } n

/-- A conversion of a text into a new buffer. -/
theorem ansi_call_allocate {fuel : Nat} {text : List Nat} (hd : g.HasHeader arch dst d)
    (hread : g.readAnsiString arch fuel src = .ok (text.map decodeAnsiChar)) (hallocate : allocate ≠ 0) :
    g.rtlAnsiStringToUnicodeString arch env fuel dst src allocate =
      (g.logged.memAlloc env (text.length * 2) (ansiTag (text.map decodeAnsiChar))).bind fun r =>
        (r.2.storeString arch dst (newBuffer d (text.length * 2) r.1) (ansiData text)).bind
          fun t => .ok (statusSuccess, t) := by
  unfold rtlAnsiStringToUnicodeString
  rw [hread, hd.castAt_eq]
  simp only [bind, Except.bind, pure, Except.pure, if_pos hallocate, List.length_map]
  rfl

/-- A conversion of a text into the buffer of the destination. -/
theorem ansi_call_inPlace {fuel : Nat} {text : List Nat} (hd : g.HasHeader arch dst d)
    (hread : g.readAnsiString arch fuel src = .ok (text.map decodeAnsiChar)) :
    g.rtlAnsiStringToUnicodeString arch env fuel dst src 0 =
      if d.maximumLength < text.length * 2 then .ok (statusUnsuccessful, g.logged)
      else (g.logged.storeString arch dst (d.setLength (text.length * 2)) (ansiData text)).bind
        fun t => .ok (statusSuccess, t) := by
  unfold rtlAnsiStringToUnicodeString
  rw [hread, hd.castAt_eq]
  simp only [bind, Except.bind, pure, Except.pure, ne_eq, not_true_eq_false, if_false, List.length_map]
  rfl

theorem bind_ok {α β : Type} {x : Except StringFault α} {f : α → Except StringFault β} {b : β}
    (h : x.bind f = .ok b) : ∃ v, x = .ok v ∧ f v = .ok b := by
  cases x with
  | error e => cases h
  | ok v => exact ⟨v, rfl, h⟩

theorem Counted.array {width : Nat} (h : g.Counted arch a s (charBytes width us)) (hlt : ∀ u ∈ us, u < 256 ^ width) :
    g.MappedArray width s.buffer us where
  holds := h.holds
  mapped := by
    have hmapped := h.mapped
    rwa [h.length, charBytes_length] at hmapped
  lt := hlt

theorem readAnsiString_eq (hs : g.Counted arch src s (charBytes 1 cs)) (fuel : Nat) :
    g.readAnsiString arch fuel src = (g.readUnits 1 cs.length fuel s.buffer 0).map
      fun us => (us.map decodeAnsiChar).filter (· ≠ 0) := by
  have hslen : s.length = cs.length := by rw [hs.length, charBytes_length, Nat.mul_one]
  unfold readAnsiString
  rw [hs.header.castAt_eq, ← hslen]
  rfl

theorem newBuffer_fits (hd : d.Fits arch) {ptr : Nat} (n : Nat) (hptr : ptr < 256 ^ arch.ptrSize) :
    (newBuffer d n ptr).Fits arch := ((hd.setMaximumLength n).setBuffer hptr).setLength n

theorem Counted.asciiArray (hs : g.Counted arch src s (charBytes 1 cs)) (hascii : ∀ c ∈ cs, c < 0x80) :
    g.MappedArray 1 s.buffer cs := hs.array fun c hc => by
  have hlt := hascii c hc
  omega

/-- A call that does what the law says read the whole text, or failed for a part of it. -/
theorem AnsiLaw.sound [LawfulPageEngine ε] {outside : Nat → Prop} {limit : Nat}
    (hi : g.mgr.Inv outside) (he : env.Limited limit) (hb : g.mgr.Below limit)
    (hlimit : limit < 256 ^ arch.ptrSize) (hs : g.Counted arch src s (charBytes 1 cs)) (hascii : ∀ c ∈ cs, c < 0x80)
    (hd : g.HasHeader arch dst d) (h : AnsiLaw arch env g dst src allocate d cs) : AnsiSound env g allocate s d cs := by
  have harray := hs.asciiArray hascii
  have hmax := hd.fits.maximumLength
  obtain ⟨fuel, status, t, heq, hstatus, -, hstored⟩ := h
  cases hread : g.readAnsiString arch fuel src with
  | error e =>
    unfold rtlAnsiStringToUnicodeString at heq
    rw [hread] at heq
    cases heq
  | ok decoded =>
    have hread' := hread
    rw [readAnsiString_eq hs] at hread'
    obtain ⟨text, htext, rfl⟩ := readText_inv ansiText harray hread'
    have hlt : ∀ c ∈ text, c < 0x100 := fun c hc => (textAt_chars harray htext c hc).2
    by_cases hallocate : allocate = 0
    · subst hallocate
      rw [ansi_call_inPlace hd hread] at heq
      by_cases hcut : d.maximumLength < text.length * 2
      · rw [if_pos hcut] at heq
        obtain ⟨rfl, -⟩ := Prod.mk.inj (Except.ok.inj heq)
        have hlong : ¬2 * cs.length ≤ d.maximumLength := fun hle =>
          absurd (hstatus.mpr (Or.inr hle)) (by decide)
        have hne : cs ≠ [] := by
          rintro rfl
          exact hlong (Nat.zero_le _)
        unfold TextAt at htext
        rw [if_neg hne] at htext
        by_cases hzero : 0 ∈ cs
        · rw [htext] at hcut
          exact Or.inr ⟨hne, hzero, rfl, hcut⟩
        · refine Or.inl ⟨?_, fun h => absurd rfl h⟩
          unfold AnsiWhole
          rwa [if_neg hne]
      · rw [if_neg hcut] at heq
        obtain ⟨t', hstore, hok⟩ := bind_ok heq
        obtain ⟨rfl, rfl⟩ := Prod.mk.inj (Except.ok.inj hok)
        obtain ⟨-, -, rfl⟩ := LoggedGuest.storeString_ok_iff.mp hstore
        obtain ⟨d', -, hd'⟩ := hstored rfl
        have hsame := (stored_inv (hd.fits.setLength _) hd').1
        have hlength := hd'.length
        rw [hsame, charBytes_length] at hlength
        have hlength' : text.length * 2 % 0x10000 = 0 + cs.length * 2 := hlength
        exact Or.inl ⟨(whole_of_length htext (by omega)).1, fun h => absurd rfl h⟩
    · rw [ansi_call_allocate hd hread hallocate] at heq
      obtain ⟨⟨ptr, t'⟩, halloc, hrest⟩ := bind_ok heq
      obtain ⟨t'', hstore, hok⟩ := bind_ok hrest
      obtain ⟨rfl, rfl⟩ := Prod.mk.inj (Except.ok.inj hok)
      obtain ⟨-, -, rfl⟩ := LoggedGuest.storeString_ok_iff.mp hstore
      obtain ⟨-, -, -, hptr, -⟩ := LoggedGuest.memAlloc_ok arch hi he hb hlimit halloc
      obtain ⟨d', -, hd'⟩ := hstored rfl
      obtain ⟨hsame, hinside⟩ := stored_inv (newBuffer_fits hd.fits _ hptr) hd'
      have hlength := hd'.length
      rw [hsame, charBytes_length] at hlength
      have hlength' : text.length * 2 % 0x10000 = 0 + cs.length * 2 := hlength
      rw [ansiData_length hlt] at hinside
      have hinside' : text.length * 2 ≤ 16 ∨ text.length * 2 ≤ text.length * 2 % 0x10000 := hinside
      obtain ⟨hwhole, rfl⟩ := whole_of_length htext (by omega)
      rw [decodeAnsi_ascii hascii] at halloc
      exact Or.inl ⟨hwhole, fun _ => ⟨by omega, _, halloc⟩⟩

theorem AnsiSound.law [LawfulPageEngine ε] {outside : Nat → Prop} {limit : Nat}
    (hi : g.mgr.Inv outside) (he : env.Limited limit) (hb : g.mgr.Below limit)
    (hlimit : limit < 256 ^ arch.ptrSize) (hs : g.Counted arch src s (charBytes 1 cs)) (hascii : ∀ c ∈ cs, c < 0x80)
    (hd : g.HasHeader arch dst d) (hroom : allocate = 0 → g.RangeMapped d.buffer d.maximumLength)
    (h : AnsiSound env g allocate s d cs) : AnsiLaw arch env g dst src allocate d cs := by
  have harray := hs.asciiArray hascii
  have hmax := hd.fits.maximumLength
  have hsize : ∀ d' : CountedString, d'.padding = d.padding → g.RangeMapped dst (d'.bytes arch).length := by
    intro d' hpadding
    rw [bytes_length (hpadding ▸ hd.fits.padding)]
    exact hd.mapped
  rcases h with ⟨hwhole, hmemory⟩ | ⟨hne, hzero, rfl, hcut⟩
  · have hread : g.readAnsiString arch (cs.length + cs.length + 2) src = .ok (cs.map decodeAnsiChar) := by
      rw [readAnsiString_eq hs]
      exact readText_eq ansiText harray (textAt_whole hwhole) (by omega)
    by_cases hallocate : allocate = 0
    · subst hallocate
      by_cases hcut : d.maximumLength < cs.length * 2
      · refine ⟨_, statusUnsuccessful, g.logged, (ansi_call_inPlace hd hread).trans (if_pos hcut),
          iff_of_false (by decide) (by omega), fun _ => rfl, fun h => by cases h⟩
      · have hset : (d.setLength (cs.length * 2)).length = (charBytes 2 cs).length := by
          rw [charBytes_length]
          exact Nat.mod_eq_of_lt (by omega)
        have hstored := stored_wrote (g := g) (t := g.logged) (a := dst) rfl rfl (hd.fits.setLength _) [] hset
          (by rw [List.append_nil, charBytes_length]; exact Nat.not_lt.mp hcut)
        rw [List.append_nil] at hstored
        refine ⟨cs.length + cs.length + 2, statusSuccess, _, ?_, iff_of_true rfl (Or.inr (by omega)), fun h => absurd rfl h,
          fun _ => ⟨d.setLength (cs.length * 2), fun _ => ⟨rfl, rfl⟩, hstored⟩⟩
        rw [ansi_call_inPlace hd hread, if_neg hcut, ansiData_ascii hascii,
          LoggedGuest.storeString_ok_iff.mpr ⟨?_, hsize _ rfl, rfl⟩]
        · rfl
        · rw [charBytes_length]
          exact (hroom rfl).mono (Nat.not_lt.mp hcut)
    · obtain ⟨hshort, ⟨ptr, t⟩, halloc⟩ := hmemory hallocate
      obtain ⟨hbytes, hwrites, hnew, hptr, hkept⟩ :=
        LoggedGuest.memAlloc_ok arch hi he hb hlimit halloc
      have hmod : cs.length * 2 % 0x10000 = cs.length * 2 := Nat.mod_eq_of_lt (by omega)
      have hstored := stored_wrote (g := g) (a := dst) hbytes hwrites (newBuffer_fits hd.fits (cs.length * 2) hptr) []
        (hmod.trans (charBytes_length 2 cs).symm)
        (by rw [List.append_nil, charBytes_length]; exact Nat.le_of_eq hmod.symm)
      rw [List.append_nil] at hstored
      refine ⟨cs.length + cs.length + 2, statusSuccess, _, ?_, iff_of_true rfl (Or.inl hallocate), fun h => absurd rfl h,
        fun _ => ⟨_, fun h => absurd h hallocate, hstored⟩⟩
      rw [ansi_call_allocate hd hread hallocate, decodeAnsi_ascii hascii, halloc, ansiData_ascii hascii]
      have hroomNew : t.guest.RangeMapped (newBuffer d (cs.length * 2) ptr).buffer (charBytes 2 cs).length := by
        rw [charBytes_length]
        exact hnew
      have hstore := LoggedGuest.storeString_ok_iff.mpr
        ⟨hroomNew, hkept _ _ (hsize (newBuffer d (cs.length * 2) ptr) rfl), rfl⟩
      show (LoggedGuest.storeString arch t dst (newBuffer d (cs.length * 2) ptr) _).bind _ = _
      rw [hstore]
      rfl
  · have htext : g.TextAt 1 s.buffer cs (cs.takeWhile (· ≠ 0)) := by
      unfold TextAt
      rw [if_neg hne]
    have hlonger : (cs.takeWhile (· ≠ 0)).length ≤ cs.length := (List.takeWhile_sublist _).length_le
    have hread : g.readAnsiString arch (cs.length + cs.length + 2) src =
        .ok ((cs.takeWhile (· ≠ 0)).map decodeAnsiChar) := by
      rw [readAnsiString_eq hs]
      exact readText_eq ansiText harray htext (by omega)
    exact ⟨_, statusUnsuccessful, g.logged, (ansi_call_inPlace hd hread).trans (if_pos hcut),
      iff_of_false (by decide) (by omega), fun _ => rfl, fun h => by cases h⟩

theorem rtlAnsiStringToUnicodeString_iff [LawfulPageEngine ε] {outside : Nat → Prop} {limit : Nat}
    (hi : g.mgr.Inv outside) (he : env.Limited limit) (hb : g.mgr.Below limit)
    (hlimit : limit < 256 ^ arch.ptrSize) (hs : g.Counted arch src s (charBytes 1 cs)) (hascii : ∀ c ∈ cs, c < 0x80)
    (hd : g.HasHeader arch dst d) (hroom : allocate = 0 → g.RangeMapped d.buffer d.maximumLength) :
    AnsiLaw arch env g dst src allocate d cs ↔ AnsiSound env g allocate s d cs :=
  ⟨AnsiLaw.sound hi he hb hlimit hs hascii hd, AnsiSound.law hi he hb hlimit hs hascii hd hroom⟩

end Ansi

end GuestMemory

/-- Lower case of ASCII units. -/
def lowerUnit (u : Nat) : Nat := if 0x41 ≤ u ∧ u ≤ 0x5A then u + 0x20 else u

/-- The units as they are compared. -/
def foldUnits (caseInSensitive : Nat) (us : List Nat) : List Nat :=
  if caseInSensitive = 0 then us else us.map lowerUnit

namespace GuestMemory

variable {ε : Type} [PageEngine ε] {arch : Arch} {env : MemEnv} {g : GuestMemory ε} {lower : List Nat → List Nat}
  {string1 string2 caseInSensitive : Nat} {s1 s2 : CountedString} {us vs : List Nat}

/-- The answer is whether the arrays are equal. -/
def EqualLaw (arch : Arch) (lower : List Nat → List Nat) (g : GuestMemory ε) (string1 string2 caseInSensitive : Nat)
    (us vs : List Nat) : Prop :=
  ∃ fuel b, g.rtlEqualUnicodeString arch lower fuel string1 string2 caseInSensitive = .ok b ∧
    (b ≠ 0 ↔ foldUnits caseInSensitive us = foldUnits caseInSensitive vs)

/-- What a comparison sees of a text at an index: U+FFFD for an unpaired surrogate, or the unit in lower case. -/
def comparedAt (caseInSensitive : Nat) (cs : List Nat) (i : Nat) : Nat :=
  if caseInSensitive = 0 then readingAt 0 cs i else lowerUnit (unitAt cs i)

/-- An index tells two texts apart. Of text that is not ASCII, `str.lower` says what the case is. -/
def ToldApart (lower : List Nat → List Nat) (caseInSensitive : Nat) (cs ds : List Nat) : Prop :=
  if caseInSensitive = 0 ∨ ∀ c ∈ cs ++ ds, c < 0x80 then
    ∃ i, comparedAt caseInSensitive cs i ≠ comparedAt caseInSensitive ds i
  else lower (decodeUnits ByteMemory.replace cs) ≠ lower (decodeUnits ByteMemory.replace ds)

/-- Of the units that are read, up to a zero and for an empty array those at its buffer, some index tells arrays
apart that are not equal, and none two empty ones. -/
def EqualSound (lower : List Nat → List Nat) (g : GuestMemory ε) (caseInSensitive : Nat) (s1 s2 : CountedString)
    (us vs : List Nat) : Prop :=
  ∃ cs ds, g.TextAt 2 s1.buffer us cs ∧ g.TextAt 2 s2.buffer vs ds ∧
    (us = [] → vs = [] → ¬ToldApart lower caseInSensitive cs ds) ∧
    (foldUnits caseInSensitive us ≠ foldUnits caseInSensitive vs → ToldApart lower caseInSensitive cs ds)

/-- `str.lower` of ASCII. -/
def LowersAscii (lower : List Nat → List Nat) : Prop :=
  ∀ cs : List Nat, (∀ c ∈ cs, c < 0x80) → lower cs = cs.map lowerUnit

/-- The text of an array as the call compares it. -/
def foldText (lower : List Nat → List Nat) (caseInSensitive : Nat) (cs : List Nat) : List Nat :=
  if caseInSensitive = 0 then decodeUnits ByteMemory.replace cs else lower (decodeUnits ByteMemory.replace cs)

theorem lowerUnit_eq_zero {u : Nat} : lowerUnit u = 0 ↔ u = 0 := by
  unfold lowerUnit
  split <;> omega

theorem foldText_ascii (hlower : LowersAscii lower) (hci : caseInSensitive ≠ 0) {cs : List Nat}
    (h : ∀ c ∈ cs, c < 0x80) : foldText lower caseInSensitive cs = cs.map lowerUnit := by
  have hself : decodeUnits ByteMemory.replace cs = cs := by
    apply decodeUnits_self
    intro c hc hs
    have hlt := h c hc
    simp only [isSurrogate, Bool.and_eq_true, decide_eq_true_eq] at hs
    omega
  rw [foldText, if_neg hci, hself, hlower cs h]

theorem unitAt_lower (cs : List Nat) (i : Nat) : unitAt (cs.map lowerUnit) i = lowerUnit (unitAt cs i) :=
  @List.getD_map _ _ cs 0 i lowerUnit

theorem lower_eq_iff {cs ds : List Nat} (hcs : ∀ c ∈ cs, 0 < c) (hds : ∀ d ∈ ds, 0 < d) :
    cs.map lowerUnit = ds.map lowerUnit ↔ ∀ i, lowerUnit (unitAt cs i) = lowerUnit (unitAt ds i) := by
  have hpos : ∀ {xs : List Nat}, (∀ x ∈ xs, 0 < x) → ∀ y ∈ xs.map lowerUnit, 0 < y := by
    intro xs hxs y hy
    obtain ⟨x, hx, rfl⟩ := List.mem_map.mp hy
    have hx := hxs x hx
    have hzero := @lowerUnit_eq_zero x
    omega
  constructor
  · intro h i
    rw [← unitAt_lower, ← unitAt_lower, h]
  · intro h
    apply text_ext (hpos hcs) (hpos hds)
    intro i
    rw [unitAt_lower, unitAt_lower, h]

/-- The call compares texts as their units tell them apart. -/
theorem foldText_ne_iff (hlower : LowersAscii lower) {cs ds : List Nat} (hcs : ∀ c ∈ cs, 0 < c ∧ c < 0x10000)
    (hds : ∀ d ∈ ds, 0 < d ∧ d < 0x10000) :
    foldText lower caseInSensitive cs ≠ foldText lower caseInSensitive ds ↔ ToldApart lower caseInSensitive cs ds := by
  by_cases hci : caseInSensitive = 0
  · unfold ToldApart foldText comparedAt
    simp only [hci, true_or, if_true]
    rw [ne_eq, decodeUnits_eq_iff hcs hds, not_forall]
  · by_cases hascii : ∀ c ∈ cs ++ ds, c < 0x80
    · rw [foldText_ascii hlower hci fun c hc => hascii c (List.mem_append_left _ hc),
        foldText_ascii hlower hci fun d hd => hascii d (List.mem_append_right _ hd), ne_eq,
        lower_eq_iff (fun c hc => (hcs c hc).1) fun d hd => (hds d hd).1, ToldApart, if_pos (Or.inr hascii), not_forall]
      unfold comparedAt
      simp only [if_neg hci, ne_eq]
    · rw [ToldApart, if_neg (not_or.mpr ⟨hci, hascii⟩), foldText, foldText, if_neg hci, if_neg hci]

theorem takeWhile_lower (us : List Nat) :
    (us.takeWhile (· ≠ 0)).map lowerUnit = (us.map lowerUnit).takeWhile (· ≠ 0) := by
  rw [List.takeWhile_map]
  congr 2
  funext u
  exact decide_eq_decide.mpr (not_congr lowerUnit_eq_zero.symm)

/-- Equal arrays that are not empty have one text. -/
theorem foldText_same (hlower : LowersAscii lower) (hascii : caseInSensitive ≠ 0 → ∀ u ∈ us ++ vs, u < 0x80)
    {a b : Nat} {cs ds : List Nat} (hcs : g.TextAt 2 a us cs) (hds : g.TextAt 2 b vs ds) (hne : ¬(us = [] ∧ vs = []))
    (h : foldUnits caseInSensitive us = foldUnits caseInSensitive vs) :
    foldText lower caseInSensitive cs = foldText lower caseInSensitive ds := by
  have hempty : us = [] ↔ vs = [] := by
    unfold foldUnits at h
    split at h
    next => rw [h]
    next => rw [← List.map_eq_nil_iff, h, List.map_eq_nil_iff]
  have hus : us ≠ [] := fun hus => hne ⟨hus, hempty.mp hus⟩
  have hvs : vs ≠ [] := fun hvs => hus (hempty.mpr hvs)
  unfold TextAt at hcs hds
  rw [if_neg hus] at hcs
  rw [if_neg hvs] at hds
  rw [hcs, hds]
  by_cases hci : caseInSensitive = 0
  · rw [foldUnits, foldUnits, if_pos hci, if_pos hci] at h
    rw [h]
  · rw [foldUnits, foldUnits, if_neg hci, if_neg hci] at h
    have hlt : ∀ u ∈ us.takeWhile (· ≠ 0), u < 0x80 := fun u hu =>
      hascii hci u (List.mem_append_left _ ((List.takeWhile_sublist _).mem hu))
    have hlt' : ∀ v ∈ vs.takeWhile (· ≠ 0), v < 0x80 := fun v hv =>
      hascii hci v (List.mem_append_right _ ((List.takeWhile_sublist _).mem hv))
    rw [foldText_ascii hlower hci hlt, foldText_ascii hlower hci hlt', takeWhile_lower, takeWhile_lower, h]

theorem Counted.readUnicodeString_eq (h : g.Counted arch string1 s1 (charBytes 2 us)) (fuel : Nat) :
    g.readUnicodeString arch fuel string1 = (g.readUnits 2 us.length fuel s1.buffer 0).map
      fun us => (decodeUnits ByteMemory.replace us).filter (· ≠ 0) := by
  have hlen : s1.length / 2 = us.length := by
    rw [h.length, charBytes_length]
    omega
  unfold readUnicodeString
  rw [h.header.castAt_eq]
  show g.readWideString fuel s1.buffer (s1.length / 2) = _
  rw [hlen]
  rfl

/-- The call after both reads. -/
theorem equal_call {fuel : Nat} {cs ds : List Nat} (h : g.HasHeader arch string1 s1)
    (hcs : g.readUnicodeString arch fuel string1 = .ok (decodeUnits ByteMemory.replace cs))
    (hds : g.readUnicodeString arch fuel string2 = .ok (decodeUnits ByteMemory.replace ds)) :
    g.rtlEqualUnicodeString arch lower fuel string1 string2 caseInSensitive =
      .ok (decide (foldText lower caseInSensitive cs = foldText lower caseInSensitive ds)).toNat := by
  unfold rtlEqualUnicodeString foldText
  rw [h.castAt_eq, hcs, hds]
  by_cases hci : caseInSensitive = 0
  · simp only [bind, Except.bind, pure, Except.pure, hci, ne_eq, not_true_eq_false, if_false, if_true]
  · simp only [bind, Except.bind, pure, Except.pure, hci, ne_eq, not_false_eq_true, if_true, if_false]

theorem rtlEqualUnicodeString_iff (hlower : LowersAscii lower)
    (hascii : caseInSensitive ≠ 0 → ∀ u ∈ us ++ vs, u < 0x80) (h1 : g.Counted arch string1 s1 (charBytes 2 us))
    (h2 : g.Counted arch string2 s2 (charBytes 2 vs)) (hus : ∀ u ∈ us, u < 0x10000) (hvs : ∀ v ∈ vs, v < 0x10000) :
    EqualLaw arch lower g string1 string2 caseInSensitive us vs ↔
      EqualSound lower g caseInSensitive s1 s2 us vs := by
  have hanswer : ∀ p : Prop, ∀ _ : Decidable p, (decide p).toNat ≠ 0 ↔ p := by
    intro p _
    by_cases hp : p <;> simp [hp]
  constructor
  · rintro ⟨fuel, b, heq, hb⟩
    cases hread1 : g.readUnicodeString arch fuel string1 with
    | error e =>
      unfold rtlEqualUnicodeString at heq
      rw [h1.header.castAt_eq, hread1] at heq
      cases heq
    | ok text1 =>
      cases hread2 : g.readUnicodeString arch fuel string2 with
      | error e =>
        unfold rtlEqualUnicodeString at heq
        rw [h1.header.castAt_eq, hread1, hread2] at heq
        cases heq
      | ok text2 =>
        have hinv1 := hread1
        have hinv2 := hread2
        rw [h1.readUnicodeString_eq] at hinv1
        rw [h2.readUnicodeString_eq] at hinv2
        obtain ⟨cs, hcs, rfl⟩ := readText_inv wideText (h1.array hus) hinv1
        obtain ⟨ds, hds, rfl⟩ := readText_inv wideText (h2.array hvs) hinv2
        have htold := @foldText_ne_iff _ caseInSensitive hlower _ _ (textAt_chars (h1.array hus) hcs)
          (textAt_chars (h2.array hvs) hds)
        rw [equal_call h1.header hread1 hread2] at heq
        obtain rfl := Except.ok.inj heq
        rw [hanswer] at hb
        refine ⟨cs, ds, hcs, hds, fun hu hv => ?_, fun hne => htold.mp fun htext => hne (hb.mp htext)⟩
        rw [← htold, not_not, hb, hu, hv]
  · rintro ⟨cs, ds, hcs, hds, hempty, hother⟩
    have htold := @foldText_ne_iff _ caseInSensitive hlower _ _ (textAt_chars (h1.array hus) hcs)
      (textAt_chars (h2.array hvs) hds)
    have hread1 := readText_eq wideText (h1.array hus) hcs
      (show us.length + cs.length + 1 < us.length + cs.length + vs.length + ds.length + 2 by omega)
    have hread2 := readText_eq wideText (h2.array hvs) hds
      (show vs.length + ds.length + 1 < us.length + cs.length + vs.length + ds.length + 2 by omega)
    rw [← h1.readUnicodeString_eq] at hread1
    rw [← h2.readUnicodeString_eq] at hread2
    refine ⟨_, _, equal_call h1.header hread1 hread2, ?_⟩
    rw [hanswer]
    refine ⟨fun htext => by_contra fun hne => htold.mpr (hother hne) htext, fun hsame => ?_⟩
    by_cases hnil : us = [] ∧ vs = []
    · exact not_not.mp fun hne => hempty hnil.1 hnil.2 (htold.mp hne)
    · exact foldText_same hlower hascii hcs hds hnil hsame

section Law

variable [LawfulPageEngine ε] {outside : Nat → Prop} {limit : Nat}

/-- Which calls give the counted strings that their sources stand for: the copy and the appends always, and the
others exactly when their condition holds. -/
theorem countedStrings_law_iff (hi : g.mgr.Inv outside) (he : env.Limited limit) (hb : g.mgr.Below limit)
    (hlimit : limit < 256 ^ arch.ptrSize) :
    (∀ dst src us, src ≠ 0 → src < 256 ^ arch.ptrSize → g.MappedString 2 src us → g.RangeMapped dst (size arch) →
      (InitLaw arch g dst src us ↔ pairCount us = 0 ∧ us.length < 0x8000)) ∧
    (∀ dst src allocate s d cs, g.Counted arch src s (charBytes 1 cs) → (∀ c ∈ cs, c < 0x80) →
      g.HasHeader arch dst d → (allocate = 0 → g.RangeMapped d.buffer d.maximumLength) →
      (AnsiLaw arch env g dst src allocate d cs ↔ AnsiSound env g allocate s d cs)) ∧
    (∀ dst src d s data, g.Destination arch dst d →
      src = 0 ∧ data = [] ∨ src ≠ 0 ∧ g.Counted arch src s data →
      ∃ t, g.rtlCopyUnicodeString arch dst src = .ok t ∧ Stored arch g t dst
        { d with length := (data.take d.maximumLength).length } 0 (data.take d.maximumLength)) ∧
    (∀ dst src d us, g.Destination arch dst d → src = 0 ∧ us = [] ∨ src ≠ 0 ∧ g.MappedString 2 src us →
      ∃ fuel status t, g.rtlAppendUnicodeToString arch fuel dst src = .ok (status, t) ∧
        Appended arch g dst d (charBytes 2 us) status t) ∧
    (∀ dst src d s data, g.Destination arch dst d → g.Counted arch src s data →
      ∃ status t, g.rtlAppendUnicodeStringToString arch dst src = .ok (status, t) ∧
        Appended arch g dst d data status t) ∧
    (∀ flags src dst s data, src ≠ 0 → dst ≠ 0 → g.Counted arch src s data → s.length ≤ s.maximumLength →
      g.RangeMapped dst (size arch) →
      (DuplicateLaw arch env g flags src dst data ↔ DuplicateSound env g flags data)) ∧
    (∀ lower string1 string2 caseInSensitive s1 s2 us vs, g.Counted arch string1 s1 (charBytes 2 us) →
      g.Counted arch string2 s2 (charBytes 2 vs) → (∀ u ∈ us, u < 0x10000) → (∀ v ∈ vs, v < 0x10000) →
      LowersAscii lower → (caseInSensitive ≠ 0 → ∀ u ∈ us ++ vs, u < 0x80) →
      (EqualLaw arch lower g string1 string2 caseInSensitive us vs ↔
        EqualSound lower g caseInSensitive s1 s2 us vs)) :=
  ⟨fun _ _ _ => rtlInitUnicodeString_iff, fun _ _ _ _ _ _ => rtlAnsiStringToUnicodeString_iff hi he hb hlimit,
    fun _ _ _ _ _ => rtlCopyUnicodeString_spec, fun _ _ _ _ => rtlAppendUnicodeToString_spec,
    fun _ _ _ _ _ => rtlAppendUnicodeStringToString_spec,
    fun _ _ _ _ _ => rtlDuplicateUnicodeString_iff hi he hb hlimit,
    fun _ _ _ _ _ _ _ _ h1 h2 hus hvs hlower hascii => rtlEqualUnicodeString_iff hlower hascii h1 h2 hus hvs⟩

end Law

/-- A page with the NUL-terminated text "A\\U0001F600", strings of its first unit and of all three, and a string
with room for four units. -/
def stringBytes : List UInt8 :=
  [0x41, 0, 0x3D, 0xD8, 0, 0xDE, 0, 0, 2, 0, 2, 0, 0, 0, 1, 0, 6, 0, 6, 0, 0, 0, 1, 0, 0, 0, 8, 0, 0x80, 0, 1, 0,
    1, 0, 1, 0, 0, 0, 1, 0]

def stringGuest : GuestMemory RegionEngine :=
  ⟨(memMap DriverState.driverEnv (MemoryManager.init emptyEngine) { size := 0x1000 }).2,
    ByteMemory.writeBytes (fun _ => 0) 0x10000 stringBytes⟩

theorem counted_stringGuest : stringGuest.Counted .x86 0x10008 ⟨2, 2, [], 0x10000⟩ [0x41, 0] ∧
    stringGuest.Counted .x86 0x10010 ⟨6, 6, [], 0x10000⟩ [0x41, 0, 0x3D, 0xD8, 0, 0xDE] ∧
    stringGuest.Counted .x86 0x10020 ⟨1, 1, [], 0x10000⟩ [0x41] :=
  ⟨⟨⟨by decide, by decide⟩, rfl, by decide, rfl, by decide⟩,
    ⟨⟨by decide, by decide⟩, rfl, by decide, rfl, by decide⟩,
    ⟨⟨by decide, by decide⟩, rfl, by decide, rfl, by decide⟩⟩

theorem destination_stringGuest : stringGuest.Destination .x86 0x10018 ⟨0, 8, [], 0x10080⟩ :=
  ⟨⟨by decide, by decide⟩, by decide, by decide, by decide⟩

theorem mappedString_stringGuest : stringGuest.MappedString 2 0x10000 [0x41, 0xD83D, 0xDE00] :=
  ⟨⟨rfl, by decide⟩, by decide⟩

theorem countedStrings_law_iff_stringGuest :
    (InitLaw .x86 stringGuest 0x10018 0x10000 [0x41, 0xD83D, 0xDE00] ↔
      pairCount [0x41, 0xD83D, 0xDE00] = 0 ∧ 3 < 0x8000) ∧
    (AnsiLaw .x86 DriverState.driverEnv stringGuest 0x10018 0x10020 1 ⟨0, 8, [], 0x10080⟩ [0x41] ↔
      AnsiSound DriverState.driverEnv stringGuest 1 ⟨1, 1, [], 0x10000⟩ ⟨0, 8, [], 0x10080⟩ [0x41]) ∧
    EqualLaw .x86 (List.map lowerUnit) stringGuest 0x10008 0x10010 0 [0x41] [0x41, 0xD83D, 0xDE00] ∧
    EqualLaw .x86 (List.map lowerUnit) stringGuest 0x10008 0x10008 1 [0x41] [0x41] := by
  obtain ⟨hinit, hansi, -, -, -, -, hequal⟩ := @countedStrings_law_iff RegionEngine _ .x86
    DriverState.driverEnv stringGuest _ (Mapped emptyEngine) 0x7FFF0000 (memMap_inv (inv_init emptyEngine) _)
    ⟨rfl, by simp [DriverState.driverEnv]⟩
    (memMap_below ⟨rfl, by simp [DriverState.driverEnv]⟩ ⟨by decide, fun h => absurd rfl h⟩ _) (by decide)
  obtain ⟨hone, hthree, hchar⟩ := counted_stringGuest
  exact ⟨hinit _ _ _ (by decide) (by decide) mappedString_stringGuest (by decide),
    hansi _ _ _ _ _ _ hchar (by decide) destination_stringGuest.header (by decide),
    (hequal _ _ _ _ _ _ _ _ hone hthree (by decide) (by decide) (fun _ _ => rfl) (by decide)).mpr
      ⟨[0x41], [0x41, 0xD83D, 0xDE00], by simp [TextAt], by simp [TextAt], fun h => (by cases h),
        fun _ => (if_pos (Or.inl rfl)).mpr ⟨1, by decide⟩⟩,
    (hequal _ _ _ _ _ _ _ _ hone hone (by decide) (by decide) (fun _ _ => rfl) (by decide)).mpr
      ⟨[0x41], [0x41], by simp [TextAt], by simp [TextAt], fun h => (by cases h), fun hne => absurd rfl hne⟩⟩

/-- The length of a text with a surrogate pair counts the pair as one unit. -/
theorem rtlInitUnicodeString_pair : ¬InitLaw .x86 stringGuest 0x10018 0x10000 [0x41, 0xD83D, 0xDE00] := by
  intro h
  have hpairs := ((rtlInitUnicodeString_iff (by decide) (by decide) mappedString_stringGuest (by decide)).mp h).1
  exact absurd hpairs (by decide)

end GuestMemory

end Speakeasy
