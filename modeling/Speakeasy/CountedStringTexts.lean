import Speakeasy.CountedStringWrites

namespace Speakeasy

open PageEngine MemoryManager CountedString

namespace GuestMemory

variable {ε : Type} [PageEngine ε] {arch : Arch} {env : MemEnv} {g : GuestMemory ε} {a dst src : Nat}
  {s d : CountedString} {data : List UInt8} {cs us : List Nat}

section Append

/-- A destination gets the units of a NUL-terminated array, or nothing. -/
theorem rtlAppendUnicodeToString_spec (hd : g.Destination arch dst d)
    (hs : src = 0 ∧ us = [] ∨ src ≠ 0 ∧ g.MappedString 2 src us) :
    ∃ fuel status t, g.rtlAppendUnicodeToString arch fuel dst src = .ok (status, t) ∧
      Appended arch g dst d (charBytes 2 us) status t := by
  rcases hs with ⟨rfl, rfl⟩ | ⟨hsrc, hs⟩
  · refine ⟨0, statusSuccess, g.logged, rfl, ?_⟩
    exact
      { fits := iff_of_true rfl hd.le
        error := fun h => absurd rfl h
        stored := fun _ =>
          { header := hd.header.cast
            length := rfl
            le := hd.le
            log := rfl
            inside := fun w hw => absurd hw List.not_mem_nil
            text := fun i hi => absurd hi (Nat.not_lt_zero i) } }
  · obtain ⟨status, t, hcall, happended⟩ := appendToUnicodeString_spec hd (charBytes 2 us)
    refine ⟨us.length + 1, status, t, ?_, happended⟩
    have hmapped : g.RangeMapped src (us.length * 2) := hs.mapped.mono (by omega)
    have hread : g.bytes.readBytes src (us.length * 2) = charBytes 2 us := by
      have hpart := @ByteMemory.Holds.part _ _ 0 (us.length * 2) _ hs.array.holds
        (by rw [charBytes_length, List.length_append, List.length_singleton]; omega)
      rwa [Nat.add_zero, List.drop_zero, charBytes_append, List.take_left' (charBytes_length 2 us)] at hpart
    unfold rtlAppendUnicodeToString
    rw [if_neg hsrc, memStringLen_eq hs (Nat.lt_succ_self _)]
    simp only [bind, Except.bind, readArray_eq hmapped, hread, hcall]

/-- A destination gets all bytes of a counted array, or nothing. -/
theorem rtlAppendUnicodeStringToString_spec (hd : g.Destination arch dst d) (hs : g.Counted arch src s data) :
    ∃ status t, g.rtlAppendUnicodeStringToString arch dst src = .ok (status, t) ∧
      Appended arch g dst d data status t := by
  obtain ⟨status, t, hcall, happended⟩ := appendToUnicodeString_spec hd data
  refine ⟨status, t, ?_, happended⟩
  unfold rtlAppendUnicodeStringToString
  rw [hs.header.castAt_eq]
  by_cases hread : s.buffer ≠ 0 ∧ s.length ≠ 0
  · simp only [bind, Except.bind, if_pos hread, hs.readArray_eq, hcall]
  · have hempty : data = [] := by
      by_cases hnull : s.buffer = 0
      · exact hs.nonnull hnull
      · have hlen := hs.length
        exact List.length_eq_zero_iff.mp (by omega)
    rw [hempty] at hcall
    simp only [bind, Except.bind, pure, Except.pure, if_neg hread, hcall]

end Append

section Duplicate

/-- The bytes of a duplicate. -/
def duplicateData (flags : Nat) (data : List UInt8) : List UInt8 := if flags % 2 = 1 then data ++ [0, 0] else data

/-- A duplicate is a copy of all bytes of its source; a call with other flags does nothing. -/
def DuplicateLaw (arch : Arch) (env : MemEnv) (g : GuestMemory ε) (flags src dst : Nat) (data : List UInt8) : Prop :=
  ∃ status t, g.rtlDuplicateUnicodeString arch env flags src dst = .ok (status, t) ∧
    (status = statusSuccess ↔ flags ≠ 2 ∧ flags ≤ 3) ∧ (status ≠ statusSuccess → t = g.logged) ∧
    (status = statusSuccess → ∃ d, Stored arch g t dst d 0 data)

/-- A duplicate with its NUL has a length of 16 bits, and there is memory for it. -/
def DuplicateSound (env : MemEnv) (g : GuestMemory ε) (flags : Nat) (data : List UInt8) : Prop :=
  flags ≠ 2 → flags ≤ 3 → data ≠ [] ∨ flags = 3 → (duplicateData flags data).length < 0x10000 ∧
    ∃ r, g.logged.memAlloc env (duplicateData flags data).length "api.struct.UNICODE_STRING".toList = .ok r

theorem duplicateData_eq (flags : Nat) (data : List UInt8) : ∃ more, duplicateData flags data = data ++ more := by
  unfold duplicateData
  split
  next => exact ⟨[0, 0], rfl⟩
  next => exact ⟨[], (List.append_nil data).symm⟩

theorem rtlDuplicateUnicodeString_iff [LawfulPageEngine ε] {outside : Nat → Prop} {limit flags : Nat}
    (hi : g.mgr.Inv outside) (he : env.Limited limit) (hb : g.mgr.Below limit)
    (hlimit : limit < 256 ^ arch.ptrSize) (hsrc : src ≠ 0) (hdst : dst ≠ 0) (hs : g.Counted arch src s data)
    (hle : s.length ≤ s.maximumLength) (hmapped : g.RangeMapped dst (size arch)) :
    DuplicateLaw arch env g flags src dst data ↔ DuplicateSound env g flags data := by
  have hread : g.countedData s = .ok data := by
    unfold countedData
    split
    next => exact hs.readArray_eq
    next hzero =>
      have hempty : data = [] := List.length_eq_zero_iff.mp (by rw [← hs.length]; omega)
      rw [hempty]
  by_cases hflags : flags = 2 ∨ 3 < flags
  · refine iff_of_true ⟨statusInvalidParameter, g.logged, ?_, iff_of_false (by decide) (by omega), fun _ => rfl,
      fun h => by cases h⟩ (by unfold DuplicateSound; omega)
    exact if_pos (Or.inr (Or.inr hflags))
  · have hvalid : ¬(src = 0 ∨ dst = 0 ∨ flags = 2 ∨ 3 < flags) := by omega
    have hcounted : ¬(s.maximumLength < s.length ∨ s.length ≠ 0 ∧ s.buffer = 0) := by
      rintro (hlt | ⟨hne, hnull⟩)
      · omega
      · have hempty := hs.nonnull hnull
        rw [hempty] at hs
        exact hne hs.length
    by_cases hcopy : data ≠ [] ∨ flags = 3
    · have hcall : g.rtlDuplicateUnicodeString arch env flags src dst =
          (g.logged.memAlloc env (duplicateData flags data).length "api.struct.UNICODE_STRING".toList).bind
            fun r => (r.2.storeString arch dst ((CountedString.setLength { CountedString.new arch with buffer := r.1 }
              s.length).setMaximumLength (duplicateData flags data).length) (duplicateData flags data)).bind
              fun t => .ok (statusSuccess, t) := by
        unfold rtlDuplicateUnicodeString
        rw [if_neg hvalid, hs.header.castAt_eq]
        simp only [bind, Except.bind, if_neg hcounted, hread, if_pos hcopy]
        rfl
      have hfits : ∀ ptr < 256 ^ arch.ptrSize, (CountedString.setMaximumLength
          (CountedString.setLength { CountedString.new arch with buffer := ptr } s.length)
          (duplicateData flags data).length).Fits arch := fun ptr hptr =>
        (((fits_new arch).setBuffer hptr).setLength _).setMaximumLength _
      have hlen : s.length % 0x10000 = data.length := by
        rw [Nat.mod_eq_of_lt hs.header.fits.length, hs.length]
      obtain ⟨more, hmore⟩ := duplicateData_eq flags data
      constructor
      · rintro ⟨status, t, heq, -, -, hstored⟩ - - -
        rw [hcall] at heq
        cases halloc : g.logged.memAlloc env (duplicateData flags data).length
            "api.struct.UNICODE_STRING".toList with
        | error e =>
          rw [halloc] at heq
          cases heq
        | ok r =>
          refine ⟨?_, r, rfl⟩
          rw [halloc] at heq
          obtain ⟨ptr, t'⟩ := r
          simp only [Except.bind] at heq
          split at heq
          next => cases heq
          next u hu =>
            obtain ⟨-, -, rfl⟩ := LoggedGuest.storeString_ok_iff.mp hu
            obtain ⟨rfl, rfl⟩ := Prod.mk.inj (Except.ok.inj heq)
            obtain ⟨-, hwrites, -, hptr, -⟩ := LoggedGuest.memAlloc_ok arch hi he hb hlimit halloc
            obtain ⟨d, hd⟩ := hstored rfl
            have hinside := (stored_inv (hfits ptr hptr) hd).2
            have hmod : (duplicateData flags data).length ≤ 16 ∨
                (duplicateData flags data).length ≤ (duplicateData flags data).length % 0x10000 := hinside
            omega
      · intro hsound
        obtain ⟨hlt, ⟨ptr, t⟩, halloc⟩ := hsound (fun h => hflags (Or.inl h)) (by omega) hcopy
        obtain ⟨hbytes, hwrites, hnew, hptr, hkept⟩ :=
          LoggedGuest.memAlloc_ok arch hi he hb hlimit halloc
        have hmax : (duplicateData flags data).length % 0x10000 = (duplicateData flags data).length :=
          Nat.mod_eq_of_lt hlt
        have hstored := stored_wrote (g := g) (a := dst) hbytes hwrites (hfits ptr hptr) more hlen
          (by rw [← hmore]; exact Nat.le_of_eq hmax.symm)
        rw [← hmore] at hstored
        refine ⟨statusSuccess, _, ?_, iff_of_true rfl (by omega), fun h => absurd rfl h, fun _ => ⟨_, hstored⟩⟩
        rw [hcall, halloc]
        simp only [Except.bind]
        rw [LoggedGuest.storeString_ok_iff.mpr ⟨hnew, ?_, rfl⟩]
        rw [bytes_length (hfits ptr hptr).padding]
        exact hkept _ _ hmapped
    · have hempty : data = [] := by
        by_contra hne
        exact hcopy (Or.inl hne)
      refine iff_of_true ⟨statusSuccess, g.logged.wrote dst ((CountedString.new arch).bytes arch), ?_,
        iff_of_true rfl (by omega), fun h => absurd rfl h, fun _ => ⟨CountedString.new arch, ?_⟩⟩
        fun _ _ hneed => absurd hneed hcopy
      · unfold rtlDuplicateUnicodeString
        rw [if_neg hvalid, hs.header.castAt_eq]
        simp only [bind, Except.bind, if_neg hcounted, hread, if_neg hcopy]
        rw [LoggedGuest.memWrite_ok]
        · rfl
        · rw [bytes_length (fits_new arch).padding]
          exact hmapped
      · rw [hempty]
        exact stored_empty (fits_new arch) rfl

end Duplicate

end GuestMemory

/-- A decoder that drops the NUL of a text, and nothing else. -/
structure NulText (width : Nat) (dec : List Nat → List Nat) : Prop where
  keep : ∀ cs, (∀ c ∈ cs, 0 < c ∧ c < 256 ^ width) → (dec cs).filter (· ≠ 0) = dec cs
  drop : ∀ cs, (∀ c ∈ cs, 0 < c ∧ c < 256 ^ width) → (dec (cs ++ [0])).filter (· ≠ 0) = dec cs

theorem wideText : NulText 2 (decodeUnits ByteMemory.replace) where
  keep cs h := ByteMemory.filter_decodeUnits fun c hc => (h c hc).1
  drop cs h := by
    have hkeep := @ByteMemory.filter_decodeUnits cs fun c hc => (h c hc).1
    rw [decodeUnits_split cs [] (by decide), List.filter_append, hkeep]
    exact List.append_nil _

theorem decodeAnsiChar_pos {c : Nat} (h : 0 < c ∧ c < 256 ^ 1) : decodeAnsiChar c ≠ 0 := by
  unfold decodeAnsiChar
  split
  next hblock =>
    have hle := (@ansiBlock_get (c - 0x80) (by omega)).1
    omega
  next => omega

theorem ansiText : NulText 1 (List.map decodeAnsiChar) where
  keep cs h := by
    apply List.filter_eq_self.mpr
    intro c hc
    obtain ⟨b, hb, rfl⟩ := List.mem_map.mp hc
    exact decide_eq_true (decodeAnsiChar_pos (h b hb))
  drop cs h := by
    have hkeep : (cs.map decodeAnsiChar).filter (· ≠ 0) = cs.map decodeAnsiChar := by
      apply List.filter_eq_self.mpr
      intro c hc
      obtain ⟨b, hb, rfl⟩ := List.mem_map.mp hc
      exact decide_eq_true (decodeAnsiChar_pos (h b hb))
    rw [List.map_append, List.filter_append, hkeep]
    exact List.append_nil _

namespace GuestMemory

variable {ε : Type} [PageEngine ε] {arch : Arch} {env : MemEnv} {g : GuestMemory ε} {width a dst src : Nat}
  {s d : CountedString} {cs us : List Nat} {dec : List Nat → List Nat}

/-- The units that the read of a counted array sees: those before its first zero, and for an empty array the
NUL-terminated array at its buffer. -/
def TextAt (g : GuestMemory ε) (width a : Nat) (us cs : List Nat) : Prop :=
  if us = [] then g.MappedString width a cs else cs = us.takeWhile (· ≠ 0)

theorem takeWhile_chars (h : g.MappedArray width a us) :
    ∀ c ∈ us.takeWhile (· ≠ 0), 0 < c ∧ c < 256 ^ width := by
  intro c hc
  have htrue := List.mem_takeWhile_imp hc
  rw [decide_eq_true_eq] at htrue
  have hne : c ≠ 0 := htrue
  exact ⟨Nat.pos_of_ne_zero hne, h.lt c ((List.takeWhile_sublist _).mem hc)⟩

theorem textAt_chars {text : List Nat} (h : g.MappedArray width a us) (ht : g.TextAt width a us text) :
    ∀ c ∈ text, 0 < c ∧ c < 256 ^ width := by
  unfold TextAt at ht
  split at ht
  next => exact ht.holds.chars
  next =>
    rw [ht]
    exact takeWhile_chars h

/-- The text of a counted array. -/
theorem readText_eq {fuel : Nat} (hdec : NulText width dec) (h : g.MappedArray width a us)
    (ht : g.TextAt width a us cs) (hfuel : us.length + cs.length + 1 < fuel) :
    (g.readUnits width us.length fuel a 0).map (fun us => (dec us).filter (· ≠ 0)) = .ok (dec cs) := by
  unfold TextAt at ht
  split at ht
  next hempty =>
    subst hempty
    have hlen : (cs ++ [0]).length < fuel := by
      rw [List.length_append, List.length_singleton]
      omega
    have hread : g.readUnits width 0 fuel a 0 = .ok (untilNul (cs ++ [0])) :=
      readUnits_array ht.array hlen (Or.inl ⟨rfl, List.mem_append_right _ List.mem_cons_self⟩)
    have hall : untilNul (cs ++ [0]) = cs ++ [0] := by
      rw [untilNul_of_mem (List.mem_append_right _ List.mem_cons_self), List.takeWhile_append_of_pos]
      · simp
      · intro c hc
        exact decide_eq_true (Nat.pos_iff_ne_zero.mp (ht.holds.chars c hc).1)
    rw [List.length_nil, hread, hall]
    exact congrArg Except.ok (hdec.drop cs ht.holds.chars)
  next hne =>
    have hpos := List.length_pos_iff.mpr hne
    rw [readUnits_array h (by omega) (Or.inr ⟨by omega, (Nat.zero_add _).symm⟩), ht]
    refine congrArg Except.ok ?_
    show (dec (untilNul us)).filter (· ≠ 0) = _
    by_cases hzero : 0 ∈ us
    · rw [untilNul_of_mem hzero]
      exact hdec.drop _ (takeWhile_chars h)
    · rw [untilNul_of_not_mem hzero]
      have hkeep := hdec.keep _ (takeWhile_chars h)
      rwa [takeWhile_of_not_mem hzero] at hkeep ⊢

/-- What is read of a counted array is its text. -/
theorem readText_inv {fuel : Nat} {text : List Nat} (hdec : NulText width dec) (h : g.MappedArray width a us)
    (heq : (g.readUnits width us.length fuel a 0).map (fun us => (dec us).filter (· ≠ 0)) = .ok text) :
    ∃ cs, g.TextAt width a us cs ∧ text = dec cs := by
  cases hr : g.readUnits width us.length fuel a 0 with
  | error e =>
    rw [hr] at heq
    cases heq
  | ok r =>
    obtain ⟨cs, hcs⟩ : ∃ cs, g.TextAt width a us cs := by
      unfold TextAt
      split
      next hempty =>
        subst hempty
        obtain ⟨cs, hcs, -⟩ := readUnits_string hr
        exact ⟨cs, hcs⟩
      next => exact ⟨_, rfl⟩
    have hbig := readText_eq hdec h hcs (Nat.lt_succ_self _)
    cases hr' : g.readUnits width us.length (us.length + cs.length + 1).succ a 0 with
    | error e =>
      rw [hr'] at hbig
      cases hbig
    | ok r' =>
      rw [hr', ← readUnits_det hr hr', ← hr, heq] at hbig
      exact ⟨cs, hcs, Except.ok.inj hbig⟩

theorem holds_get {m : ByteMemory} {bs : List UInt8} (h : m.Holds a bs) {i : Nat} (hi : i < bs.length) :
    m (a + i) = bs[i] := by
  have hget := congrArg (fun xs => xs[i]?) h
  simp only [ByteMemory.readBytes, List.getElem?_map, List.getElem?_range hi, Option.map_some,
    List.getElem?_eq_getElem hi] at hget
  exact Option.some.inj hget

section Init

/-- The length is that of the units before the NUL, and nothing but the structure changes. -/
def InitLaw (arch : Arch) (g : GuestMemory ε) (dst src : Nat) (us : List Nat) : Prop :=
  ∃ fuel t d, g.rtlInitUnicodeString arch fuel dst src = .ok t ∧ d.buffer = src ∧
    Stored arch g t dst d 0 (charBytes 2 us)

/-- The structure of a text. -/
def initString (arch : Arch) (src : Nat) (text : List Nat) : CountedString :=
  { ((CountedString.new arch).setLength (text.length * 2)).setMaximumLength (text.length * 2) with buffer := src }

theorem rtlInitUnicodeString_iff (hsrc : src ≠ 0) (hlt : src < 256 ^ arch.ptrSize) (hs : g.MappedString 2 src us)
    (hdst : g.RangeMapped dst (size arch)) :
    InitLaw arch g dst src us ↔ pairCount us = 0 ∧ us.length < 0x8000 := by
  have hgroups := length_unitGroups us
  have hfits : ∀ text, (initString arch src text).Fits arch := fun text =>
    (((fits_new arch).setLength _).setMaximumLength _).setBuffer hlt
  have hempty : g.MappedArray 2 src [] := ⟨rfl, fun i hi => by simp at hi, by simp⟩
  have hcall : ∀ fuel, g.rtlInitUnicodeString arch fuel dst src =
      (g.readWideString fuel src 0).bind fun text => g.logged.memWrite dst ((initString arch src text).bytes arch) :=
    fun fuel => if_pos hsrc
  have hwrite : ∀ text, g.logged.memWrite dst ((initString arch src text).bytes arch) =
      .ok (g.logged.wrote dst ((initString arch src text).bytes arch)) := fun text =>
    LoggedGuest.memWrite_ok (by rw [bytes_length (hfits text).padding]; exact hdst)
  have htext : ∀ fuel text, g.readWideString fuel src 0 = .ok text → text = decodeUnits ByteMemory.replace us := by
    intro fuel text hread
    have hbig : (g.readUnits 2 [].length (us.length + 2) src 0).map
        (fun us => (decodeUnits ByteMemory.replace us).filter (· ≠ 0)) = .ok (decodeUnits ByteMemory.replace us) :=
      readText_eq wideText hempty hs (by rw [List.length_nil]; omega)
    unfold readWideString at hread
    cases hr : g.readUnits 2 0 fuel src 0 with
    | error e =>
      rw [hr] at hread
      cases hread
    | ok r =>
      cases hr' : g.readUnits 2 0 (us.length + 2) src 0 with
      | error e =>
        rw [List.length_nil, hr'] at hbig
        cases hbig
      | ok r' =>
        rw [List.length_nil, hr', ← readUnits_det hr hr', ← hr, hread] at hbig
        exact Except.ok.inj hbig
  constructor
  · rintro ⟨fuel, t, d, heq, -, hstored⟩
    rw [hcall] at heq
    cases hread : g.readWideString fuel src 0 with
    | error e =>
      rw [hread] at heq
      cases heq
    | ok text =>
      rw [hread] at heq
      have heq' : g.logged.memWrite dst ((initString arch src text).bytes arch) = .ok t := heq
      rw [hwrite] at heq'
      obtain rfl := Except.ok.inj heq'
      have hd : d = initString arch src text :=
        hstored.header.symm.trans (LoggedGuest.stringAt_wrote (hfits text))
      have hlen := hstored.length
      rw [hd, charBytes_length, htext fuel text hread] at hlen
      have hlen' : (decodeUnits ByteMemory.replace us).length * 2 % 0x10000 = 0 + us.length * 2 := hlen
      rw [length_decodeUnits] at hlen'
      omega
  · rintro ⟨hpairs, hshort⟩
    have hread : g.readWideString (us.length + 2) src 0 = .ok (decodeUnits ByteMemory.replace us) :=
      readText_eq wideText hempty hs (by rw [List.length_nil]; omega)
    have hcount : (decodeUnits ByteMemory.replace us).length * 2 % 0x10000 = us.length * 2 := by
      rw [length_decodeUnits]
      omega
    refine ⟨us.length + 2, g.logged.wrote dst ((initString arch src (decodeUnits ByteMemory.replace us)).bytes arch),
      initString arch src (decodeUnits ByteMemory.replace us), ?_, rfl, ?_⟩
    · rw [hcall, hread]
      exact hwrite _
    · exact
        { header := LoggedGuest.stringAt_wrote (hfits _)
          length := by
            rw [charBytes_length, Nat.zero_add]
            exact hcount
          le := Nat.le_refl _
          log := rfl
          inside := by
            intro w hw
            rw [List.mem_singleton.mp (show w ∈ [(dst, (initString arch src _).bytes arch)] from hw)]
            exact Or.inl ⟨Nat.le_refl _, Nat.le_of_eq (congrArg (dst + ·) (bytes_length (hfits _).padding))⟩
          text := by
            intro i hi hx
            have hkeep : (g.logged.wrote dst ((initString arch src (decodeUnits ByteMemory.replace us)).bytes
                arch)).guest.bytes (src + 0 + i) = g.bytes (src + 0 + i) := LoggedGuest.wrote_beyond (hfits _) hx
            have hholds := hs.holds.holds
            have hi' : i < (charBytes 2 (us ++ [0])).length := by
              rw [charBytes_append, List.length_append]
              omega
            have hget := holds_get hholds hi'
            refine hkeep.trans ?_
            rw [Nat.add_zero, hget]
            simp only [charBytes_append, List.getElem_append_left hi] }

end Init

end GuestMemory

end Speakeasy
