import Speakeasy.SecurePaths

namespace Speakeasy

open ByteMemory

variable {m : ByteMemory} {fuel width path n : Nat}

/-- A text whose first character is a surrogate pair. -/
def StartsWithPair (us : List Nat) : Prop :=
  ∃ h l rest, us = h :: l :: rest ∧ isHighSurrogate h ∧ isLowSurrogate l

section MadePaths

variable {drive directory fname ext : Option (List Nat)} {driveAt directoryAt fnameAt extAt : Nat}

theorem getMadePath_positive {lim : Nat} (hlim : 0x80 ≤ lim) (hdrive : ∀ u ∈ drive.getD [], 0 < u ∧ u < lim)
    (hdirectory : ∀ u ∈ directory.getD [], 0 < u ∧ u < lim) (hfname : ∀ u ∈ fname.getD [], 0 < u ∧ u < lim)
    (hext : ∀ u ∈ ext.getD [], 0 < u ∧ u < lim) :
    ∀ u ∈ getMadePath drive directory fname ext, 0 < u ∧ u < lim := by
  intro u hu
  unfold getMadePath at hu
  rcases List.mem_append.mp hu with hu | hu
  · rcases List.mem_append.mp hu with hu | hu
    · rcases List.mem_append.mp hu with hu | hu
      · match drive, hdrive, hu with
        | some (c :: rest), hdrive, hu =>
          rcases List.mem_cons.mp hu with rfl | hu
          · exact hdrive u List.mem_cons_self
          · rw [List.mem_singleton.mp hu]
            omega
      · match directory, hdirectory, hu with
        | some (c :: d), hdirectory, hu =>
          simp only [directoryPart] at hu
          split at hu
          next => exact hdirectory u hu
          next =>
            rcases List.mem_append.mp hu with hu | hu
            · exact hdirectory u hu
            · rw [List.mem_singleton.mp hu]
              omega
    · exact hfname u hu
  · match ext, hext, hu with
    | some (c :: e), hext, hu =>
      simp only [extPart] at hu
      split at hu
      next => exact hext u hu
      next =>
        rcases List.mem_cons.mp hu with rfl | hu
        · omega
        · exact hext u hu

theorem encodeText_nil (width : Nat) : encodeText width [] = [] := by
  unfold encodeText
  split
  next => rfl
  next => rfl

/-- The run of `make_path` on parts in memory. -/
theorem makePath_eq (hdrive : m.HoldsPart width driveAt drive) (hdirectory : m.HoldsPart width directoryAt directory)
    (hfname : m.HoldsPart width fnameAt fname) (hext : m.HoldsPart width extAt ext)
    (hfuel : ∀ part ∈ [drive, directory, fname, ext], (part.getD []).length < fuel) (hpath : ¬(path = 0 ∨ n = 0)) :
    m.makePath fuel width path (some n) driveAt directoryAt fnameAt extAt =
      some (if n ≤ (getMadePath (drive.map (decodeText width)) (directory.map (decodeText width))
          (fname.map (decodeText width)) (ext.map (decodeText width))).length
        then ⟨erange, [(path, pathPartChars width [])]⟩
        else ⟨0, [(path, pathPartChars width (getMadePath (drive.map (decodeText width))
          (directory.map (decodeText width)) (fname.map (decodeText width)) (ext.map (decodeText width))))]⟩) := by
  have hsize : ¬(path = 0 ∨ (some n : Option Nat) = some 0) := by
    rw [Option.some.injEq]
    exact hpath
  unfold makePath
  rw [if_neg hsize, readPathPart_eq hdrive (hfuel _ (by simp)), Option.bind_some,
    readPathPart_eq hdirectory (hfuel _ (by simp)), Option.bind_some, readPathPart_eq hfname (hfuel _ (by simp)),
    Option.bind_some, readPathPart_eq hext (hfuel _ (by simp)), Option.map_some]
  simp only [Option.any_some, decide_eq_true_eq]

theorem makepathS_staysInside (hdrive : m.HoldsPart 1 driveAt drive) (hdirectory : m.HoldsPart 1 directoryAt directory)
    (hfname : m.HoldsPart 1 fnameAt fname) (hext : m.HoldsPart 1 extAt ext)
    (hfuel : ∀ part ∈ [drive, directory, fname, ext], (part.getD []).length < fuel) (path n : Nat) :
    ∃ o, m.makepathS fuel path n driveAt directoryAt fnameAt extAt = some o ∧
      StaysInside m 1 path n 0 (getMadePath drive directory fname ext) o := by
  unfold makepathS
  by_cases hpath : path = 0 ∨ n = 0
  · refine ⟨_, if_pos ?_, staysInside_einval⟩
    rwa [Option.some.injEq]
  · have hdriven : encodeText 1 (drivePart (drive.map (decodeText 1))) = drivePart drive := by
      match drive, hdrive.chars with
      | none, _ => rfl
      | some [], _ => rfl
      | some (c :: rest), hchars =>
        have hc := encodeAnsiChar_decode (hchars c List.mem_cons_self).2
        have hcolon := ansiCoding.enc_mark 0x3A (Or.inr (Or.inr rfl))
        show encodeAnsiChar (decodeAnsiChar c) :: encodeText 1 [0x3A] = [c, 0x3A]
        rw [hc, hcolon]
    have hmade : encodeText 1 (getMadePath (drive.map (decodeText 1)) (directory.map (decodeText 1))
        (fname.map (decodeText 1)) (ext.map (decodeText 1))) = getMadePath drive directory fname ext := by
      rw [ansiCoding.getMadePath_dec drive (fun u hu => (hdirectory.chars u hu).2) (fun u hu => (hfname.chars u hu).2)
        fun u hu => (hext.chars u hu).2, hdriven]
      rfl
    have hlen : (getMadePath (drive.map (decodeText 1)) (directory.map (decodeText 1))
        (fname.map (decodeText 1)) (ext.map (decodeText 1))).length = (getMadePath drive directory fname ext).length := by
      rw [← hmade]
      exact (List.length_map ..).symm
    rw [makePath_eq hdrive hdirectory hfname hext hfuel hpath, pathPartChars_one, pathPartChars_one, hmade, hlen,
      encodeText_nil]
    have hchars := getMadePath_positive (by omega) hdrive.chars hdirectory.chars hfname.chars hext.chars
    by_cases hfit : n ≤ (getMadePath drive directory fname ext).length
    · exact ⟨_, congrArg some (if_pos hfit), staysInside_erange (by rw [List.length_nil]; omega)⟩
    · exact ⟨_, congrArg some (if_neg hfit), (staysInside_text_iff (by omega) hchars hchars).mpr ⟨by omega, rfl⟩⟩

theorem decodeText_pair {h l : Nat} (rest : List Nat) (hhigh : isHighSurrogate h) (hlow : isLowSurrogate l) :
    decodeText 2 (h :: l :: rest) = (UnitGroup.pair h l).char id :: decodeText 2 rest := by
  show (unitGroups (h :: l :: rest)).map (UnitGroup.char id) = _
  rw [unitGroups_pair _ hhigh hlow, List.map_cons]
  rfl

theorem encodeText_two (x : Nat) : encodeText 2 [x] = encodeChar x := by
  show encodeChar x ++ [] = encodeChar x
  rw [List.append_nil]

theorem encodeText_pair {h l : Nat} (hhigh : isHighSurrogate h) (hlow : isLowSurrogate l) :
    encodeText 2 [(UnitGroup.pair h l).char id] = [h, l] := by
  rw [encodeText_two, UnitGroup.char_pair, encodeChar_pair hhigh hlow]

theorem decodeText_single {c : Nat} {rest : List Nat}
    (hno : ¬(isHighSurrogate c ∧ ∃ v ∈ rest.head?, isLowSurrogate v)) :
    decodeText 2 (c :: rest) = c :: decodeText 2 rest := by
  show (unitGroups (c :: rest)).map (UnitGroup.char id) = _
  rw [unitGroups_single hno, List.map_cons, UnitGroup.char_single]
  exact congrArg (· :: decodeText 2 rest) (ite_self c)

theorem encodeText_single {c : Nat} (h : c < 0x10000) : encodeText 2 [c] = [c] := by
  rw [encodeText_two, encodeChar, if_pos h]

theorem drivePart_single {c : Nat} {rest : List Nat} (hc : c < 0x10000)
    (hno : ¬(isHighSurrogate c ∧ ∃ v ∈ rest.head?, isLowSurrogate v)) :
    drivePart (some (decodeText 2 (c :: rest))) = [c, 0x3A] ∧ encodeText 2 [c, 0x3A] = [c, 0x3A] := by
  have hjoin := wideCoding.enc_append [c] [0x3A]
  rw [encodeText_single hc, wideCoding.enc_mark 0x3A (Or.inr (Or.inr rfl))] at hjoin
  rw [decodeText_single hno]
  exact ⟨rfl, hjoin⟩

theorem drivePart_pair {h l : Nat} (rest : List Nat) (hhigh : isHighSurrogate h) (hlow : isLowSurrogate l) :
    ∃ x, drivePart (some (decodeText 2 (h :: l :: rest))) = [x, 0x3A] ∧ encodeText 2 [x, 0x3A] = [h, l, 0x3A] := by
  have hdec := decodeText_pair rest hhigh hlow
  have henc := encodeText_pair hhigh hlow
  generalize (UnitGroup.pair h l).char id = x at hdec henc
  have hjoin := wideCoding.enc_append [x] [0x3A]
  rw [henc, wideCoding.enc_mark 0x3A (Or.inr (Or.inr rfl))] at hjoin
  rw [hdec]
  exact ⟨x, rfl, hjoin⟩

theorem drivePart_empty {d : Option (List Nat)} (h : d.getD [] = []) :
    drivePart (d.map (decodeText 2)) = [] ∧ drivePart d = [] := by
  match d, h with
  | none, _ => exact ⟨rfl, rfl⟩
  | some [], _ => exact ⟨rfl, rfl⟩

/-- The drive of a wide path is kept but for a surrogate pair, of which both halves are taken. -/
theorem drivePart_wide (hdrive : ∀ u ∈ drive.getD [], 0 < u ∧ u < 0x10000) :
    (drivePart (drive.map (decodeText 2))).length = (drivePart drive).length ∧
      (encodeText 2 (drivePart (drive.map (decodeText 2))) = drivePart drive ↔ ¬StartsWithPair (drive.getD [])) ∧
      ∀ u ∈ encodeText 2 (drivePart (drive.map (decodeText 2))), 0 < u ∧ u < 0x10000 := by
  cases hunits : drive.getD [] with
  | nil =>
    obtain ⟨hdec, hself⟩ := drivePart_empty hunits
    rw [hdec, hself, encodeText_nil]
    refine ⟨rfl, iff_of_true rfl ?_, fun u hu => absurd hu List.not_mem_nil⟩
    rintro ⟨h, l, rest, heq, -⟩
    cases heq
  | cons c rest =>
    have hsome : drive = some (c :: rest) := by
      cases drive with
      | none => cases hunits
      | some us => exact congrArg some hunits
    rw [hunits] at hdrive
    rw [hsome, Option.map_some]
    have hself : drivePart (some (c :: rest)) = [c, 0x3A] := rfl
    have hcolon : 0 < 0x3A ∧ 0x3A < 0x10000 := by omega
    by_cases hpair : isHighSurrogate c ∧ ∃ v ∈ rest.head?, isLowSurrogate v
    · obtain ⟨hhigh, v, hv, hlow⟩ := hpair
      cases rest with
      | nil => cases hv
      | cons w rest =>
        rw [List.head?_cons, Option.mem_some] at hv
        rw [← hv] at hlow
        obtain ⟨x, hdec, henc⟩ := drivePart_pair rest hhigh hlow
        rw [hdec, henc, hself]
        refine ⟨rfl, iff_of_false ?_ ?_, ?_⟩
        · intro heq
          have hlength : 3 = 2 := congrArg List.length heq
          omega
        · intro hno
          exact hno ⟨c, w, rest, rfl, hhigh, hlow⟩
        · intro u hu
          rcases List.mem_cons.mp hu with rfl | hu
          · exact hdrive u List.mem_cons_self
          · rcases List.mem_cons.mp hu with rfl | hu
            · exact hdrive u (List.mem_cons_of_mem _ List.mem_cons_self)
            · rw [List.mem_singleton.mp hu]
              exact hcolon
    · obtain ⟨hdec, henc⟩ := drivePart_single (hdrive c List.mem_cons_self).2 hpair
      rw [hdec, henc, hself]
      refine ⟨rfl, iff_of_true rfl ?_, ?_⟩
      · rintro ⟨h, l, rest', heq, hhigh, hlow⟩
        injection heq with hh hrest
        exact hpair ⟨hh ▸ hhigh, l, by rw [hrest]; rfl, hlow⟩
      · intro u hu
        rcases List.mem_cons.mp hu with rfl | hu
        · exact hdrive u List.mem_cons_self
        · rw [List.mem_singleton.mp hu]
          exact hcolon

/-- The surrogate pairs behind the drive of a path. -/
def partPairs (directory fname ext : Option (List Nat)) : Nat :=
  pairCount (directory.getD []) + pairCount (fname.getD []) + pairCount (ext.getD [])

theorem wmakepathS_staysInside_iff (hdrive : m.HoldsPart 2 driveAt drive)
    (hdirectory : m.HoldsPart 2 directoryAt directory) (hfname : m.HoldsPart 2 fnameAt fname)
    (hext : m.HoldsPart 2 extAt ext)
    (hfuel : ∀ part ∈ [drive, directory, fname, ext], (part.getD []).length < fuel) (path n : Nat) :
    ∃ o, m.wmakepathS fuel path n driveAt directoryAt fnameAt extAt = some o ∧
      (StaysInside m 2 path n 0 (getMadePath drive directory fname ext) o ↔
        (path ≠ 0 → n ≠ 0 → (getMadePath drive directory fname ext).length < n + partPairs directory fname ext →
          (getMadePath drive directory fname ext).length < n ∧ ¬StartsWithPair (drive.getD []))) := by
  unfold wmakepathS
  by_cases hpath : path = 0 ∨ n = 0
  · refine ⟨_, if_pos ?_, iff_of_true staysInside_einval ?_⟩
    · rwa [Option.some.injEq]
    · intro hne hn
      exact absurd (hpath.resolve_left hne) hn
  · obtain ⟨hdriveLength, hdriveSame, hdriveChars⟩ := drivePart_wide hdrive.chars
    have hmade := wideCoding.getMadePath_dec drive (fun u hu => (hdirectory.chars u hu).2)
      (fun u hu => (hfname.chars u hu).2) fun u hu => (hext.chars u hu).2
    have hlen : (getMadePath (drive.map (decodeText 2)) (directory.map (decodeText 2)) (fname.map (decodeText 2))
        (ext.map (decodeText 2))).length + partPairs directory fname ext =
          (getMadePath drive directory fname ext).length := by
      have hunits : ∀ us : List Nat, us.length = (decodeText 2 us).length + pairCount us := by
        intro us
        exact (length_unitGroups us).trans (congrArg (· + pairCount us) (length_decodeUnits id us).symm)
      have hd := wideCoding.directoryPart_length fun u hu => (hdirectory.chars u hu).2
      have he := wideCoding.extPart_length fun u hu => (hext.chars u hu).2
      have hd' := hunits (directory.getD [])
      have he' := hunits (ext.getD [])
      have hf' := hunits (fname.getD [])
      have hf : ((fname.map (decodeText 2)).getD []).length = (decodeText 2 (fname.getD [])).length := by
        cases fname with
        | none => rfl
        | some us => rfl
      unfold getMadePath partPairs
      simp only [List.length_append, hdriveLength, hf]
      omega
    have hchars := getMadePath_positive (by omega) hdrive.chars hdirectory.chars hfname.chars hext.chars
    have hwritten : ∀ u ∈ encodeText 2 (drivePart (drive.map (decodeText 2))) ++ directoryPart directory ++
        fname.getD [] ++ extPart ext, 0 < u ∧ u < 0x10000 := by
      intro u hu
      have hrest : u ∉ encodeText 2 (drivePart (drive.map (decodeText 2))) →
          u ∈ getMadePath drive directory fname ext := by
        intro hnot
        unfold getMadePath
        simp only [List.mem_append] at hu ⊢
        rcases hu with ((hu | hu) | hu) | hu
        · exact absurd hu hnot
        · exact Or.inl (Or.inl (Or.inr hu))
        · exact Or.inl (Or.inr hu)
        · exact Or.inr hu
      by_cases hin : u ∈ encodeText 2 (drivePart (drive.map (decodeText 2)))
      · exact hdriveChars u hin
      · exact hchars u (hrest hin)
    have hsame : encodeText 2 (drivePart (drive.map (decodeText 2))) ++ directoryPart directory ++ fname.getD [] ++
        extPart ext = getMadePath drive directory fname ext ↔ ¬StartsWithPair (drive.getD []) := by
      unfold getMadePath
      rw [List.append_left_inj, List.append_left_inj, List.append_left_inj, hdriveSame]
    rw [makePath_eq hdrive hdirectory hfname hext hfuel hpath, pathPartChars_two, pathPartChars_two, hmade,
      encodeText_nil]
    by_cases hfit : n ≤ (getMadePath (drive.map (decodeText 2)) (directory.map (decodeText 2))
        (fname.map (decodeText 2)) (ext.map (decodeText 2))).length
    · refine ⟨_, congrArg some (if_pos hfit), iff_of_true (staysInside_erange (by rw [List.length_nil]; omega)) ?_⟩
      intro _ _ hlt
      omega
    · refine ⟨_, congrArg some (if_neg hfit), ?_⟩
      rw [staysInside_text_iff (by omega) hwritten hchars, hsame]
      constructor
      · intro hgood _ _ _
        exact hgood
      · intro hgood
        exact hgood (by omega) (by omega) (by omega)

end MadePaths

end Speakeasy
