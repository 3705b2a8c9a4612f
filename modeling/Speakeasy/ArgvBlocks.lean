import Speakeasy.BoundedFormats
import Speakeasy.CommandLines
import Speakeasy.StringSearchLaw

namespace Speakeasy

open ByteMemory

/-- The bytes that `encode_string` gives. -/
def encodedString (text : List Nat) (width : Nat) : Option (List UInt8) := (encodeString width text).map (charBytes width)

/-- The block of `CommandLineToArgv`, and what is written to it and to `pNumArgs`. -/
structure ArgvBlock where
  buf : Nat
  size : Nat
  writes : List (Nat × List UInt8)
  count : List (Nat × List UInt8)

/-- The loop over the arguments. -/
def writeArguments (cw ptrSize : Nat) : List (List Nat) → Nat → Nat → Option (List (Nat × List UInt8))
  | [], _, _ => some []
  | p :: split, ptrs, strs =>
    (encodedString (p ++ [0]) cw).bind fun s =>
      (writeArguments cw ptrSize split (ptrs + ptrSize) (strs + s.length)).map fun writes =>
        (ptrs, toBytes ptrSize strs) :: (strs, s) :: writes

def argvSize (cw ptrSize : Nat) (cl : List Nat) : Nat :=
  let split := splitCommandLine cl
  (split.length + 1) * ptrSize + (cl.length * cw + split.length * cw)

/-- `CommandLineToArgv`, where the heap gives an address for a size, or 0. -/
def commandLineToArgv (m : ByteMemory) (heapAlloc : Nat → Nat) (fuel cw ptrSize lpCmdLine pNumArgs : Nat) :
    Option ArgvBlock := do
  let cl ← m.readMemString fuel lpCmdLine cw
  let split := splitCommandLine cl
  let size := argvSize cw ptrSize cl
  let buf := heapAlloc size
  let writes ← writeArguments cw ptrSize split buf (buf + (split.length + 1) * ptrSize)
  return ⟨buf, size, writes, if pNumArgs = 0 then [] else [(pNumArgs, toBytes 4 split.length)]⟩

/-- The array of the arguments in a block of its own. -/
structure ArgvRight (m : ByteMemory) (cw ptrSize pNumArgs : Nat) (args : List (List Nat)) (r : ArgvBlock) : Prop where
  allocated : r.buf ≠ 0
  inside : ∀ w ∈ r.writes, r.buf ≤ w.1 ∧ w.1 + w.2.length ≤ r.buf + r.size
  pointers : ∀ i, (hi : i < args.length) → ∃ s, encodedString (args[i] ++ [0]) cw = some s ∧
    (m.writeAll r.writes).Holds ((m.writeAll r.writes).readInt (r.buf + i * ptrSize) ptrSize) s
  last : (m.writeAll r.writes).readInt (r.buf + args.length * ptrSize) ptrSize = 0
  count : r.count = if pNumArgs = 0 then [] else [(pNumArgs, toBytes 4 args.length)]

/-- The command lines and the memories for which the handler makes the array: there is memory for the block, with 0 in
the word after the pointers, and the pairs of the text are no more than the characters that the split drops. -/
structure ArgvFits (m : ByteMemory) (heapAlloc : Nat → Nat) (cw ptrSize : Nat) (us : List Nat) : Prop where
  allocated : heapAlloc (argvSize cw ptrSize (unitText cw us)) ≠ 0
  room : cw = 2 → pairCount us + (splitCommandLine (unitText 2 us)).flatten.length ≤ (unitText 2 us).length
  last : m.readInt (heapAlloc (argvSize cw ptrSize (unitText cw us)) +
    (splitCommandLine (unitText cw us)).length * ptrSize) ptrSize = 0

section Encoding

variable {cw : Nat} {text s : List Nat}

def isAstral (c : Nat) : Bool := 0x10000 ≤ c

/-- The characters that a text takes in memory. -/
def encodedLength (cw : Nat) (text : List Nat) : Nat := text.length + if cw = 2 then text.countP isAstral else 0

theorem encodedLength_append (cw : Nat) (text text' : List Nat) :
    encodedLength cw (text ++ text') = encodedLength cw text + encodedLength cw text' := by
  unfold encodedLength
  rw [List.length_append, List.countP_append]
  split
  next => omega
  next => omega

theorem length_encodeUnits (text : List Nat) : (encodeUnits text).length = text.length + text.countP isAstral := by
  induction text with
  | nil => rfl
  | cons c text ih =>
    show (encodeChar c ++ encodeUnits text).length = _
    rw [List.length_append, ih, List.length_cons, List.countP_cons, encodeChar]
    by_cases hc : c < 0x10000
    · have hplain : ¬isAstral c = true := by
        simp only [isAstral, decide_eq_true_eq]
        omega
      rw [if_pos hc, if_neg hplain, List.length_singleton]
      omega
    · have hastral : isAstral c = true := by
        simp only [isAstral, decide_eq_true_eq]
        omega
      rw [if_neg hc, if_pos hastral, List.length_cons, List.length_singleton]
      omega

theorem length_encodedString (hcw : cw = 1 ∨ cw = 2) {bs : List UInt8} (h : encodedString text cw = some bs) :
    bs.length = encodedLength cw text * cw := by
  obtain ⟨chars, hchars, rfl⟩ := Option.map_eq_some_iff.mp h
  rw [charBytes_length, encodedLength]
  rcases hcw with rfl | rfl
  · cases hchars
    rw [List.length_map]
    rfl
  · unfold encodeString at hchars
    rw [if_neg (by decide)] at hchars
    split at hchars
    next => cases hchars
    next =>
      cases hchars
      rw [length_encodeUnits]
      rfl

theorem encodedString_isSome (hcw : cw = 1 ∨ cw = 2) (h : cw = 2 → text.any isSurrogate = false) :
    ∃ bs, encodedString text cw = some bs := by
  unfold encodedString encodeString
  rcases hcw with rfl | rfl
  · exact ⟨_, rfl⟩
  · rw [if_neg (by decide), h rfl]
    exact ⟨_, rfl⟩

/-- The pairs of units are the characters above the first plane. -/
theorem countP_isAstral {us : List Nat} (hus : ∀ u ∈ us, u < 0x10000) :
    (decodeUnits replace us).countP isAstral = pairCount us := by
  rw [decodeUnits, List.countP_map, pairCount]
  apply List.countP_congr
  intro g hg
  rcases mem_unitGroups hg with ⟨u, hu, rfl⟩ | ⟨u, hu, v, hv, hhigh, hlow, rfl⟩
  · have hlt : (UnitGroup.single u).char replace < 0x10000 := by
      rw [UnitGroup.char_single]
      split
      next => exact replacement_lt
      next => exact hus u hu
    refine iff_of_false ?_ Bool.false_ne_true
    rw [Function.comp_apply, isAstral, decide_eq_true_eq]
    exact Nat.not_le.mpr hlt
  · refine iff_of_true ?_ rfl
    rw [Function.comp_apply, isAstral, decide_eq_true_eq]
    exact UnitGroup.le_char_pair replace u v

end Encoding

section Blocks

variable {m : ByteMemory} {cw ptrSize ptrs strs : Nat} {split : List (List Nat)} {writes : List (Nat × List UInt8)}

/-- The bytes of the texts. -/
def textRoom (cw : Nat) (split : List (List Nat)) : Nat := (encodedLength cw split.flatten + split.length) * cw

theorem textRoom_cons (hcw : cw = 1 ∨ cw = 2) (p : List Nat) {bs : List UInt8} (h : encodedString (p ++ [0]) cw = some bs) :
    textRoom cw (p :: split) = bs.length + textRoom cw split := by
  have hnul : encodedLength cw [0] = 1 := by
    unfold encodedLength
    split
    next => rfl
    next => rfl
  rw [length_encodedString hcw h, encodedLength_append, hnul, textRoom, textRoom, List.flatten_cons, encodedLength_append,
    List.length_cons, ← Nat.add_mul]
  congr 1
  omega

theorem writeArguments_cons {p : List Nat} (h : writeArguments cw ptrSize (p :: split) ptrs strs = some writes) :
    ∃ s rest, encodedString (p ++ [0]) cw = some s ∧
      writeArguments cw ptrSize split (ptrs + ptrSize) (strs + s.length) = some rest ∧
      writes = (ptrs, toBytes ptrSize strs) :: (strs, s) :: rest := by
  rw [writeArguments] at h
  obtain ⟨s, hs, h⟩ := Option.bind_eq_some_iff.mp h
  obtain ⟨rest, hrest, h⟩ := Option.map_eq_some_iff.mp h
  exact ⟨s, rest, hs, hrest, h.symm⟩

/-- Each write is a pointer or a text. -/
theorem writeArguments_ranges (hcw : cw = 1 ∨ cw = 2) (h : writeArguments cw ptrSize split ptrs strs = some writes) :
    ∀ w ∈ writes, (ptrs ≤ w.1 ∧ w.1 + w.2.length ≤ ptrs + split.length * ptrSize) ∨
      (strs ≤ w.1 ∧ w.1 + w.2.length ≤ strs + textRoom cw split) := by
  induction split generalizing ptrs strs writes with
  | nil =>
    rw [writeArguments] at h
    cases h
    intro w hw
    cases hw
  | cons p split ih =>
    obtain ⟨s, rest, hs, hrest, rfl⟩ := writeArguments_cons h
    have hroom := @textRoom_cons cw split hcw p s hs
    have hlen : (p :: split).length * ptrSize = split.length * ptrSize + ptrSize := Nat.succ_mul _ _
    intro w hw
    rcases List.mem_cons.mp hw with rfl | hw
    · left
      rw [toBytes_length]
      exact ⟨Nat.le_refl _, by omega⟩
    · rcases List.mem_cons.mp hw with rfl | hw
      · right
        exact ⟨Nat.le_refl _, by simp only; omega⟩
      · rcases ih hrest w hw with hin | hin
        · exact Or.inl ⟨by omega, by omega⟩
        · exact Or.inr ⟨by omega, by omega⟩

/-- The last text ends where all of them end. -/
theorem writeArguments_end (hcw : cw = 1 ∨ cw = 2) (h : writeArguments cw ptrSize split ptrs strs = some writes)
    (hne : split ≠ []) :
    ∃ w ∈ writes, w.1 + w.2.length = strs + textRoom cw split := by
  induction split generalizing ptrs strs writes with
  | nil => exact absurd rfl hne
  | cons p split ih =>
    obtain ⟨s, rest, hs, hrest, rfl⟩ := writeArguments_cons h
    have hroom := @textRoom_cons cw split hcw p s hs
    cases split with
    | nil =>
      refine ⟨(strs, s), List.mem_cons_of_mem _ List.mem_cons_self, ?_⟩
      have hnone : textRoom cw [] = 0 := by
        unfold textRoom encodedLength
        split
        next => exact Nat.zero_mul cw
        next => exact Nat.zero_mul cw
      show strs + s.length = _
      omega
    | cons q split =>
      obtain ⟨w, hw, hend⟩ := ih hrest (List.cons_ne_nil _ _)
      exact ⟨w, List.mem_cons_of_mem _ (List.mem_cons_of_mem _ hw), by omega⟩

theorem writeArguments_apart (hcw : cw = 1 ∨ cw = 2) (h : writeArguments cw ptrSize split ptrs strs = some writes)
    (hroom : ptrs + split.length * ptrSize ≤ strs) :
    writes.Pairwise fun v w => v.1 + v.2.length ≤ w.1 ∨ w.1 + w.2.length ≤ v.1 := by
  induction split generalizing ptrs strs writes with
  | nil =>
    rw [writeArguments] at h
    cases h
    exact List.Pairwise.nil
  | cons p split ih =>
    obtain ⟨s, rest, hs, hrest, rfl⟩ := writeArguments_cons h
    have hlen : (p :: split).length * ptrSize = split.length * ptrSize + ptrSize := Nat.succ_mul _ _
    have hranges := writeArguments_ranges hcw hrest
    refine List.Pairwise.cons ?_ (List.Pairwise.cons ?_ (ih hrest (by omega)))
    · intro w hw
      rw [toBytes_length]
      rcases List.mem_cons.mp hw with rfl | hw
      · left
        simp only
        omega
      · rcases hranges w hw with hin | hin
        · left
          simp only
          omega
        · left
          simp only
          omega
    · intro w hw
      rcases hranges w hw with hin | hin
      · right
        simp only
        omega
      · left
        exact hin.1

/-- The pointer of an argument, and its text. -/
theorem writeArguments_get (h : writeArguments cw ptrSize split ptrs strs = some writes) {i : Nat} (hi : i < split.length) :
    ∃ a s, encodedString (split[i] ++ [0]) cw = some s ∧ (ptrs + i * ptrSize, toBytes ptrSize a) ∈ writes ∧
      (a, s) ∈ writes := by
  induction split generalizing ptrs strs writes i with
  | nil => cases hi
  | cons p split ih =>
    obtain ⟨s, rest, hs, hrest, rfl⟩ := writeArguments_cons h
    cases i with
    | zero =>
      refine ⟨strs, s, hs, ?_, List.mem_cons_of_mem _ List.mem_cons_self⟩
      rw [Nat.zero_mul, Nat.add_zero]
      exact List.mem_cons_self
    | succ i =>
      obtain ⟨a, t, ht, hptr, htext⟩ := ih hrest (Nat.lt_of_succ_lt_succ hi)
      have haddr : ptrs + (i + 1) * ptrSize = ptrs + ptrSize + i * ptrSize := by
        rw [Nat.succ_mul]
        omega
      rw [haddr]
      exact ⟨a, t, ht, List.mem_cons_of_mem _ (List.mem_cons_of_mem _ hptr),
        List.mem_cons_of_mem _ (List.mem_cons_of_mem _ htext)⟩

theorem writeArguments_isSome (hcw : cw = 1 ∨ cw = 2) (h : cw = 2 → ∀ p ∈ split, p.any isSurrogate = false) :
    ∃ writes, writeArguments cw ptrSize split ptrs strs = some writes := by
  induction split generalizing ptrs strs with
  | nil => exact ⟨[], rfl⟩
  | cons p split ih =>
    have hchars : cw = 2 → (p ++ [0]).any isSurrogate = false := by
      intro htwo
      rw [List.any_append, h htwo p List.mem_cons_self]
      rfl
    obtain ⟨s, hs⟩ := encodedString_isSome hcw hchars
    obtain ⟨rest, hrest⟩ := @ih (ptrs + ptrSize) (strs + s.length) fun htwo q hq => h htwo q (List.mem_cons_of_mem p hq)
    exact ⟨_, by rw [writeArguments, hs, Option.bind_some, hrest, Option.map_some]⟩

end Blocks

section Law

variable {m : ByteMemory} {heapAlloc : Nat → Nat} {cw ptrSize fuel lpCmdLine pNumArgs : Nat} {us : List Nat}

theorem isBlank_plain {c : Nat} (h : isBlank c = true) : c = 0x20 ∨ c = 0x09 := by
  rw [isBlank, Bool.or_eq_true, decide_eq_true_eq, decide_eq_true_eq] at h
  exact h

theorem kept_astral : KeptBySplit isAstral where
  quoteMark := by decide
  backslash := by decide
  blank c h := by
    rcases isBlank_plain h with rfl | rfl
    · decide
    · decide

theorem kept_surrogate : KeptBySplit isSurrogate where
  quoteMark := by decide
  backslash := by decide
  blank c h := by
    rcases isBlank_plain h with rfl | rfl
    · decide
    · decide

/-- The arguments have no surrogate, as the text has none. -/
theorem splitCommandLine_not_surrogate (us : List Nat) :
    ∀ p ∈ splitCommandLine (unitText 2 us), p.any isSurrogate = false := by
  have hcount := (splitCommandLine_counts kept_surrogate (unitText 2 us)).1
  have hnone : (unitText 2 us).countP isSurrogate = 0 := by
    rw [List.countP_eq_zero]
    exact fun c hc => decodeUnits_not_surrogate hc
  rw [hnone, List.countP_eq_zero] at hcount
  intro p hp
  rw [List.any_eq_false]
  exact fun c hc => hcount c (List.mem_flatten.mpr ⟨p, hp, hc⟩)

theorem splitLoop_ne_nil (s : SplitState) (cs : List Nat) (h : s.args ≠ []) : splitLoop s cs ≠ [] := by
  induction hn : cs.length using Nat.strong_induction_on generalizing s cs with
  | _ n ih =>
    cases cs with
    | nil =>
      rw [splitLoop]
      split
      next => exact List.append_ne_nil_of_left_ne_nil h _
      next => exact h
    | cons c cs =>
      rw [List.length_cons] at hn
      rw [splitLoop]
      split
      next => exact ih cs.length (by omega) _ cs h rfl
      next =>
        split
        next =>
          have hrest := (quoteStep_counts kept_astral s cs).2.2
          exact ih _ (Nat.lt_of_le_of_lt hrest (by omega)) _ _ h rfl
        next =>
          split
          next =>
            apply ih cs.length (by omega) _ cs _ rfl
            simp only
            split
            next => exact List.append_ne_nil_of_left_ne_nil h _
            next => exact h
          next => exact ih cs.length (by omega) _ cs h rfl

/-- The texts fit where the pairs are made up for. -/
theorem textRoom_iff (hcw : cw = 1 ∨ cw = 2) (hus : ∀ u ∈ us, u < 256 ^ cw) :
    textRoom cw (splitCommandLine (unitText cw us)) ≤
        (unitText cw us).length * cw + (splitCommandLine (unitText cw us)).length * cw ↔
      (cw = 2 → pairCount us + (splitCommandLine (unitText 2 us)).flatten.length ≤ (unitText 2 us).length) := by
  obtain ⟨hastral, hlength⟩ := splitCommandLine_counts kept_astral (unitText cw us)
  unfold textRoom encodedLength
  rcases hcw with rfl | rfl
  · simp only [OfNat.one_ne_ofNat, if_false, false_imp_iff, iff_true]
    omega
  · have hpairs : (unitText 2 us).countP isAstral = pairCount us := countP_isAstral hus
    simp only [if_true, forall_const]
    omega

/-- The handler's array, for the command line at an address. -/
theorem argvRight_iff (hcw : cw = 1 ∨ cw = 2) (h : m.HoldsString cw lpCmdLine us) (hfuel : us.length < fuel)
    (hspace : ∀ size, heapAlloc size ≠ 0 → heapAlloc size + size ≤ 256 ^ ptrSize) :
    (∃ r, commandLineToArgv m heapAlloc fuel cw ptrSize lpCmdLine pNumArgs = some r ∧
      ArgvRight m cw ptrSize pNumArgs (splitCommandLine (unitText cw us)) r) ↔
      ArgvFits m heapAlloc cw ptrSize us := by
  have hread := readMemString_eq hcw h hfuel
  obtain ⟨writes, hwrites⟩ := @writeArguments_isSome cw ptrSize (heapAlloc (argvSize cw ptrSize (unitText cw us)))
    (heapAlloc (argvSize cw ptrSize (unitText cw us)) + ((splitCommandLine (unitText cw us)).length + 1) * ptrSize)
    (splitCommandLine (unitText cw us)) hcw fun htwo => htwo ▸ splitCommandLine_not_surrogate us
  have hrun : commandLineToArgv m heapAlloc fuel cw ptrSize lpCmdLine pNumArgs =
      some ⟨heapAlloc (argvSize cw ptrSize (unitText cw us)), argvSize cw ptrSize (unitText cw us), writes,
        if pNumArgs = 0 then [] else [(pNumArgs, toBytes 4 (splitCommandLine (unitText cw us)).length)]⟩ := by
    simp only [commandLineToArgv, hread, Option.bind_eq_bind, Option.bind_some]
    rw [hwrites]
    rfl
  have hroom := textRoom_iff hcw fun u hu => (h.chars u hu).2
  have hspace := hspace (argvSize cw ptrSize (unitText cw us))
  have hsize : argvSize cw ptrSize (unitText cw us) = ((splitCommandLine (unitText cw us)).length + 1) * ptrSize +
      ((unitText cw us).length * cw + (splitCommandLine (unitText cw us)).length * cw) := rfl
  have hne : splitCommandLine (unitText cw us) ≠ [] := splitLoop_ne_nil _ _ (List.cons_ne_nil _ _)
  have hfits : ArgvFits m heapAlloc cw ptrSize us ↔ _ ∧ _ ∧ _ :=
    ⟨fun h => ⟨h.allocated, h.room, h.last⟩, fun h => ⟨h.1, h.2.1, h.2.2⟩⟩
  rw [hrun, hfits, ← hroom]
  generalize splitCommandLine (unitText cw us) = args at hwrites hsize hne ⊢
  generalize heapAlloc (argvSize cw ptrSize (unitText cw us)) = buf at hwrites hspace ⊢
  generalize argvSize cw ptrSize (unitText cw us) = size at hsize hspace ⊢
  have hslots : (args.length + 1) * ptrSize = args.length * ptrSize + ptrSize := Nat.succ_mul _ _
  have hranges := writeArguments_ranges hcw hwrites
  have hapart := writeArguments_apart hcw hwrites (by omega)
  have hlast : (m.writeAll writes).readInt (buf + args.length * ptrSize) ptrSize =
      m.readInt (buf + args.length * ptrSize) ptrSize := by
    unfold readInt
    rw [readBytes_writeAll_of_apart]
    intro w hw
    rcases hranges w hw with hin | hin
    · exact Or.inr hin.2
    · left
      omega
  constructor
  · rintro ⟨r, hr, hright⟩
    rw [Option.some.injEq] at hr
    subst hr
    obtain ⟨w, hw, hend⟩ := writeArguments_end hcw hwrites hne
    have hinside := (hright.inside w hw).2
    exact ⟨hright.allocated, by simp only at hinside; omega, hlast.symm.trans hright.last⟩
  · rintro ⟨hallocated, htexts, hzero⟩
    have hinside : ∀ w ∈ writes, buf ≤ w.1 ∧ w.1 + w.2.length ≤ buf + size := by
      intro w hw
      rcases hranges w hw with hin | hin
      · exact ⟨hin.1, by omega⟩
      · exact ⟨by omega, by omega⟩
    refine ⟨_, rfl, hallocated, hinside, ?_, hlast.trans hzero, rfl⟩
    intro i hi
    obtain ⟨a, s, hs, hptr, htext⟩ := writeArguments_get hwrites hi
    have hpos : 0 < s.length := by
      have hlen := length_encodedString hcw hs
      rw [encodedLength_append] at hlen
      have hnul : 1 ≤ encodedLength cw [0] := Nat.le_add_right 1 _
      have hone : 1 ≤ encodedLength cw args[i] + encodedLength cw [0] := by omega
      rw [hlen]
      exact Nat.mul_pos hone (by omega)
    have hlimit := hspace hallocated
    have ha : a < 256 ^ ptrSize := by
      have hend := (hinside _ htext).2
      simp only at hend
      omega
    have hread : (m.writeAll writes).readInt (buf + i * ptrSize) ptrSize = a := by
      have hbytes := @readBytes_writeAll m writes hapart _ hptr 0 ptrSize (by rw [toBytes_length, Nat.zero_add])
      rw [Nat.add_zero, List.drop_zero, List.take_of_length_le (by rw [toBytes_length])] at hbytes
      rw [readInt, hbytes, fromBytes_toBytes_of_lt ha]
    refine ⟨s, hs, ?_⟩
    show (m.writeAll writes).Holds ((m.writeAll writes).readInt (buf + i * ptrSize) ptrSize) s
    rw [hread]
    exact holds_writeAll hapart htext

theorem commandLineToArgv_law (hcw : cw = 1 ∨ cw = 2) (h : m.HoldsString cw lpCmdLine us) (hfuel : us.length < fuel)
    (hspace : ∀ size, heapAlloc size ≠ 0 → heapAlloc size + size ≤ 256 ^ ptrSize) :
    (∀ (first : List Nat) (rest : List (List Nat × List Nat)), quoteMark ∉ first →
      (∀ p ∈ rest, p.1 ≠ [] ∧ ∀ b ∈ p.1, isBlank b = true) →
      splitCommandLine (joinCommandLine first rest) = first :: rest.map Prod.snd) ∧
    ((∃ r, commandLineToArgv m heapAlloc fuel cw ptrSize lpCmdLine pNumArgs = some r ∧
      ArgvRight m cw ptrSize pNumArgs (splitCommandLine (unitText cw us)) r) ↔
      ArgvFits m heapAlloc cw ptrSize us) :=
  ⟨fun _ _ hfirst hrest => splitCommandLine_join hfirst hrest, argvRight_iff hcw h hfuel hspace⟩

end Law

/-- A command line of two characters, of which the first is a pair of units. -/
def pairCommandLine : ByteMemory := fun a =>
  if a = 0x1000 then 0x3D else if a = 0x1001 then 0xD8 else if a = 0x1003 then 0xDE else if a = 0x1004 then 0x61 else 0

theorem pairCommandLine_holds : pairCommandLine.HoldsString 2 0x1000 [0xD83D, 0xDE00, 0x61] where
  holds := by
    unfold Holds
    decide
  chars := by decide

theorem splitCommandLine_word {cs : List Nat} (h : ∀ c ∈ cs, isBlank c = false ∧ c ≠ quoteMark) :
    splitCommandLine cs = [cs] := by
  have hname : programName cs = (cs, cs.length) := by
    cases cs with
    | nil => rfl
    | cons c cs =>
      have hnone : (c :: cs).findIdx? isBlank = none := List.findIdx?_eq_none_iff.mpr fun d hd => (h d hd).1
      rw [programName]
      simp only [if_neg (h c List.mem_cons_self).2, hnone]
  have hdef : splitCommandLine cs = splitLoop ⟨[(programName cs).1], [], false, 0, 0⟩ (cs.drop (programName cs).2) := rfl
  rw [hdef, hname, List.drop_length, splitLoop]
  rfl

/-- A heap that has one page. -/
def pageHeap (size : Nat) : Nat := if size ≤ 0x1000 then 0x5000 else 0

theorem pageHeap_space (size : Nat) (h : pageHeap size ≠ 0) : pageHeap size + size ≤ 256 ^ 4 := by
  unfold pageHeap at h ⊢
  split at h
  next hsize =>
    rw [if_pos hsize]
    omega
  next => exact absurd rfl h

/-- A program name, and an argument of a pair of units, a blank, a quote and a backslash, in quotes. -/
def quotedUnits : List Nat := [0x22, 0x61, 0x22, 0x20, 0x22, 0xD83D, 0xDE00, 0x20, 0x5C, 0x22, 0x5C, 0x5C, 0x22]

def quotedMemory : ByteMemory := writeBytes (fun _ => 0) 0x1000 (charBytes 2 quotedUnits)

theorem quotedMemory_holds : quotedMemory.HoldsString 2 0x1000 quotedUnits where
  holds := by
    unfold Holds
    decide
  chars := by decide

theorem quotedUnits_split : splitCommandLine (unitText 2 quotedUnits) = [[0x61], [0x1F600, 0x20, 0x22, 0x5C]] := by
  have hjoin : unitText 2 quotedUnits = joinCommandLine [0x61] [([0x20], [0x1F600, 0x20, 0x22, 0x5C])] := by decide
  rw [hjoin]
  exact splitCommandLine_join (by decide) (by decide)

theorem quotedUnits_fits : ArgvFits quotedMemory pageHeap 2 4 quotedUnits := by
  have hsize : argvSize 2 4 (unitText 2 quotedUnits) = 40 := by
    unfold argvSize
    rw [quotedUnits_split]
    decide
  refine ⟨?_, fun _ => ?_, ?_⟩
  · rw [hsize]
    decide
  · rw [quotedUnits_split]
    decide
  · rw [hsize, quotedUnits_split]
    decide

theorem commandLineToArgv_law_quoted :
    splitCommandLine (joinCommandLine [0x61] [([0x20], [0x1F600, 0x20, 0x22, 0x5C])]) =
      [[0x61], [0x1F600, 0x20, 0x22, 0x5C]] ∧
    ∃ r, commandLineToArgv quotedMemory pageHeap 14 2 4 0x1000 0 = some r ∧
      ArgvRight quotedMemory 2 4 0 (splitCommandLine (unitText 2 quotedUnits)) r :=
  have hlaw := commandLineToArgv_law (Or.inr rfl) quotedMemory_holds (by decide : quotedUnits.length < 14) pageHeap_space
  ⟨hlaw.1 _ _ (by decide) (by decide), hlaw.2.mpr quotedUnits_fits⟩

/-- The text with its terminator takes more than its two characters. -/
theorem commandLineToArgv_pair :
    ¬∃ r, commandLineToArgv pairCommandLine pageHeap 4 2 4 0x1000 0 = some r ∧
      ∀ w ∈ r.writes, r.buf ≤ w.1 ∧ w.1 + w.2.length ≤ r.buf + r.size := by
  rintro ⟨r, hr, hinside⟩
  have hread : pairCommandLine.readMemString 4 0x1000 2 = some [0x1F600, 0x61] :=
    readMemString_eq (Or.inr rfl) pairCommandLine_holds (by decide)
  have hsplit : splitCommandLine [0x1F600, 0x61] = [[0x1F600, 0x61]] := splitCommandLine_word (by decide)
  simp only [commandLineToArgv, hread, Option.bind_eq_bind, Option.bind_some, argvSize, hsplit] at hr
  have hruns : r = ⟨0x5000, 14, [(0x5000, toBytes 4 0x5008), (0x5008, charBytes 2 [0xD83D, 0xDE00, 0x61, 0])], []⟩ :=
    (Option.some.inj hr).symm
  rw [hruns] at hinside
  exact absurd hinside (by decide)

end Speakeasy
