import Speakeasy.WideStringRuns
import Speakeasy.IntegerTexts
import Speakeasy.MemoryManager

namespace Speakeasy

section

def struncate : Nat := 80

def Arch.getMaxInt (arch : Arch) : Nat := 256 ^ (arch.bits / 8) - 1

/-- The status that a call returns, and the characters that it writes, at their addresses. -/
structure SecureResult where
  rv : Nat
  writes : List (Nat × List Nat)
  deriving DecidableEq

namespace SecureResult

def memory (o : SecureResult) (m : ByteMemory) (width : Nat) : ByteMemory :=
  m.writeAll (o.writes.map fun w => (w.1, charBytes width w.2))

end SecureResult

namespace ByteMemory

open SecureResult

def strcpyS (m : ByteMemory) (fuel dest destSize src : Nat) : Option SecureResult :=
  if dest = 0 ∨ destSize = 0 then some ⟨einval, []⟩
  else if src = 0 then some ⟨einval, [(dest, [0])]⟩
  else (m.readCstr fuel src 0 1).map fun s =>
    if destSize ≤ s.length then ⟨erange, [(dest, [0])]⟩ else ⟨0, [(dest, s ++ [0])]⟩

def wcscpyS (m : ByteMemory) (fuel dest destSize src : Nat) : Option SecureResult :=
  if dest = 0 ∨ destSize = 0 then some ⟨einval, []⟩
  else if src = 0 then some ⟨einval, [(dest, [0])]⟩
  else (m.readWideString fuel src 0).bind fun ws =>
    if destSize ≤ ws.length then some ⟨erange, [(dest, [0])]⟩
    else (wideStringUnits (ws ++ [0])).map fun units => ⟨0, [(dest, units)]⟩

def copyNSecure (arch : Arch) (m : ByteMemory) (fuel width dest size src count : Nat) : Option SecureResult :=
  -- `count &= self.get_max_int()`
  let count := count % (arch.getMaxInt + 1)
  if dest = 0 ∨ size = 0 then some ⟨einval, []⟩
  else if src = 0 then some ⟨einval, [(dest, [0])]⟩
  else
    let data := if width = 1 then m.readCstr fuel src 0 1 else (m.readWideString fuel src 0).map encodeUnits
    data.map fun data =>
      let n := min data.length count
      if n < size then ⟨0, [(dest, data.take n ++ [0])]⟩
      else if count = arch.getMaxInt then ⟨struncate, [(dest, data.take (size - 1) ++ [0])]⟩
      else ⟨erange, [(dest, 0 :: (data.take size).drop 1)]⟩

def strncpyS (arch : Arch) (m : ByteMemory) (fuel dest size src count : Nat) : Option SecureResult :=
  copyNSecure arch m fuel 1 dest size src count

def wcsncpyS (arch : Arch) (m : ByteMemory) (fuel dest size src count : Nat) : Option SecureResult :=
  copyNSecure arch m fuel 2 dest size src count

def strcatS (m : ByteMemory) (fuel dest size src : Nat) : Option SecureResult :=
  if dest = 0 ∨ size = 0 then some ⟨einval, []⟩
  else if src = 0 then some ⟨einval, [(dest, [0])]⟩
  else (m.readCstr fuel dest 0 1).bind fun s1 => (m.readCstr fuel src 0 1).map fun s2 =>
    if size ≤ s1.length + s2.length then ⟨erange, [(dest, [0])]⟩ else ⟨0, [(dest, s1 ++ s2 ++ [0])]⟩

def wcscatS (m : ByteMemory) (fuel dest size src : Nat) : Option SecureResult :=
  if dest = 0 ∨ size = 0 then some ⟨einval, []⟩
  else if src = 0 then some ⟨einval, [(dest, [0])]⟩
  else (m.readWideString fuel dest 0).bind fun s1 => (m.readWideString fuel src 0).bind fun s2 =>
    if size ≤ s1.length + s2.length then some ⟨erange, [(dest, [0])]⟩
    else (wideStringUnits (s1 ++ s2 ++ [0])).map fun units => ⟨0, [(dest, units)]⟩

def appendNSecure (arch : Arch) (m : ByteMemory) (fuel width dest num src count : Nat) : Option SecureResult :=
  let truncated := count = arch.getMaxInt
  (m.readCstr fuel dest 0 width).bind fun s1 =>
    let s2 := if count ≠ 0 then m.readCstr fuel src (if truncated then 0 else count) width else some []
    s2.map fun s2 =>
      if num ≤ s1.length then ⟨einval, []⟩
      else
        let rem := num - s1.length
        if s2.length < rem then ⟨0, [(dest + s1.length * width, s2 ++ [0])]⟩
        else if truncated then ⟨struncate, [(dest + s1.length * width, s2.take (rem - 1) ++ [0])]⟩
        else ⟨erange, [(dest, [0])]⟩

def strncatS (arch : Arch) (m : ByteMemory) (fuel dest num src count : Nat) : Option SecureResult :=
  appendNSecure arch m fuel 1 dest num src count

def wcsncatS (arch : Arch) (m : ByteMemory) (fuel dest num src count : Nat) : Option SecureResult :=
  appendNSecure arch m fuel 2 dest num src count

end ByteMemory

/-- A bounded writer of `n` characters at `dest`, whose success puts `text` behind the first `start` of them. -/
structure StaysInside (m : ByteMemory) (width dest n start : Nat) (text : List Nat) (o : SecureResult) : Prop where
  inside : ∀ w ∈ o.writes, dest ≤ w.1 ∧ w.1 + w.2.length * width ≤ dest + n * width
  terminated : o.rv = 0 ∨ o.rv = struncate → ∃ i < n, (o.memory m width).readInt (dest + i * width) width = 0
  copied : o.rv = 0 → (o.memory m width).Holds (dest + start * width) (charBytes width (text ++ [0]))
  emptied : o.rv = erange → (o.memory m width).readInt dest width = 0

section Writers

open ByteMemory

variable {m : ByteMemory} {width dest n start : Nat} {text : List Nat}

theorem einval_values : einval ≠ 0 ∧ einval ≠ struncate ∧ einval ≠ erange := by decide

theorem erange_values : erange ≠ 0 ∧ erange ≠ struncate := by decide

theorem struncate_ne_zero : struncate ≠ 0 := by decide

theorem memory_single (m : ByteMemory) (width rv a : Nat) (cs : List Nat) :
    SecureResult.memory ⟨rv, [(a, cs)]⟩ m width = m.writeChars width a cs := rfl

/-- The characters that follow others in one write. -/
theorem writeChars_holds (m : ByteMemory) (width a : Nat) (cs ds : List Nat) :
    (m.writeChars width a (cs ++ ds)).Holds (a + cs.length * width) (charBytes width ds) := by
  have hlen : cs.length * width + (charBytes width ds).length ≤ (charBytes width (cs ++ ds)).length := by
    rw [charBytes_append, List.length_append, charBytes_length width cs]
  unfold Holds writeChars
  rw [readBytes_writeBytes hlen, charBytes_append, List.drop_left' (charBytes_length _ _), List.take_length]

theorem readInt_of_holds {m : ByteMemory} {width a : Nat} (h : m.Holds a (charBytes width [0])) :
    m.readInt a width = 0 := by
  have hbytes : charBytes width [0] = toBytes width 0 := by rw [charBytes_cons, charBytes, List.flatMap_nil, List.append_nil]
  rw [hbytes, Holds, toBytes_length] at h
  rw [readInt, h, fromBytes_toBytes, Nat.zero_mod]

theorem staysInside_einval : StaysInside m width dest n start text ⟨einval, []⟩ where
  inside _ hw := absurd hw List.not_mem_nil
  terminated h := absurd h (not_or.mpr ⟨einval_values.1, einval_values.2.1⟩)
  copied h := absurd h einval_values.1
  emptied h := absurd h einval_values.2.2

theorem inside_single {rv a : Nat} {cs : List Nat} {k : Nat} (ha : a = dest + k * width)
    (hlen : k + cs.length ≤ n) :
    ∀ w ∈ (SecureResult.mk rv [(a, cs)]).writes, dest ≤ w.1 ∧ w.1 + w.2.length * width ≤ dest + n * width := by
  intro w hw
  rw [List.mem_singleton.mp hw]
  have hmul : (k + cs.length) * width ≤ n * width := Nat.mul_le_mul_right width hlen
  rw [Nat.add_mul] at hmul
  constructor
  · show dest ≤ a
    omega
  · show a + cs.length * width ≤ dest + n * width
    omega

theorem staysInside_cleared (hn : 0 < n) : StaysInside m width dest n start text ⟨einval, [(dest, [0])]⟩ where
  inside := inside_single (k := 0) (by omega) (by rw [List.length_singleton]; omega)
  terminated h := absurd h (not_or.mpr ⟨einval_values.1, einval_values.2.1⟩)
  copied h := absurd h einval_values.1
  emptied h := absurd h einval_values.2.2

theorem staysInside_erange {cs : List Nat} (hn : cs.length + 1 ≤ n) :
    StaysInside m width dest n start text ⟨erange, [(dest, 0 :: cs)]⟩ where
  inside := inside_single (k := 0) (by omega) (by rw [List.length_cons]; omega)
  terminated h := absurd h (not_or.mpr erange_values)
  copied h := absurd h erange_values.1
  emptied _ := by
    have hbytes : charBytes width (0 :: cs) = toBytes width 0 ++ charBytes width cs := rfl
    have hread := @readBytes_writeBytes m dest 0 width (charBytes width (0 :: cs))
      (by rw [hbytes, List.length_append, toBytes_length]; omega)
    rw [Nat.add_zero, List.drop_zero, hbytes, List.take_left' (toBytes_length _ _)] at hread
    rw [memory_single, readInt, writeChars, hbytes, hread, fromBytes_toBytes, Nat.zero_mod]

theorem nul_after (a : Nat) (cs : List Nat) : (m.writeChars width a (cs ++ [0])).readInt (a + cs.length * width) width = 0 :=
  readInt_of_holds (writeChars_holds m width a cs [0])

theorem staysInside_truncated {k : Nat} {cs : List Nat} (hn : k + cs.length < n) :
    StaysInside m width dest n start text ⟨struncate, [(dest + k * width, cs ++ [0])]⟩ where
  inside := inside_single rfl (by rw [List.length_append, List.length_singleton]; omega)
  terminated _ := by
    refine ⟨k + cs.length, hn, ?_⟩
    rw [memory_single, Nat.add_mul, ← Nat.add_assoc]
    exact nul_after _ _
  copied h := absurd h struncate_ne_zero
  emptied h := absurd h.symm erange_values.2

/-- A success writes what lies before `text`, `text` in the characters `cs`, and the NUL. -/
theorem staysInside_success_iff {k : Nat} {front cs : List Nat} (hstart : start = k + front.length)
    (hlen : cs.length = text.length) (hcs : ∀ c ∈ cs, c < 256 ^ width) (htext : ∀ c ∈ text, c < 256 ^ width)
    (hwidth : 0 < width) :
    StaysInside m width dest n start text ⟨0, [(dest + k * width, front ++ cs ++ [0])]⟩ ↔
      start + text.length < n ∧ cs = text := by
  have hplace : dest + k * width + front.length * width = dest + start * width := by
    rw [hstart, Nat.add_mul, Nat.add_assoc]
  have hheld : (m.writeChars width (dest + k * width) (front ++ cs ++ [0])).Holds (dest + start * width)
      (charBytes width (cs ++ [0])) := by
    rw [List.append_assoc, ← hplace]
    exact writeChars_holds m width _ front (cs ++ [0])
  constructor
  · intro h
    constructor
    · have hbound := (h.inside _ (List.mem_singleton.mpr rfl)).2
      simp only [List.length_append, List.length_singleton] at hbound
      rw [Nat.add_assoc dest, Nat.add_le_add_iff_left, ← Nat.add_mul] at hbound
      have hle := Nat.le_of_mul_le_mul_right hbound hwidth
      omega
    · have htexts := h.copied rfl
      rw [memory_single] at htexts
      have hsame : charBytes width (cs ++ [0]) = charBytes width (text ++ [0]) := by
        rw [← hheld, ← htexts, charBytes_length, charBytes_length, List.length_append, List.length_append, hlen]
      rw [charBytes_append, charBytes_append] at hsame
      exact charBytes_injective hcs htext hlen (List.append_cancel_right hsame)
  · rintro ⟨hfit, rfl⟩
    constructor
    · exact inside_single rfl (by simp only [List.length_append, List.length_singleton]; omega)
    · intro _
      refine ⟨start + cs.length, hfit, ?_⟩
      rw [memory_single, Nat.add_mul, ← Nat.add_assoc, ← hplace, Nat.add_assoc _ (front.length * width), ← Nat.add_mul,
        ← List.length_append]
      exact nul_after _ _
    · intro _
      exact hheld
    · intro h
      exact absurd h.symm erange_values.1

theorem staysInside_whole_iff {cs : List Nat} (hlen : cs.length = text.length) (hcs : ∀ c ∈ cs, c < 256 ^ width)
    (htext : ∀ c ∈ text, c < 256 ^ width) (hwidth : 0 < width) :
    StaysInside m width dest n 0 text ⟨0, [(dest, cs ++ [0])]⟩ ↔ text.length < n ∧ cs = text := by
  have hiff := @staysInside_success_iff m width dest n 0 text 0 [] cs rfl hlen hcs htext hwidth
  rwa [Nat.zero_mul, Nat.add_zero, List.nil_append, Nat.zero_add] at hiff

theorem staysInside_behind_iff {front cs : List Nat} (hlen : cs.length = text.length)
    (hcs : ∀ c ∈ cs, c < 256 ^ width) (htext : ∀ c ∈ text, c < 256 ^ width) (hwidth : 0 < width)
    (hstart : start = front.length) :
    StaysInside m width dest n start text ⟨0, [(dest, front ++ cs ++ [0])]⟩ ↔
      start + text.length < n ∧ cs = text := by
  have hiff := @staysInside_success_iff m width dest n start text 0 front cs (hstart.trans (Nat.zero_add _).symm)
    hlen hcs htext hwidth
  rwa [Nat.zero_mul, Nat.add_zero] at hiff

theorem staysInside_cut {cs : List Nat} (hn : cs.length < n) :
    StaysInside m width dest n start text ⟨struncate, [(dest, cs ++ [0])]⟩ := by
  have hout := @staysInside_truncated m width dest n start text 0 cs (by omega)
  rwa [Nat.zero_mul, Nat.add_zero] at hout

end Writers

end

section

open ByteMemory

variable {arch : Arch} {m : ByteMemory} {width fuel dest n src count : Nat} {us vs : List Nat}

theorem pairCount_le (us : List Nat) : (unitGroups us).length = us.length - pairCount us := by
  have hlen := length_unitGroups us
  omega

theorem wideStringUnits_terminated {cs : List Nat} (h : cs.any isSurrogate = false) :
    wideStringUnits (cs ++ [0]) = some (encodeUnits cs ++ [0]) := by
  have hnone : (cs ++ [0]).any isSurrogate = false := by
    rw [List.any_append, h]
    rfl
  unfold wideStringUnits
  simp only [List.getLast?_concat, if_true, hnone, Bool.false_eq_true, if_false]
  rw [encodeUnits_append]
  rfl

theorem readWide_whole (h : m.HoldsString 2 src us) (hfuel : us.length < fuel) :
    m.readWideString fuel src 0 = some (decodeUnits replace us) := h.readWideString_eq 0 hfuel

theorem readCstr_whole (h : m.HoldsString width src us) (hfuel : us.length < fuel) :
    m.readCstr fuel src 0 width = some us := h.readCstr_eq 0 hfuel

theorem HoldsString.lt (h : m.HoldsString width src us) : ∀ u ∈ us, u < 256 ^ width := fun u hu => (h.chars u hu).2

theorem reread_lt (h : m.HoldsString 2 src us) : ∀ c ∈ rereadUnits replace us, c < 256 ^ 2 := rereadUnits_lt h.units

theorem strcpyS_staysInside (h : m.HoldsString 1 src us) (hfuel : us.length < fuel) (dest n : Nat) :
    ∃ o, m.strcpyS fuel dest n src = some o ∧ StaysInside m 1 dest n 0 us o := by
  unfold strcpyS
  by_cases hdest : dest = 0 ∨ n = 0
  · exact ⟨_, if_pos hdest, staysInside_einval⟩
  · rw [if_neg hdest]
    have hn : 0 < n := by omega
    by_cases hsrc : src = 0
    · exact ⟨_, if_pos hsrc, staysInside_cleared hn⟩
    · rw [if_neg hsrc, readCstr_whole h hfuel, Option.map_some]
      by_cases hlen : n ≤ us.length
      · exact ⟨_, congrArg some (if_pos hlen), staysInside_erange hn⟩
      · refine ⟨_, congrArg some (if_neg hlen), ?_⟩
        exact (staysInside_whole_iff rfl (HoldsString.lt h) (HoldsString.lt h) (by omega)).mpr ⟨by omega, rfl⟩

theorem wcscpyS_staysInside_iff (h : m.HoldsString 2 src us) (hfuel : us.length < fuel) (dest n : Nat) :
    ∃ o, m.wcscpyS fuel dest n src = some o ∧
      (StaysInside m 2 dest n 0 us o ↔
        (dest ≠ 0 → src ≠ 0 → us.length - pairCount us < n → us.length < n ∧ ¬HasUnpaired us)) := by
  unfold wcscpyS
  by_cases hdest : dest = 0 ∨ n = 0
  · refine ⟨_, if_pos hdest, iff_of_true staysInside_einval ?_⟩
    intro hne _ hlt
    omega
  · rw [if_neg hdest]
    have hn : 0 < n := by omega
    by_cases hsrc : src = 0
    · exact ⟨_, if_pos hsrc, iff_of_true (staysInside_cleared hn) fun _ hne => absurd hsrc hne⟩
    · rw [if_neg hsrc, readWide_whole h hfuel, Option.bind_some, length_decodeUnits, pairCount_le]
      by_cases hlen : n ≤ us.length - pairCount us
      · refine ⟨_, if_pos hlen, iff_of_true (staysInside_erange hn) ?_⟩
        intro _ _ hlt
        omega
      · rw [if_neg hlen, wideStringUnits_terminated (decodeUnits_any_surrogate us), Option.map_some,
          encodeUnits_decode_replace h.units]
        refine ⟨_, rfl, ?_⟩
        rw [staysInside_whole_iff (length_rereadUnits _ _) (reread_lt h) (HoldsString.lt h) (by omega),
          reread_replace_iff]
        constructor
        · intro hgood _ _ _
          exact hgood
        · intro hgood
          exact hgood (by omega) hsrc (by omega)

/-- A copy of `count` characters, of a text that is read as `data`. -/
theorem copyNSecure_staysInside_iff {data : List Nat} (hwidth : 0 < width)
    (hread : (if width = 1 then m.readCstr fuel src 0 1 else (m.readWideString fuel src 0).map encodeUnits) = some data)
    (hlen : data.length = us.length) (hdata : ∀ c ∈ data, c < 256 ^ width) (hus : ∀ c ∈ us, c < 256 ^ width) :
    ∃ o, copyNSecure arch m fuel width dest n src count = some o ∧
      (StaysInside m width dest n 0 (us.take (count % (arch.getMaxInt + 1))) o ↔
        (dest ≠ 0 → src ≠ 0 → min us.length (count % (arch.getMaxInt + 1)) < n →
          data.take (count % (arch.getMaxInt + 1)) = us.take (count % (arch.getMaxInt + 1)))) := by
  unfold copyNSecure
  simp only [hread]
  generalize count % (arch.getMaxInt + 1) = count
  by_cases hdest : dest = 0 ∨ n = 0
  · refine ⟨_, if_pos hdest, iff_of_true staysInside_einval ?_⟩
    intro hne _ hlt
    omega
  · rw [if_neg hdest]
    have hn : 0 < n := by omega
    by_cases hsrc : src = 0
    · exact ⟨_, if_pos hsrc, iff_of_true (staysInside_cleared hn) fun _ hne => absurd hsrc hne⟩
    · rw [if_neg hsrc, Option.map_some, hlen]
      by_cases hfit : min us.length count < n
      · rw [if_pos hfit]
        refine ⟨_, rfl, ?_⟩
        have hcut : data.take (min us.length count) = data.take count := by
          rw [← hlen, Nat.min_comm, ← List.take_take, List.take_length]
        have hlength : (data.take count).length = (us.take count).length := by
          rw [List.length_take, List.length_take, hlen]
        rw [hcut, staysInside_whole_iff hlength (fun c hc => hdata c (List.mem_of_mem_take hc))
          (fun c hc => hus c (List.mem_of_mem_take hc)) hwidth]
        constructor
        · intro hgood _ _ _
          exact hgood.2
        · intro hgood
          refine ⟨?_, hgood (by omega) hsrc hfit⟩
          rw [List.length_take]
          omega
      · rw [if_neg hfit]
        by_cases htrunc : count = arch.getMaxInt
        · rw [if_pos htrunc]
          refine ⟨_, rfl, iff_of_true (staysInside_cut ?_) fun _ _ hlt => absurd hlt hfit⟩
          rw [List.length_take]
          omega
        · rw [if_neg htrunc]
          refine ⟨_, rfl, iff_of_true (staysInside_erange ?_) fun _ _ hlt => absurd hlt hfit⟩
          rw [List.length_drop, List.length_take]
          omega

theorem strncpyS_staysInside (arch : Arch) (h : m.HoldsString 1 src us) (hfuel : us.length < fuel)
    (dest n count : Nat) :
    ∃ o, strncpyS arch m fuel dest n src count = some o ∧
      StaysInside m 1 dest n 0 (us.take (count % (arch.getMaxInt + 1))) o := by
  obtain ⟨o, ho, hiff⟩ := @copyNSecure_staysInside_iff arch m 1 fuel dest n src count us us (by omega)
    ((if_pos rfl).trans (readCstr_whole h hfuel)) rfl (HoldsString.lt h) (HoldsString.lt h)
  exact ⟨o, ho, hiff.mpr fun _ _ _ => rfl⟩

theorem wcsncpyS_staysInside_iff (arch : Arch) (h : m.HoldsString 2 src us) (hfuel : us.length < fuel)
    (dest n count : Nat) :
    ∃ o, wcsncpyS arch m fuel dest n src count = some o ∧
      (StaysInside m 2 dest n 0 (us.take (count % (arch.getMaxInt + 1))) o ↔
        (dest ≠ 0 → src ≠ 0 → min us.length (count % (arch.getMaxInt + 1)) < n →
          ∀ i < count % (arch.getMaxInt + 1), ¬UnpairedAt us i)) := by
  have hread : (m.readWideString fuel src 0).map encodeUnits = some (rereadUnits replace us) := by
    rw [readWide_whole h hfuel, Option.map_some, encodeUnits_decode_replace h.units]
  obtain ⟨o, ho, hiff⟩ := @copyNSecure_staysInside_iff arch m 2 fuel dest n src count us (rereadUnits replace us)
    (by omega) ((if_neg (by omega)).trans hread) (length_rereadUnits _ _) (reread_lt h) (HoldsString.lt h)
  refine ⟨o, ho, ?_⟩
  rwa [rereadUnits_take_iff replace_ne] at hiff

theorem strcatS_staysInside (hd : m.HoldsString 1 dest us) (hs : m.HoldsString 1 src vs) (hus : us.length < fuel)
    (hvs : vs.length < fuel) (n : Nat) :
    ∃ o, m.strcatS fuel dest n src = some o ∧ StaysInside m 1 dest n us.length vs o := by
  unfold strcatS
  by_cases hdest : dest = 0 ∨ n = 0
  · exact ⟨_, if_pos hdest, staysInside_einval⟩
  · rw [if_neg hdest]
    have hn : 0 < n := by omega
    by_cases hsrc : src = 0
    · exact ⟨_, if_pos hsrc, staysInside_cleared hn⟩
    · rw [if_neg hsrc, readCstr_whole hd hus, Option.bind_some, readCstr_whole hs hvs, Option.map_some]
      by_cases hlen : n ≤ us.length + vs.length
      · exact ⟨_, congrArg some (if_pos hlen), staysInside_erange hn⟩
      · refine ⟨_, congrArg some (if_neg hlen), ?_⟩
        exact (staysInside_behind_iff rfl (HoldsString.lt hs) (HoldsString.lt hs) (by omega) rfl).mpr ⟨by omega, rfl⟩

/-- Of the source an unpaired surrogate must not be in it; the text in front is written anew, too. -/
theorem wcscatS_staysInside_iff (hd : m.HoldsString 2 dest us) (hs : m.HoldsString 2 src vs) (hus : us.length < fuel)
    (hvs : vs.length < fuel) (n : Nat) :
    ∃ o, m.wcscatS fuel dest n src = some o ∧
      (StaysInside m 2 dest n us.length vs o ↔
        (dest ≠ 0 → src ≠ 0 → us.length - pairCount us + (vs.length - pairCount vs) < n →
          us.length + vs.length < n ∧ ¬HasUnpaired vs)) ∧
      ((o.rv = 0 → (o.memory m 2).Holds dest (charBytes 2 us)) ↔
        (dest ≠ 0 → src ≠ 0 → us.length - pairCount us + (vs.length - pairCount vs) < n → ¬HasUnpaired us)) := by
  unfold wcscatS
  by_cases hdest : dest = 0 ∨ n = 0
  · refine ⟨_, if_pos hdest, iff_of_true staysInside_einval ?_, iff_of_true ?_ ?_⟩
    · intro hne _ hlt
      omega
    · intro h
      exact absurd h einval_values.1
    · intro hne _ hlt
      omega
  · rw [if_neg hdest]
    have hn : 0 < n := by omega
    by_cases hsrc : src = 0
    · refine ⟨_, if_pos hsrc, iff_of_true (staysInside_cleared hn) fun _ hne => absurd hsrc hne,
        iff_of_true ?_ fun _ hne => absurd hsrc hne⟩
      intro h
      exact absurd h einval_values.1
    · rw [if_neg hsrc, readWide_whole hd hus, Option.bind_some, readWide_whole hs hvs, Option.bind_some,
        length_decodeUnits, length_decodeUnits, pairCount_le, pairCount_le]
      by_cases hlen : n ≤ us.length - pairCount us + (vs.length - pairCount vs)
      · refine ⟨_, if_pos hlen, iff_of_true (staysInside_erange hn) ?_, iff_of_true ?_ ?_⟩
        · intro _ _ hlt
          omega
        · intro h
          exact absurd h erange_values.1
        · intro _ _ hlt
          omega
      · have hnone : (decodeUnits replace us ++ decodeUnits replace vs).any isSurrogate = false := by
          rw [List.any_append, decodeUnits_any_surrogate, decodeUnits_any_surrogate]
          rfl
        rw [if_neg hlen, wideStringUnits_terminated hnone, Option.map_some, encodeUnits_append,
          encodeUnits_decode_replace hd.units, encodeUnits_decode_replace hs.units]
        refine ⟨_, rfl, ?_, ?_⟩
        · rw [staysInside_behind_iff (length_rereadUnits _ _) (reread_lt hs) (HoldsString.lt hs) (by omega)
            (length_rereadUnits _ _).symm, reread_replace_iff]
          constructor
          · intro hgood _ _ _
            exact hgood
          · intro hgood
            exact hgood (by omega) hsrc (by omega)
        · have hfront : (m.writeChars 2 dest (rereadUnits replace us ++ rereadUnits replace vs ++ [0])).Holds dest
              (charBytes 2 (rereadUnits replace us)) := by
            have hpart := @readBytes_writeBytes m dest 0 (charBytes 2 (rereadUnits replace us)).length
              (charBytes 2 (rereadUnits replace us ++ rereadUnits replace vs ++ [0]))
              (by rw [List.append_assoc, charBytes_append, List.length_append]; omega)
            rwa [Nat.add_zero, List.drop_zero, List.append_assoc, charBytes_append,
              List.take_left' rfl, ← charBytes_append, ← List.append_assoc] at hpart
          rw [memory_single]
          constructor
          · intro hkept _ _ _
            rw [← reread_replace_iff]
            have hbytes : charBytes 2 (rereadUnits replace us) = charBytes 2 us := by
              rw [← hfront, ← hkept rfl, charBytes_length, charBytes_length, length_rereadUnits]
            exact charBytes_injective (rereadUnits_lt hd.units) hd.units (length_rereadUnits _ _) hbytes
          · intro hgood _
            have hclean := hgood (by omega) hsrc (by omega)
            rw [← reread_replace_iff] at hclean
            rwa [hclean] at hfront ⊢

/-- The characters that `strncat_s` and `wcsncat_s` append. -/
def appended (arch : Arch) (count : Nat) (vs : List Nat) : List Nat :=
  if count = arch.getMaxInt then vs else vs.take count

theorem getMaxInt_pos (arch : Arch) : 0 < arch.getMaxInt := by
  cases arch with
  | x86 => decide
  | amd64 => decide

theorem appendNSecure_staysInside (arch : Arch) (hwidth : 0 < width) (hd : m.HoldsString width dest us)
    (hs : m.HoldsString width src vs) (hus : us.length < fuel) (hvs : vs.length < fuel) (n count : Nat) :
    ∃ o, appendNSecure arch m fuel width dest n src count = some o ∧
      StaysInside m width dest n us.length (appended arch count vs) o := by
  have hread : (if count ≠ 0 then m.readCstr fuel src (if count = arch.getMaxInt then 0 else count) width
      else some []) = some (appended arch count vs) := by
    have hpos := getMaxInt_pos arch
    unfold appended
    by_cases hcount : count = 0
    · rw [if_neg (by omega), if_neg (by omega), hcount, List.take_zero]
    · rw [if_pos hcount, hs.readCstr_eq _ hvs]
      by_cases hmax : count = arch.getMaxInt
      · rw [if_pos hmax, if_pos hmax]
        rfl
      · rw [if_neg hmax, if_neg hmax, boundedChars, if_neg hcount]
  have hchars : ∀ c ∈ appended arch count vs, c < 256 ^ width := by
    intro c hc
    unfold appended at hc
    split at hc
    next => exact HoldsString.lt hs c hc
    next => exact HoldsString.lt hs c (List.mem_of_mem_take hc)
  unfold appendNSecure
  simp only [readCstr_whole hd hus, Option.bind_some, hread, Option.map_some]
  generalize appended arch count vs = text at hchars ⊢
  by_cases hroom : n ≤ us.length
  · exact ⟨_, congrArg some (if_pos hroom), staysInside_einval⟩
  · rw [if_neg hroom]
    by_cases hfit : text.length < n - us.length
    · refine ⟨_, congrArg some (if_pos hfit), ?_⟩
      have hiff := @staysInside_success_iff m width dest n us.length text us.length [] text rfl rfl hchars hchars hwidth
      rw [List.nil_append] at hiff
      exact hiff.mpr ⟨by omega, rfl⟩
    · rw [if_neg hfit]
      by_cases htrunc : count = arch.getMaxInt
      · refine ⟨_, congrArg some (if_pos htrunc), staysInside_truncated ?_⟩
        rw [List.length_take]
        omega
      · exact ⟨_, congrArg some (if_neg htrunc), staysInside_erange (by rw [List.length_nil]; omega)⟩

end

end Speakeasy
