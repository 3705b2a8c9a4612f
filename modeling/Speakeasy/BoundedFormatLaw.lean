import Speakeasy.BoundedFormats

namespace Speakeasy

open ByteMemory

/-- Each character of a text is one guest character: a byte, or a unit that is no surrogate. -/
def OneUnitEach (width : Nat) (fin : List Nat) : Prop := width = 1 ∨ ∀ c ∈ fin, c < 0x10000 ∧ ¬isSurrogate c

/-- The old functions: as much of the text as there is room for, and a terminator when there is room for it, too. -/
def legacyText (t : List Nat) (n : Nat) : List Nat := t.take n ++ if t.length < n then [0] else []

/-- The standard and the default mode: a terminator in any case. -/
def terminatedText (t : List Nat) (n : Nat) : List Nat := t.take (n - 1) ++ [0]

def legacyResult (buffer n : Nat) (t : List Nat) : FormatResult :=
  ⟨if t.length ≤ n then t.length else -1, [(buffer, legacyText t n)]⟩

/-- A text `t` by the options of its call; without a buffer its length alone is asked for. -/
def stdioResult (options buffer n : Nat) (t : List Nat) : FormatResult :=
  if buffer = 0 ∧ n = 0 then ⟨t.length, []⟩
  else if options &&& 2 ≠ 0 then ⟨t.length, if n = 0 then [] else [(buffer, terminatedText t n)]⟩
  else if options &&& 1 ≠ 0 then
    ⟨if t.length ≤ n then t.length else -1, if n = 0 then [] else [(buffer, legacyText t n)]⟩
  else ⟨if t.length < n then t.length else -1, if n = 0 then [] else [(buffer, terminatedText t n)]⟩

/-- The text that the `_s` functions write: at most `count` characters, unless `count` asks for truncation. -/
def limitedText (truncate : Nat) (count : Option Nat) (t : List Nat) : List Nat :=
  if count = none ∨ count = some truncate then t else t.take (count.getD 0)

/-- All of the limited text, its longest prefix that fits for truncation, or an empty string. -/
def secureResult (truncate buffer n : Nat) (count : Option Nat) (t : List Nat) : FormatResult :=
  let text := limitedText truncate count t
  if buffer = 0 ∨ n = 0 then ⟨-1, []⟩
  else if text.length < n then ⟨if text.length = t.length then t.length else -1, [(buffer, text ++ [0])]⟩
  else if count = some truncate then ⟨-1, [(buffer, terminatedText t n)]⟩
  else ⟨-1, [(buffer, [0])]⟩

section Texts

variable {width : Nat} {fin : List Nat}

theorem encodeString_append_zero {text units : List Nat} (h : encodeString width text = some units) :
    encodeString width (text ++ [0]) = some (units ++ [0]) := by
  unfold encodeString at h ⊢
  split
  next hone =>
    rw [if_pos hone, Option.some.injEq] at h
    rw [← h, List.map_append]
    rfl
  next hone =>
    rw [if_neg hone] at h
    split at h
    next => cases h
    next hnone =>
      rw [Option.some.injEq] at h
      have hall : (text ++ [0]).any isSurrogate = false := by
        rw [List.any_append, Bool.not_eq_true _ |>.mp hnone]
        rfl
      rw [hall, if_neg (by decide), ← h, encodeUnits_append]
      rfl

theorem encodeUnits_plain (h : ∀ c ∈ fin, c < 0x10000) : encodeUnits fin = fin := by
  induction fin with
  | nil => rfl
  | cons c fin ih =>
    have htail := ih fun x hx => h x (List.mem_cons_of_mem _ hx)
    show encodeChar c ++ encodeUnits fin = c :: fin
    rw [htail, encodeChar, if_pos (h c List.mem_cons_self)]
    rfl

/-- A prefix of the text is written as the same prefix of its guest characters. -/
theorem encodeString_take (h : OneUnitEach width fin) (k : Nat) :
    encodeString width (fin.take k) = some ((encodeText width fin).take k) := by
  unfold encodeString encodeText
  by_cases hone : width = 1
  · rw [if_pos hone, if_pos hone, List.map_take]
  · have hall := h.resolve_left hone
    have hnone : (fin.take k).any isSurrogate = false := by
      rw [List.any_eq_false]
      exact fun c hc => (hall c (List.mem_of_mem_take hc)).2
    rw [if_neg hone, if_neg hone, hnone, if_neg (by decide), encodeUnits_plain fun c hc => (hall c hc).1,
      encodeUnits_plain fun c hc => (hall c (List.mem_of_mem_take hc)).1]

theorem encodeText_length (h : OneUnitEach width fin) : (encodeText width fin).length = fin.length := by
  unfold encodeText
  by_cases hone : width = 1
  · rw [if_pos hone, List.length_map]
  · rw [if_neg hone, encodeUnits_plain fun c hc => (h.resolve_left hone c hc).1]

theorem encodeString_all (h : OneUnitEach width fin) : encodeString width fin = some (encodeText width fin) := by
  have htake := encodeString_take h fin.length
  rwa [List.take_length, ← encodeText_length h, List.take_length] at htake

theorem legacyText_length (t : List Nat) (n : Nat) : (legacyText t n).length ≤ n := by
  unfold legacyText
  split
  next => simp; omega
  next => simp

theorem terminatedText_length (t : List Nat) {n : Nat} (hn : 0 < n) : (terminatedText t n).length ≤ n := by
  unfold terminatedText
  simp
  omega

/-- With room for the terminator all texts are the whole one. -/
theorem texts_of_room {t : List Nat} {n : Nat} (h : t.length < n) :
    legacyText t n = t ++ [0] ∧ terminatedText t n = t ++ [0] := by
  unfold legacyText terminatedText
  rw [if_pos h, List.take_of_length_le (by omega), List.take_of_length_le (by omega)]
  exact ⟨rfl, rfl⟩

end Texts

section Writing

variable {width : Nat} {fin : List Nat} (g : PrintfGuest)

theorem stdioWrite_eq (h : OneUnitEach width fin) (options buffer n : Nat) :
    PrintfGuest.stdioWrite options buffer n fin width = some (stdioResult options buffer n (encodeText width fin)) := by
  have hlen := encodeText_length h
  unfold PrintfGuest.stdioWrite stdioResult
  rw [hlen]
  by_cases hask : buffer = 0 ∧ n = 0
  · rw [if_pos hask, if_pos hask]
  · rw [if_neg hask, if_neg hask]
    by_cases hn : n = 0
    · simp only [hn, ne_eq, not_true, if_false, if_true]
      by_cases hstandard : options &&& 2 = 0
      · by_cases hlegacy : options &&& 1 = 0
        · simp only [hstandard, hlegacy, not_true, if_false]
        · simp only [hstandard, hlegacy, not_true, not_false_eq_true, if_false, if_true]
      · simp only [hstandard, not_false_eq_true, if_true]
    · have hterminated : encodeString width (fin.take (n - 1) ++ [0]) = some (terminatedText (encodeText width fin) n) :=
        encodeString_append_zero (encodeString_take h (n - 1))
      have hold : encodeString width (if n ≤ fin.length then fin.take n else fin ++ [0]) =
          some (legacyText (encodeText width fin) n) := by
        unfold legacyText
        by_cases hfit : n ≤ fin.length
        · rw [if_pos hfit, encodeString_take h n, hlen, if_neg (by omega), List.append_nil]
        · rw [if_neg hfit, hlen, if_pos (by omega), List.take_of_length_le (by omega)]
          exact encodeString_append_zero (encodeString_all h)
      simp only [if_neg hn, if_pos hn]
      by_cases hstandard : options &&& 2 = 0
      · by_cases hlegacy : options &&& 1 = 0
        · simp only [hstandard, hlegacy, ne_eq, not_true, if_false, hterminated, Option.map_some]
        · simp only [hstandard, hlegacy, ne_eq, not_true, not_false_eq_true, if_false, if_true, hold, Option.map_some]
      · simp only [hstandard, ne_eq, not_false_eq_true, if_true, hterminated, Option.map_some]

theorem writeSecureFormat_eq (h : OneUnitEach width fin) (buffer n : Nat) (count : Option Nat) :
    g.writeSecureFormat buffer n count fin width =
      some (secureResult (2 ^ g.arch.bits - 1) buffer n count (encodeText width fin)) := by
  have hlen := encodeText_length h
  unfold PrintfGuest.writeSecureFormat secureResult
  generalize 2 ^ g.arch.bits - 1 = truncate
  by_cases hempty : buffer = 0 ∨ n = 0
  · rw [if_pos hempty]
    simp only [if_pos hempty]
  · rw [if_neg hempty]
    simp only [if_neg hempty]
    obtain ⟨k, hk, htext, hlimited⟩ : ∃ k ≤ fin.length,
        (if count = none ∨ count = some truncate then fin else fin.take (count.getD 0)) = fin.take k ∧
        limitedText truncate count (encodeText width fin) = (encodeText width fin).take k := by
      unfold limitedText
      by_cases hall : count = none ∨ count = some truncate
      · rw [if_pos hall, if_pos hall]
        exact ⟨fin.length, Nat.le_refl _, List.take_length.symm, by rw [← hlen, List.take_length]⟩
      · rw [if_neg hall, if_neg hall]
        refine ⟨min (count.getD 0) fin.length, Nat.min_le_right _ _, ?_, ?_⟩
        · rw [← List.take_take, List.take_length]
        · rw [← hlen, ← List.take_take, List.take_length]
    have hk' : k ≤ (encodeText width fin).length := by omega
    have hwhole : fin.take k = fin ↔ k = (encodeText width fin).length := by
      rw [List.take_eq_self_iff]
      omega
    rw [htext, hlimited]
    simp only [List.length_take_of_le hk, List.length_take_of_le hk', hwhole]
    by_cases hfit : k < n
    · simp only [if_pos hfit, encodeString_append_zero (encodeString_take h k), Option.map_some, hlen]
    · by_cases hcut : count = some truncate
      · have hwritten : encodeString width ((fin.take k).take (n - 1) ++ [0]) =
            some (terminatedText (encodeText width fin) n) := by
          rw [List.take_take, Nat.min_eq_left (by omega)]
          exact encodeString_append_zero (encodeString_take h (n - 1))
        simp only [if_neg hfit, if_pos hcut, hwritten, Option.map_some]
      · have hwritten : encodeString width ([] ++ [0]) = some [0] := by
          have hzero := encodeString_append_zero (encodeString_take h 0)
          rwa [List.take_zero, List.take_zero] at hzero
        simp only [if_neg hfit, if_neg hcut, hwritten, Option.map_some]

end Writing

section Calls

variable {g : PrintfGuest} {width format argptr : Nat} {rest : Nat → Nat} {fin : List Nat}

/-- The arguments of a call: the fixed ones, and then the variable ones. -/
def callSlots (front : List Nat) (rest : Nat → Nat) (i : Nat) : Nat := (front[i]?).getD (rest (i - front.length))

/-- The arguments of `__stdio_common_v*printf*`, where the options take two slots on x86. -/
def stdioArgv (arch : Arch) (options high : Nat) (fields : List Nat) : List Nat :=
  options :: if arch = .amd64 then fields else high :: fields

/-- A format and variable arguments, which a `va_list` holds, too, give the text `fin`. -/
def PrintfCall (g : PrintfGuest) (width format argptr : Nat) (rest : Nat → Nat) (fin : List Nat) : Prop :=
  ∃ fmt, g.readMemString format width = some fmt ∧
    g.vaArgs argptr (g.getVaArgCount fmt) = some ((List.range (g.getVaArgCount fmt)).map rest) ∧
    g.doStrFormat fmt ((List.range (g.getVaArgCount fmt)).map rest) (width = 2) = some fin

theorem map_callSlots (front : List Nat) (rest : Nat → Nat) (count : Nat) :
    (List.range (front.length + count)).map (callSlots front rest) = front ++ (List.range count).map rest := by
  apply List.ext_getElem
  · simp
  · intro i hi _
    rw [List.length_map, List.length_range] at hi
    rw [List.getElem_map, List.getElem_range, callSlots]
    by_cases hfront : i < front.length
    · rw [List.getElem?_eq_getElem hfront, Option.getD_some, List.getElem_append_left hfront]
    · rw [List.getElem?_eq_none (by omega), Option.getD_none, List.getElem_append_right (by omega), List.getElem_map,
        List.getElem_range]

theorem formatVarArgs_eq (h : PrintfCall g width format argptr rest fin) (front : List Nat) :
    g.formatVarArgs (callSlots (front ++ [format]) rest) (front.length + 1) width = some (front ++ [format], fin) := by
  obtain ⟨fmt, hfmt, -, hfin⟩ := h
  have hlen : (front ++ [format]).length = front.length + 1 := by simp
  have hhead := map_callSlots (front ++ [format]) rest 0
  have hall := map_callSlots (front ++ [format]) rest (g.getVaArgCount fmt)
  rw [hlen] at hhead hall
  rw [Nat.add_zero, List.range_zero, List.map_nil, List.append_nil] at hhead
  have hargs : (front ++ [format] ++ (List.range (g.getVaArgCount fmt)).map rest).drop (front.length + 1) =
      (List.range (g.getVaArgCount fmt)).map rest := List.drop_left' hlen
  have hlast : (front ++ [format]).getLastD 0 = format := by simp
  unfold PrintfGuest.formatVarArgs
  simp only [hhead, hlast, hfmt, Option.bind_eq_bind, Option.bind_some, hall, hargs, hfin]
  rfl

theorem formatVaList_eq (h : PrintfCall g width format argptr rest fin) :
    g.formatVaList format argptr width = some fin := by
  obtain ⟨fmt, hfmt, hargs, hfin⟩ := h
  unfold PrintfGuest.formatVaList
  simp only [hfmt, hargs, Option.bind_eq_bind, Option.bind_some, hfin]

theorem stdioCommonFormat_eq (h : PrintfCall g width format argptr rest fin) (hplain : OneUnitEach width fin)
    (options high buffer n count locale : Nat) :
    g.stdioCommonFormat (stdioArgv g.arch options high [buffer, n, format, locale, argptr]) width false false =
        some (stdioResult options buffer n (encodeText width fin)) ∧
      g.stdioCommonFormat (stdioArgv g.arch options high [buffer, n, format, locale, argptr]) width true false =
        some (secureResult (2 ^ g.arch.bits - 1) buffer n none (encodeText width fin)) ∧
      g.stdioCommonFormat (stdioArgv g.arch options high [buffer, n, count, format, locale, argptr]) width true true =
        some (secureResult (2 ^ g.arch.bits - 1) buffer n (some count) (encodeText width fin)) := by
  have hfields : ∀ fields : List Nat,
      (stdioArgv g.arch options high fields).drop (if g.arch = .amd64 then 1 else 2) = fields := by
    intro fields
    unfold stdioArgv
    split
    next => rfl
    next => rfl
  have hplainRun : ∀ count secure, g.stdioFormat options buffer n count format argptr width secure =
      if secure = true then g.writeSecureFormat buffer n count fin width
      else PrintfGuest.stdioWrite options buffer n fin width := by
    intro count secure
    unfold PrintfGuest.stdioFormat
    simp only [formatVaList_eq h, Option.bind_eq_bind, Option.bind_some]
  unfold PrintfGuest.stdioCommonFormat
  simp only [hfields]
  refine ⟨?_, ?_, ?_⟩
  · exact (hplainRun none false).trans (stdioWrite_eq hplain options buffer n)
  · exact (hplainRun none true).trans (writeSecureFormat_eq g hplain buffer n none)
  · exact (hplainRun (some count) true).trans (writeSecureFormat_eq g hplain buffer n (some count))

/-- A count behind which the text ends, and what is written then. -/
theorem bounded_eq (h : OneUnitEach width fin) (n : Nat) :
    encodeString width (if fin.length < n then fin.take n ++ [0] else fin.take n) =
        some (legacyText (encodeText width fin) n) ∧
      (encodeString width (fin.take n)).map (fun out => if fin.length < n then out ++ [0] else out) =
        some (legacyText (encodeText width fin) n) := by
  have hlen := encodeText_length h
  have htake := encodeString_take h n
  unfold legacyText
  rw [hlen, htake, Option.map_some]
  by_cases hfit : fin.length < n
  · rw [if_pos hfit, if_pos hfit, if_pos hfit]
    exact ⟨encodeString_append_zero htake, rfl⟩
  · rw [if_neg hfit, if_neg hfit, if_neg hfit, List.append_nil]
    exact ⟨htake, rfl⟩

theorem vsnprintf_eq (h : PrintfCall g 1 format argptr rest fin) (buffer n : Nat) :
    g.vsnprintf buffer n format argptr = some (legacyResult buffer n (encodeText 1 fin)) := by
  have hplain : OneUnitEach 1 fin := Or.inl rfl
  obtain ⟨out, hout, htext⟩ := Option.map_eq_some_iff.mp (bounded_eq hplain n).2
  unfold PrintfGuest.vsnprintf legacyResult
  simp only [formatVaList_eq h, Option.bind_eq_bind, Option.bind_some, hout, htext, encodeText_length hplain]
  rfl

theorem snwprintf_eq (h : PrintfCall g 2 format argptr rest fin) (hplain : OneUnitEach 2 fin) (buffer n : Nat) :
    g.snwprintf (callSlots [buffer, n, format] rest) = some (legacyResult buffer n (encodeText 2 fin)) := by
  obtain ⟨out, hout, htext⟩ := Option.map_eq_some_iff.mp (bounded_eq hplain n).2
  have hargs := formatVarArgs_eq h [buffer, n]
  have hlen := encodeText_length hplain
  have hcnt : [buffer, n, format].getD 1 0 = n := rfl
  unfold PrintfGuest.snwprintf legacyResult
  rw [show ([buffer, n] ++ [format]) = [buffer, n, format] from rfl, show [buffer, n].length + 1 = 3 from rfl] at hargs
  simp only [hargs, Option.bind_eq_bind, Option.bind_some, hcnt, hout, htext, hlen]
  rfl

theorem vsnwprintf_eq (h : PrintfCall g 2 format argptr rest fin) (hplain : OneUnitEach 2 fin) (buffer n : Nat) :
    g.vsnwprintf buffer n format argptr = some (legacyResult buffer n (encodeText 2 fin)) := by
  unfold PrintfGuest.vsnwprintf legacyResult
  simp only [formatVaList_eq h, Option.bind_eq_bind, Option.bind_some, (bounded_eq hplain n).1,
    encodeText_length hplain]
  rfl

end Calls

section Law

variable {g : PrintfGuest} {format argptr wformat wargptr : Nat} {rest wrest : Nat → Nat} {fin wfin : List Nat}

theorem lengths_eq (h : PrintfCall g 1 format argptr rest fin) (hw : PrintfCall g 2 wformat wargptr wrest wfin)
    (hplain : OneUnitEach 2 wfin) :
    g.scprintf (callSlots [format] rest) = some ((encodeText 1 fin).length : Int) ∧
      g.vscprintf format argptr = some ((encodeText 1 fin).length : Int) ∧
      g.scwprintf (callSlots [wformat] wrest) = some ((encodeText 2 wfin).length : Int) ∧
      g.vscwprintf wformat wargptr = some ((encodeText 2 wfin).length : Int) := by
  have hargs := formatVarArgs_eq h []
  have hwargs := formatVarArgs_eq hw []
  rw [List.nil_append, List.length_nil, Nat.zero_add] at hargs hwargs
  rw [encodeText_length (Or.inl rfl), encodeText_length hplain]
  unfold PrintfGuest.scprintf PrintfGuest.vscprintf PrintfGuest.scwprintf PrintfGuest.vscwprintf
  rw [hargs, hwargs, formatVaList_eq h, formatVaList_eq hw]
  exact ⟨rfl, rfl, rfl, rfl⟩

theorem secureVarArgs_eq {width : Nat} (h : PrintfCall g width format argptr rest fin) (hplain : OneUnitEach width fin)
    (buffer n count : Nat) :
    ((g.formatVarArgs (callSlots [buffer, n, format] rest) 3 width).bind fun r =>
        g.writeSecureFormat (r.1.getD 0 0) (r.1.getD 1 0) none r.2 width) =
        some (secureResult (2 ^ g.arch.bits - 1) buffer n none (encodeText width fin)) ∧
      ((g.formatVarArgs (callSlots [buffer, n, count, format] rest) 4 width).bind fun r =>
        g.writeSecureFormat (r.1.getD 0 0) (r.1.getD 1 0) (some (r.1.getD 2 0)) r.2 width) =
        some (secureResult (2 ^ g.arch.bits - 1) buffer n (some count) (encodeText width fin)) := by
  have hthree : g.formatVarArgs (callSlots [buffer, n, format] rest) 3 width = some ([buffer, n, format], fin) :=
    formatVarArgs_eq h [buffer, n]
  have hfour : g.formatVarArgs (callSlots [buffer, n, count, format] rest) 4 width =
      some ([buffer, n, count, format], fin) := formatVarArgs_eq h [buffer, n, count]
  rw [hthree, hfour, Option.bind_some, Option.bind_some]
  exact ⟨writeSecureFormat_eq g hplain buffer n none, writeSecureFormat_eq g hplain buffer n (some count)⟩

theorem secureVaList_eq {width : Nat} (h : PrintfCall g width format argptr rest fin) (hplain : OneUnitEach width fin)
    (buffer n : Nat) :
    ((g.formatVaList format argptr width).bind fun fin => g.writeSecureFormat buffer n none fin width) =
      some (secureResult (2 ^ g.arch.bits - 1) buffer n none (encodeText width fin)) := by
  rw [formatVaList_eq h, Option.bind_some]
  exact writeSecureFormat_eq g hplain buffer n none

/-- A buffer of one character more than the text takes all of it in every function and mode. -/
theorem results_of_room (options buffer : Nat) (t : List Nat) :
    legacyResult buffer (t.length + 1) t = ⟨t.length, [(buffer, t ++ [0])]⟩ ∧
      stdioResult options buffer (t.length + 1) t = ⟨t.length, [(buffer, t ++ [0])]⟩ ∧
      ∀ truncate, buffer ≠ 0 →
        secureResult truncate buffer (t.length + 1) none t = ⟨t.length, [(buffer, t ++ [0])]⟩ ∧
          ∀ count, t.length ≤ count →
            secureResult truncate buffer (t.length + 1) (some count) t = ⟨t.length, [(buffer, t ++ [0])]⟩ := by
  have hroom : t.length < t.length + 1 := Nat.lt_succ_self _
  obtain ⟨hlegacy, hterminated⟩ := texts_of_room hroom
  refine ⟨?_, ?_, ?_⟩
  · unfold legacyResult
    rw [hlegacy, if_pos (Nat.le_succ _)]
  · unfold stdioResult
    rw [hlegacy, hterminated, if_neg (by omega), if_pos (Nat.le_succ _), if_pos hroom, if_neg (Nat.succ_ne_zero _)]
    split
    next => rfl
    next =>
      split
      next => rfl
      next => rfl
  · intro truncate hbuffer
    have hwhole : ∀ count, limitedText truncate count t = t →
        secureResult truncate buffer (t.length + 1) count t = ⟨t.length, [(buffer, t ++ [0])]⟩ := by
      intro count hlimited
      unfold secureResult
      simp only [hlimited, if_neg (show ¬(buffer = 0 ∨ t.length + 1 = 0) by omega), if_pos hroom, if_true]
    refine ⟨hwhole none (if_pos (Or.inl rfl)), fun count hcount => hwhole (some count) ?_⟩
    unfold limitedText
    split
    next => rfl
    next => exact List.take_of_length_le hcount

/-- The bounded functions write and return what the unbounded text says, of narrow texts and of wide texts whose
characters are one unit each. -/
theorem printfFamily_law (h : PrintfCall g 1 format argptr rest fin)
    (hw : PrintfCall g 2 wformat wargptr wrest wfin) (hplain : ∀ c ∈ wfin, c < 0x10000 ∧ ¬isSurrogate c)
    (options high locale buffer n count : Nat) :
    (g.scprintf (callSlots [format] rest) = some ((encodeText 1 fin).length : Int) ∧
      g.vscprintf format argptr = some ((encodeText 1 fin).length : Int) ∧
      g.scwprintf (callSlots [wformat] wrest) = some ((encodeText 2 wfin).length : Int) ∧
      g.vscwprintf wformat wargptr = some ((encodeText 2 wfin).length : Int)) ∧
    (g.vsnprintf buffer n format argptr = some (legacyResult buffer n (encodeText 1 fin)) ∧
      g.snwprintf (callSlots [buffer, n, wformat] wrest) = some (legacyResult buffer n (encodeText 2 wfin)) ∧
      g.vsnwprintf buffer n wformat wargptr = some (legacyResult buffer n (encodeText 2 wfin))) ∧
    (g.stdioCommonVsprintf (stdioArgv g.arch options high [buffer, n, format, locale, argptr]) =
        some (stdioResult options buffer n (encodeText 1 fin)) ∧
      g.stdioCommonVswprintf (stdioArgv g.arch options high [buffer, n, wformat, locale, wargptr]) =
        some (stdioResult options buffer n (encodeText 2 wfin))) ∧
    (g.stdioCommonVsprintfS (stdioArgv g.arch options high [buffer, n, format, locale, argptr]) =
        some (secureResult (2 ^ g.arch.bits - 1) buffer n none (encodeText 1 fin)) ∧
      g.stdioCommonVswprintfS (stdioArgv g.arch options high [buffer, n, wformat, locale, wargptr]) =
        some (secureResult (2 ^ g.arch.bits - 1) buffer n none (encodeText 2 wfin)) ∧
      g.stdioCommonVsnprintfS (stdioArgv g.arch options high [buffer, n, count, format, locale, argptr]) =
        some (secureResult (2 ^ g.arch.bits - 1) buffer n (some count) (encodeText 1 fin)) ∧
      g.stdioCommonVsnwprintfS (stdioArgv g.arch options high [buffer, n, count, wformat, locale, wargptr]) =
        some (secureResult (2 ^ g.arch.bits - 1) buffer n (some count) (encodeText 2 wfin)) ∧
      g.sprintfS (callSlots [buffer, n, format] rest) =
        some (secureResult (2 ^ g.arch.bits - 1) buffer n none (encodeText 1 fin)) ∧
      g.swprintfS (callSlots [buffer, n, wformat] wrest) =
        some (secureResult (2 ^ g.arch.bits - 1) buffer n none (encodeText 2 wfin)) ∧
      g.snprintfS (callSlots [buffer, n, count, format] rest) =
        some (secureResult (2 ^ g.arch.bits - 1) buffer n (some count) (encodeText 1 fin)) ∧
      g.snwprintfS (callSlots [buffer, n, count, wformat] wrest) =
        some (secureResult (2 ^ g.arch.bits - 1) buffer n (some count) (encodeText 2 wfin)) ∧
      g.vsprintfS buffer n format argptr =
        some (secureResult (2 ^ g.arch.bits - 1) buffer n none (encodeText 1 fin)) ∧
      g.vswprintfS buffer n wformat wargptr =
        some (secureResult (2 ^ g.arch.bits - 1) buffer n none (encodeText 2 wfin))) ∧
    (∀ t : List Nat, (legacyText t n).length ≤ n ∧ (0 < n → (terminatedText t n).length ≤ n) ∧
      (t.length < n → legacyText t n = t ++ [0] ∧ terminatedText t n = t ++ [0])) ∧
    ∀ t ∈ [encodeText 1 fin, encodeText 2 wfin],
      legacyResult buffer (t.length + 1) t = ⟨t.length, [(buffer, t ++ [0])]⟩ ∧
        stdioResult options buffer (t.length + 1) t = ⟨t.length, [(buffer, t ++ [0])]⟩ ∧
        ∀ truncate, buffer ≠ 0 →
          secureResult truncate buffer (t.length + 1) none t = ⟨t.length, [(buffer, t ++ [0])]⟩ ∧
            ∀ count, t.length ≤ count →
              secureResult truncate buffer (t.length + 1) (some count) t = ⟨t.length, [(buffer, t ++ [0])]⟩ := by
  have hnarrow : OneUnitEach 1 fin := Or.inl rfl
  have hwide : OneUnitEach 2 wfin := Or.inr hplain
  obtain ⟨hs1, hs2, hs3⟩ := stdioCommonFormat_eq h hnarrow options high buffer n count locale
  obtain ⟨hw1, hw2, hw3⟩ := stdioCommonFormat_eq hw hwide options high buffer n count locale
  refine ⟨lengths_eq h hw hwide, ⟨vsnprintf_eq h buffer n, snwprintf_eq hw hwide buffer n, vsnwprintf_eq hw hwide buffer n⟩,
    ⟨hs1, hw1⟩, ⟨hs2, hw2, hs3, hw3, (secureVarArgs_eq h hnarrow buffer n count).1,
      (secureVarArgs_eq hw hwide buffer n count).1, (secureVarArgs_eq h hnarrow buffer n count).2,
      (secureVarArgs_eq hw hwide buffer n count).2, secureVaList_eq h hnarrow buffer n, secureVaList_eq hw hwide buffer n⟩,
    fun t => ⟨legacyText_length t n, terminatedText_length t, texts_of_room⟩, fun t _ => results_of_room options buffer t⟩

/-- A guest whose only string is a decimal conversion, and whose arguments are all 77777. -/
def decimalGuest : FormatGuest :=
  { FormatGuest.blank with
    readString := fun _ => some ['%', 'd']
    readWideString := fun _ => some ['%', 'd']
    readPtr := fun _ => some 77777 }

theorem decimalGuest_call (width : Nat) :
    PrintfCall (decimalGuest.printfGuest .x86) width 0x1000 0x2000 (fun _ => 77777)
      [0x37, 0x37, 0x37, 0x37, 0x37] := by
  have hpieces : decimalGuest.pieces ['%', 'd'] = [.inr ⟨[], none, none, none, 'd'⟩] := by
    have hd : ((FormatSpec.pattern decimalGuest.decimal).matcher ['%', 'd']).head? =
        some (⟨[], none, none, none, 'd'⟩, []) := by rfl
    unfold FormatGuest.pieces
    rw [Pattern.pieces_cons_found hd, Pattern.pieces_nil]
  have hread : (decimalGuest.printfGuest .x86).readMemString 0x1000 width = some [0x25, 0x64] := by
    show (if width = 1 then some ['%', 'd'] else some ['%', 'd']).map (·.map Char.toNat) = some [0x25, 0x64]
    rw [ite_self]
    rfl
  have hcount : (decimalGuest.printfGuest .x86).getVaArgCount [0x25, 0x64] = 1 := by
    show getVaArgCount .x86 ((decimalGuest.pieces ['%', 'd']).filterMap Sum.getRight?) = 1
    rw [hpieces]
    rfl
  have hrun : ∀ wide, decimalGuest.doStrFormat .x86 wide ['%', 'd'] [77777] = .ok ⟨['7', '7', '7', '7', '7'], []⟩ := by
    intro wide
    show (decimalGuest.pieces ['%', 'd']).foldlM (decimalGuest.formatPiece .x86 wide) ⟨[], [77777]⟩ = _
    rw [hpieces]
    rfl
  refine ⟨[0x25, 0x64], hread, ?_, ?_⟩
  · rw [hcount]
    rfl
  · rw [hcount]
    have hchars : ([0x25, 0x64] : List Nat).map Char.ofNat = ['%', 'd'] := by decide
    show ((decimalGuest.doStrFormat .x86 (decide (width = 2)) (([0x25, 0x64] : List Nat).map Char.ofNat)
      [77777]).toOption.map fun state => state.out.map Char.toNat) = _
    rw [hchars, hrun]
    rfl

theorem printfFamily_law_decimal :
    (decimalGuest.printfGuest .x86).snwprintf (callSlots [0x5000, 3, 0x1000] fun _ => 77777) =
      some ⟨-1, [(0x5000, [0x37, 0x37, 0x37])]⟩ :=
  (printfFamily_law (decimalGuest_call 1) (decimalGuest_call 2) (by decide) 0 0 0 0x5000 3 0).2.1.2.1

/-- A count of 2 cuts the text of five characters in a buffer of eight. -/
theorem snprintfS_counts :
    PrintfCall (decimalGuest.printfGuest .x86) 1 0x1000 0x2000 (fun _ => 77777) [0x37, 0x37, 0x37, 0x37, 0x37] ∧
      (decimalGuest.printfGuest .x86).snprintfS (callSlots [0x5000, 8, 2, 0x1000] fun _ => 77777) =
        some ⟨-1, [(0x5000, [0x37, 0x37, 0])]⟩ :=
  ⟨decimalGuest_call 1, (secureVarArgs_eq (decimalGuest_call 1) (Or.inl rfl) 0x5000 8 2).2⟩

end Law

end Speakeasy
