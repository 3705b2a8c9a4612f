import Speakeasy.MemoryManager
import Speakeasy.RunScans
import Mathlib.Data.List.TakeWhile
import Mathlib.Data.List.Sort

namespace Speakeasy

open RunScans

/-- `[\x20-\x7f]`. -/
def isText (b : UInt8) : Bool := 0x20 ≤ b.toNat && b.toNat ≤ 0x7f

/-- How many `(?:[\x20-\x7f]\x00)` a buffer begins with. -/
def countPairs : List UInt8 → Nat
  | c :: z :: s => if isText c ∧ z = 0 then countPairs s + 1 else 0
  | _ => 0

theorem takeWhile_drop {p : UInt8 → Bool} {s : List UInt8} {d : Nat}
    (hd : d < (s.takeWhile p).length) :
    d + ((s.drop d).takeWhile p).length = (s.takeWhile p).length := by
  induction s generalizing d with
  | nil => simp at hd
  | cons b s ih =>
    by_cases hb : p b
    · rw [List.takeWhile_cons_of_pos hb, List.length_cons] at hd ⊢
      cases d with
      | zero =>
        rw [List.drop_zero, List.takeWhile_cons_of_pos hb, List.length_cons]
        omega
      | succ d =>
        have := ih (d := d) (by omega)
        rw [List.drop_succ_cons]
        omega
    · rw [List.takeWhile_cons_of_neg hb] at hd
      simp at hd

def ansiPattern : RunPattern UInt8 where
  width := 1
  units s := (s.takeWhile isText).length
  width_pos := Nat.one_pos
  fits s := by
    rw [Nat.mul_one]
    exact (List.takeWhile_prefix _).length_le
  mono s t h := by
    obtain ⟨rest, rfl⟩ := h
    rw [List.takeWhile_append]
    split
    next heq => rw [List.length_append]; omega
    next => exact le_rfl
  whole s := by
    have htake : s.take ((s.takeWhile isText).length * 1) = s.takeWhile isText := by
      rw [Nat.mul_one]
      exact (List.prefix_iff_eq_take.mp (List.takeWhile_prefix _)).symm
    rw [htake, List.takeWhile_idem]
  inside s d hd := by
    have := takeWhile_drop (d := d) (by omega : d < (s.takeWhile isText).length)
    omega

theorem countPairs_cons {c z : UInt8} {s : List UInt8} (h : isText c ∧ z = 0) :
    countPairs (c :: z :: s) = countPairs s + 1 := by
  rw [countPairs, if_pos h]

def pairPattern : RunPattern UInt8 where
  width := 2
  units := countPairs
  width_pos := Nat.two_pos
  fits s := by
    induction s using countPairs.induct with
    | case1 c z s h ih =>
      rw [countPairs_cons h, List.length_cons, List.length_cons]
      omega
    | case2 c z s h =>
      rw [countPairs, if_neg h]
      omega
    | case3 s h =>
      rw [countPairs]
      · omega
      · exact h
  mono s t h := by
    induction s using countPairs.induct generalizing t with
    | case1 c z s hp ih =>
      obtain ⟨rest, rfl⟩ := h
      rw [List.cons_append, List.cons_append, countPairs_cons hp, countPairs_cons hp]
      have := ih (s ++ rest) (List.prefix_append ..)
      omega
    | case2 c z s hp =>
      rw [countPairs, if_neg hp]
      omega
    | case3 s hp =>
      rw [countPairs]
      · omega
      · exact hp
  whole s := by
    induction s using countPairs.induct with
    | case1 c z s h ih =>
      rw [countPairs_cons h, Nat.add_mul, List.take_succ_cons, List.take_succ_cons,
        countPairs_cons h, ih]
    | case2 c z s h =>
      rw [countPairs, if_neg h]
      simp [countPairs]
    | case3 s h =>
      have hzero : countPairs s = 0 := by
        rw [countPairs]
        exact h
      rw [hzero]
      simp [countPairs]
  inside s d hd := by
    induction s using countPairs.induct generalizing d with
    | case1 c z s h ih =>
      rw [countPairs_cons h] at hd ⊢
      match d with
      | 0 =>
        rw [List.drop_zero, countPairs_cons h]
        omega
      | 1 =>
        have hzero : countPairs ((c :: z :: s).drop 1) = 0 := by
          rw [List.drop_one, List.tail_cons, h.2]
          cases s with
          | nil => rfl
          | cons b s => rw [countPairs, if_neg fun hp => absurd hp.1 (by decide)]
        rw [hzero]
        omega
      | d + 2 =>
        have := ih d (by omega)
        rw [List.drop_succ_cons, List.drop_succ_cons]
        omega
    | case2 c z s h =>
      rw [countPairs, if_neg h] at hd
      omega
    | case3 s h =>
      rw [countPairs] at hd
      · omega
      · exact h

/-- `data.find(s, start)`: -1 when nothing is found. -/
def bytesFind (data s : List UInt8) (start : Nat) : Int :=
  match (List.range (data.length + 1)).find? fun i => decide (start ≤ i ∧ s <+: data.drop i) with
  | some i => i
  | none => -1

/-- The offsets that the loops over the hits look up, each from one byte behind the last one. -/
def locate (data : List UInt8) : Nat → List (List UInt8) → List (Int × List UInt8)
  | _, [] => []
  | offset, s :: hits =>
    let found := bytesFind data s offset
    (found, s) :: locate data (found + 1).toNat hits

/-- The bytes of a run have the same characters in the code page as in ASCII. -/
def decodeAnsi (s : List UInt8) : PyStr := s.map fun b => Char.ofNat b.toNat

/-- `ws.decode("utf-16le")` of pairs whose second byte is 0. -/
def decodeUtf16 : List UInt8 → PyStr
  | c :: _ :: s => Char.ofNat c.toNat :: decodeUtf16 s
  | _ => []

/-- `re.compile(pat).findall(data)`. -/
def findall (pattern : RunPattern UInt8) (data : List UInt8) (minLen : Nat) : List (List UInt8) :=
  (runs pattern minLen data).map Prod.snd

def getAnsiStrings (data : List UInt8) (minLen : Nat) : List (Int × PyStr) :=
  (locate data 0 (findall ansiPattern data minLen)).map fun hit => (hit.1, decodeAnsi hit.2)

def getUnicodeStrings (data : List UInt8) (minLen : Nat) : List (Int × PyStr) :=
  (locate data 0 (findall pairPattern data minLen)).map fun hit => (hit.1, decodeUtf16 hit.2)

/-- The bytes from `off` on are a run of text that neither end can be moved. -/
structure MaximalRun (data : List UInt8) (off len : Nat) : Prop where
  pos : 0 < len
  bound : off + len ≤ data.length
  text : ∀ i, off ≤ i → i < off + len → (data[i]?).any isText
  left : 0 < off → ¬(data[off - 1]?).any isText
  right : ¬(data[off + len]?).any isText

/-- The entries of `get_ansi_strings` are the maximal runs, with their offsets and in their order. -/
structure AnsiLaw (data : List UInt8) (minLen : Nat) : Prop where
  order : (getAnsiStrings data minLen).Pairwise fun a b => a.1 < b.1
  runs : ∀ off text, (off, text) ∈ getAnsiStrings data minLen ↔
    ∃ start len : Nat, off = start ∧ MaximalRun data start len ∧ minLen ≤ len ∧
      text = decodeAnsi ((data.drop start).take len)

/-- The entries of `get_unicode_strings` are the matches of its pattern, with their offsets. -/
def UnicodeLaw (data : List UInt8) (minLen : Nat) : Prop :=
  ∃ found, LeftToRight pairPattern minLen data 0 found ∧
    getUnicodeStrings data minLen = found.map fun m => ((m.1 : Int), decodeUtf16 m.2)

/-- No run has its text inside the run before it, behind its first byte. -/
def NoRepeat (hits : List (List UInt8)) : Prop := hits.IsChain fun s t => ¬t <:+: s.tail

theorem bytesFind_eq {data s : List UInt8} {start off : Nat} (hoff : off ≤ data.length)
    (hle : start ≤ off) (hs : s <+: data.drop off) :
    bytesFind data s start = off ↔ ∀ q, start ≤ q → q < off → ¬s <+: data.drop q := by
  unfold bytesFind
  cases hfind : (List.range (data.length + 1)).find?
      fun i => decide (start ≤ i ∧ s <+: data.drop i) with
  | none =>
    have := List.find?_eq_none.mp hfind off (List.mem_range.mpr (by omega))
    simp [hle, hs] at this
  | some i =>
    have hi : start ≤ i ∧ s <+: data.drop i := by simpa using List.find?_some hfind
    have hfirst : ∀ q, q < i → ¬(start ≤ q ∧ s <+: data.drop q) := by
      intro q hq hboth
      have := (List.find?_range_eq_some.mp hfind).2.2 q hq
      simp [hboth.1, hboth.2] at this
    have hio : i ≤ off := by
      by_contra hlt
      exact hfirst off (by omega) ⟨hle, hs⟩
    constructor
    · intro heq q hq hlt hp
      have heq : i = off := Int.ofNat_inj.mp heq
      exact hfirst q (by omega) ⟨hq, hp⟩
    · intro hno
      have heq : i = off := by
        by_contra hne
        exact hno i hi.1 (by omega) hi.2
      simp [heq]

section Locate

variable {P : RunPattern UInt8} {minLen : Nat} {data : List UInt8}

theorem text_pos (hmin : 0 < minLen) {off : Nat} {text : List UInt8}
    (hn : minLen ≤ P.units (data.drop off))
    (h : text = (data.drop off).take (P.units (data.drop off) * P.width)) : 0 < text.length := by
  rw [text_length h]
  exact Nat.mul_pos (by omega) P.width_pos

/-- The second search finds the runs behind a run exactly when none repeats inside the one before. -/
theorem locate_rest_iff (hmin : 0 < minLen) {off0 : Nat} {text0 : List UInt8}
    {found : List (Nat × List UInt8)} (hn0 : minLen ≤ P.units (data.drop off0))
    (h0 : text0 = (data.drop off0).take (P.units (data.drop off0) * P.width))
    (h : LeftToRight P minLen data (off0 + text0.length) found) :
    locate data (off0 + 1) (found.map Prod.snd) = found.map (fun m => ((m.1 : Int), m.2)) ↔
      NoRepeat (text0 :: found.map Prod.snd) := by
  induction found generalizing off0 text0 with
  | nil => simp [locate, NoRepeat]
  | cons m rest ih =>
    obtain ⟨off, text⟩ := m
    have hocc := occurs_iff hmin h0 h
    have hpos := text_pos hmin hn0 h0
    obtain ⟨hle, _, hn, htext, hrest⟩ := h
    have hprefix : text <+: data.drop off := htext ▸ List.take_prefix _ _
    have hbound : off ≤ data.length := by
      have hlen := hprefix.length_le
      have := text_pos hmin hn htext
      rw [List.length_drop] at hlen
      omega
    have hfind : bytesFind data text (off0 + 1) = off ↔ ¬text <:+: text0.tail := by
      rw [bytesFind_eq hbound (by omega) hprefix, ← hocc]
      constructor
      · rintro hno ⟨q, hq, hlt, hp⟩
        exact hno q hq hlt hp
      · intro hno q hq hlt hp
        exact hno ⟨q, hq, hlt, hp⟩
    have hnext : ((off : Int) + 1).toNat = off + 1 := by omega
    rw [NoRepeat, List.map_cons, List.map_cons, locate, List.isChain_cons_cons, ← hfind]
    constructor
    · intro heq
      obtain ⟨hhead, htail⟩ := List.cons.inj heq
      have hoff : bytesFind data text (off0 + 1) = off := congrArg Prod.fst hhead
      rw [hoff, hnext] at htail
      exact ⟨hoff, (ih hn htext hrest).mp htail⟩
    · rintro ⟨hoff, hchain⟩
      rw [hoff, hnext, (ih hn htext hrest).mpr hchain]

theorem locate_iff (hmin : 0 < minLen) {found : List (Nat × List UInt8)}
    (h : LeftToRight P minLen data 0 found) :
    locate data 0 (found.map Prod.snd) = found.map (fun m => ((m.1 : Int), m.2)) ↔
      NoRepeat (found.map Prod.snd) := by
  cases found with
  | nil => simp [locate, NoRepeat]
  | cons m rest =>
    obtain ⟨off, text⟩ := m
    obtain ⟨_, hgap, hn, htext, hrest⟩ := h
    have hprefix : text <+: data.drop off := htext ▸ List.take_prefix _ _
    have hbound : off ≤ data.length := by
      have hlen := hprefix.length_le
      have := text_pos hmin hn htext
      rw [List.length_drop] at hlen
      omega
    -- Nothing before the first run begins with its text.
    have hfind : bytesFind data text 0 = off := by
      refine (bytesFind_eq hbound (Nat.zero_le _) hprefix).mpr fun q _ hlt hp => ?_
      have hunits := P.mono _ _ hp
      rw [units_text htext] at hunits
      have := hgap q (Nat.zero_le _) hlt
      omega
    have hnext : ((off : Int) + 1).toNat = off + 1 := by omega
    have hrest := locate_rest_iff hmin hn htext hrest
    rw [List.map_cons, List.map_cons, locate, hfind, hnext, ← hrest]
    constructor
    · intro heq
      exact (List.cons.inj heq).2
    · intro heq
      rw [heq]

end Locate

theorem takeWhile_length_iff {p : UInt8 → Bool} {s : List UInt8} {n : Nat} :
    (s.takeWhile p).length = n ↔ (∀ i < n, (s[i]?).any p) ∧ ¬(s[n]?).any p := by
  induction s generalizing n with
  | nil =>
    cases n with
    | zero => simp
    | succ n =>
      refine iff_of_false (by simp) fun h => ?_
      have := h.1 0 (by omega)
      simp at this
  | cons b s ih =>
    by_cases hb : p b
    · rw [List.takeWhile_cons_of_pos hb, List.length_cons]
      cases n with
      | zero => simp [hb]
      | succ n =>
        rw [Nat.add_right_cancel_iff, ih, List.getElem?_cons_succ]
        refine and_congr_left fun _ => ⟨fun h i hi => ?_, fun h i hi => ?_⟩
        · cases i with
          | zero => simpa using hb
          | succ i => exact h i (by omega)
        · exact h (i + 1) (by omega)
    · rw [List.takeWhile_cons_of_neg hb]
      cases n with
      | zero => simp [hb]
      | succ n =>
        refine iff_of_false (by simp) fun h => hb ?_
        simpa using h.1 0 (by omega)

/-- A run of text of at least one byte whose right end cannot be moved. -/
theorem ansi_units_iff {data : List UInt8} {off len : Nat} :
    ansiPattern.units (data.drop off) = len ↔
      (∀ i, off ≤ i → i < off + len → (data[i]?).any isText) ∧ ¬(data[off + len]?).any isText := by
  rw [show ansiPattern.units (data.drop off) = ((data.drop off).takeWhile isText).length from rfl,
    takeWhile_length_iff, List.getElem?_drop]
  refine and_congr_left fun _ => ⟨fun h i hl hu => ?_, fun h i hi => ?_⟩
  · have := h (i - off) (by omega)
    rwa [List.getElem?_drop, show off + (i - off) = i by omega] at this
  · rw [List.getElem?_drop]
    exact h (off + i) (by omega) (by omega)

theorem ansi_units_pred {data : List UInt8} {off : Nat} (hpos : 0 < off)
    (h : (data[off - 1]?).any isText) :
    ansiPattern.units (data.drop (off - 1)) = ansiPattern.units (data.drop off) + 1 := by
  obtain ⟨htext, hend⟩ := ansi_units_iff.mp (Eq.refl (ansiPattern.units (data.drop off)))
  refine ansi_units_iff.mpr ⟨fun i hl hu => ?_, ?_⟩
  · by_cases heq : i = off - 1
    · rwa [heq]
    · exact htext i (by omega) (by omega)
  · rwa [show off - 1 + (ansiPattern.units (data.drop off) + 1) =
      off + ansiPattern.units (data.drop off) by omega]

/-- The matches of the text pattern are the maximal runs. -/
theorem mem_ansi_iff {data : List UInt8} {minLen start : Nat} {found : List (Nat × List UInt8)}
    (hmin : 0 < minLen) (h : LeftToRight ansiPattern minLen data start found)
    (hstart : 0 < start → ¬(data[start - 1]?).any isText ∨ ¬(data[start]?).any isText)
    {off : Nat} {text : List UInt8} :
    (off, text) ∈ found ↔ start ≤ off ∧ ∃ len, MaximalRun data off len ∧ minLen ≤ len ∧
      text = (data.drop off).take len := by
  induction found generalizing start with
  | nil =>
    refine iff_of_false (by simp) ?_
    rintro ⟨hle, len, hrun, hlen, _⟩
    have hunits := ansi_units_iff.mpr ⟨hrun.text, hrun.right⟩
    have := hrun.pos
    have := hrun.bound
    have := h off hle (by omega)
    omega
  | cons m rest ih =>
    obtain ⟨off0, text0⟩ := m
    obtain ⟨hle, hgap, hn, htext, hrest⟩ := h
    obtain ⟨hall, hend⟩ := ansi_units_iff.mp (Eq.refl (ansiPattern.units (data.drop off0)))
    have hlen := text_length htext
    have hwidth : ansiPattern.width = 1 := rfl
    rw [hwidth, Nat.mul_one] at hlen htext
    have hrest := ih hrest (fun _ => Or.inr (by rw [hlen]; exact hend))
    rw [List.mem_cons, hrest]
    constructor
    · rintro (heq | ⟨hge, hrun⟩)
      · obtain ⟨rfl, rfl⟩ := Prod.mk.inj heq
        refine ⟨hle, ansiPattern.units (data.drop off), ⟨by omega, ?_, hall, fun hpos hleft => ?_, hend⟩,
          hn, htext⟩
        · have hfits := ansiPattern.fits (data.drop off)
          rw [hwidth, Nat.mul_one, List.length_drop] at hfits
          omega
        · have hpred := ansi_units_pred hpos hleft
          by_cases hfirst : start ≤ off - 1
          · have := hgap (off - 1) hfirst (by omega)
            omega
          · have heq : start = off := by omega
            subst heq
            rcases hstart hpos with hno | hno
            · exact hno hleft
            · exact hno (hall start le_rfl (by omega))
      · exact ⟨by omega, hrun⟩
    · rintro ⟨hge, len, hrun, hmax, htake⟩
      have hunits := ansi_units_iff.mpr ⟨hrun.text, hrun.right⟩
      rcases Nat.lt_trichotomy off off0 with hlt | heq | hgt
      · have := hgap off hge hlt
        omega
      · refine Or.inl (Prod.ext heq (show text = text0 from ?_))
        rw [htext, ← heq, hunits, htake]
      · refine Or.inr ⟨?_, len, hrun, hmax, htake⟩
        by_contra hin
        exact hrun.left (by omega) (hall (off - 1) (by omega) (by omega))

theorem locate_texts (data : List UInt8) (offset : Nat) (hits : List (List UInt8)) :
    (locate data offset hits).map Prod.snd = hits := by
  induction hits generalizing offset with
  | nil => rfl
  | cons s hits ih => rw [locate, List.map_cons, ih]

theorem entries_iff {P : RunPattern UInt8} {data : List UInt8} {minLen : Nat} (hmin : 0 < minLen)
    (decode : List UInt8 → PyStr) :
    (locate data 0 (findall P data minLen)).map (fun hit => (hit.1, decode hit.2)) =
        (runs P minLen data).map (fun m => ((m.1 : Int), decode m.2)) ↔
      NoRepeat (findall P data minLen) := by
  rw [findall, ← locate_iff hmin (runs_leftToRight hmin data)]
  constructor
  · intro h
    have hoffsets := congrArg (fun l => l.map Prod.fst) h
    simp only [List.map_map] at hoffsets
    have hfound := List.zip_of_prod hoffsets (locate_texts data 0 _)
    have hruns : (runs P minLen data).map (fun m => ((m.1 : Int), m.2)) =
        List.zip _ ((runs P minLen data).map Prod.snd) :=
      List.zip_of_prod (List.map_map ..) (List.map_map ..)
    exact hfound.trans hruns.symm
  · intro h
    rw [h, List.map_map]
    rfl

theorem ansiLaw_iff {data : List UInt8} {minLen : Nat} (hmin : 0 < minLen) :
    AnsiLaw data minLen ↔ NoRepeat (findall ansiPattern data minLen) := by
  have hruns := runs_leftToRight (P := ansiPattern) hmin data
  have hsorted : ((runs ansiPattern minLen data).map fun m =>
      ((m.1 : Int), decodeAnsi m.2)).Pairwise fun a b => a.1 < b.1 := by
    rw [List.pairwise_map]
    exact (hruns.offsets_sorted hmin).2.imp fun hlt => Int.ofNat_lt.mpr hlt
  have hmem : ∀ off text, (off, text) ∈ (runs ansiPattern minLen data).map
        (fun m => ((m.1 : Int), decodeAnsi m.2)) ↔
      ∃ start len : Nat, off = start ∧ MaximalRun data start len ∧ minLen ≤ len ∧
        text = decodeAnsi ((data.drop start).take len) := by
    intro off text
    have hiff : ∀ start text, (start, text) ∈ runs ansiPattern minLen data ↔ 0 ≤ start ∧
        ∃ len, MaximalRun data start len ∧ minLen ≤ len ∧ text = (data.drop start).take len :=
      fun start text => mem_ansi_iff hmin hruns fun h => absurd h (lt_irrefl 0)
    constructor
    · intro hin
      obtain ⟨⟨start, bytes⟩, hfound, heq⟩ := List.mem_map.mp hin
      obtain ⟨_, len, hrun, hlen, hbytes⟩ := (hiff start bytes).mp hfound
      obtain ⟨rfl, rfl⟩ := Prod.mk.inj heq
      exact ⟨start, len, rfl, hrun, hlen, by rw [← hbytes]⟩
    · rintro ⟨start, len, rfl, hrun, hlen, rfl⟩
      exact List.mem_map.mpr ⟨(start, _), (hiff start _).mpr ⟨Nat.zero_le _, len, hrun, hlen, rfl⟩, rfl⟩
  rw [← entries_iff hmin decodeAnsi]
  constructor
  · intro h
    have hnodup : ∀ {l : List (Int × PyStr)}, l.Pairwise (fun a b => a.1 < b.1) → l.Nodup :=
      fun hl => hl.imp fun hlt heq => absurd (heq ▸ hlt) (lt_irrefl _)
    have hperm : (getAnsiStrings data minLen).Perm ((runs ansiPattern minLen data).map
        fun m => ((m.1 : Int), decodeAnsi m.2)) :=
      (List.perm_ext_iff_of_nodup (hnodup h.order) (hnodup hsorted)).mpr fun e =>
        (h.runs e.1 e.2).trans (hmem e.1 e.2).symm
    exact hperm.eq_of_pairwise (fun a b _ _ hab hba => absurd (hab.trans hba) (lt_irrefl _))
      h.order hsorted
  · intro h
    have hget : getAnsiStrings data minLen = (runs ansiPattern minLen data).map
        fun m => ((m.1 : Int), decodeAnsi m.2) := h
    exact ⟨hget ▸ hsorted, fun off text => by rw [hget]; exact hmem off text⟩

theorem unicodeLaw_iff {data : List UInt8} {minLen : Nat} (hmin : 0 < minLen) :
    UnicodeLaw data minLen ↔ NoRepeat (findall pairPattern data minLen) := by
  rw [← entries_iff hmin decodeUtf16]
  constructor
  · rintro ⟨found, hfound, hget⟩
    rw [hfound.unique hmin (runs_leftToRight hmin data)] at hget
    exact hget
  · intro h
    exact ⟨_, runs_leftToRight hmin data, h⟩

/-- Both lists of strings have the right entries exactly when no run repeats inside the one before. -/
theorem stringLaws_iff (data : List UInt8) {minLen : Nat} (hmin : 1 ≤ minLen) :
    AnsiLaw data minLen ∧ UnicodeLaw data minLen ↔
      NoRepeat (findall ansiPattern data minLen) ∧ NoRepeat (findall pairPattern data minLen) :=
  and_congr (ansiLaw_iff hmin) (unicodeLaw_iff hmin)

instance (hits : List (List UInt8)) : Decidable (NoRepeat hits) :=
  inferInstanceAs (Decidable (hits.IsChain _))

/-- A text that occurs twice, and a longer one behind it. -/
theorem stringLaws_two_runs : AnsiLaw [0x61, 0x62, 0, 0x61, 0x62, 0x63, 0] 2 ∧
    UnicodeLaw [0x61, 0x62, 0, 0x61, 0x62, 0x63, 0] 2 :=
  (stringLaws_iff [0x61, 0x62, 0, 0x61, 0x62, 0x63, 0] (by decide)).mpr
    ⟨by decide, by decide⟩

/-- The second run of `xab\0ab` is found inside the first one. -/
theorem not_ansiLaw_repeat : ¬AnsiLaw [0x78, 0x61, 0x62, 0, 0x61, 0x62] 2 := by
  intro h
  have hin := (h.runs 1 (decodeAnsi [0x61, 0x62])).mp (by decide)
  obtain ⟨start, len, hstart, hrun, _⟩ := hin
  obtain rfl : start = 1 := by omega
  exact hrun.left (by decide) (by decide)

end Speakeasy
