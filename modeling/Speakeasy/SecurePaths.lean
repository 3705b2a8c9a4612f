import Speakeasy.PathParts
import Speakeasy.SecureWriters

namespace Speakeasy

/-- The bytes 0x80 to 0x9F of code page 1252. -/
def ansiBlock : List Nat :=
  [0x20AC, 0x81, 0x201A, 0x192, 0x201E, 0x2026, 0x2020, 0x2021, 0x2C6, 0x2030, 0x160, 0x2039, 0x152, 0x8D, 0x17D, 0x8F,
    0x90, 0x2018, 0x2019, 0x201C, 0x201D, 0x2022, 0x2013, 0x2014, 0x2DC, 0x2122, 0x161, 0x203A, 0x153, 0x9D, 0x17E,
    0x178]

def decodeAnsiChar (b : Nat) : Nat := if 0x80 ≤ b ∧ b < 0xA0 then ansiBlock.getD (b - 0x80) 0 else b

/-- A character that is not in the code page becomes a question mark. -/
def encodeAnsiChar (c : Nat) : Nat :=
  if c < 0x80 ∨ (0xA0 ≤ c ∧ c < 0x100) then c
  else match ansiBlock.idxOf? c with
    | some i => 0x80 + i
    | none => 0x3F

def decodeText (width : Nat) (data : List Nat) : List Nat :=
  if width = 1 then data.map decodeAnsiChar else decodeUnits id data

def encodeText (width : Nat) (text : List Nat) : List Nat :=
  if width = 1 then text.map encodeAnsiChar else encodeUnits text

namespace ByteMemory

def readPathPart (m : ByteMemory) (fuel width addr : Nat) : Option (Option (List Nat)) :=
  if addr = 0 then some none else (m.readCstr fuel addr 0 width).map fun data => some (decodeText width data)

/-- What `write_path_part` writes. -/
def pathPartChars (width : Nat) (text : List Nat) : List Nat := encodeText width (text ++ [0])

def makePath (m : ByteMemory) (fuel width path : Nat) (size : Option Nat) (drive directory fname ext : Nat) :
    Option SecureResult :=
  if path = 0 ∨ size = some 0 then some ⟨einval, []⟩
  else
    (m.readPathPart fuel width drive).bind fun drive =>
    (m.readPathPart fuel width directory).bind fun directory =>
    (m.readPathPart fuel width fname).bind fun fname =>
    (m.readPathPart fuel width ext).map fun ext =>
      let made := getMadePath drive directory fname ext
      if size.any (· ≤ made.length) then ⟨erange, [(path, pathPartChars width [])]⟩
      else ⟨0, [(path, pathPartChars width made)]⟩

def makepathS (m : ByteMemory) (fuel path size drive directory fname ext : Nat) : Option SecureResult :=
  m.makePath fuel 1 path (some size) drive directory fname ext

def wmakepathS (m : ByteMemory) (fuel path size drive directory fname ext : Nat) : Option SecureResult :=
  m.makePath fuel 2 path (some size) drive directory fname ext

/-- The buffers are the addresses and the sizes for the parts. -/
def splitPathS (m : ByteMemory) (fuel width path : Nat) (buffers : List (Nat × Nat)) : Option SecureResult :=
  let cleared := (buffers.filter fun b => b.1 ≠ 0 ∧ b.2 ≠ 0).map fun b => (b.1, pathPartChars width [])
  (m.readPathPart fuel width path).map fun text =>
    match text with
    | none => ⟨einval, cleared⟩
    | some text =>
      if ∃ b ∈ buffers, ¬(b.1 = 0 ↔ b.2 = 0) then ⟨einval, cleared⟩
      else if ∃ b ∈ buffers.zip (getSplitPath text), b.1.1 ≠ 0 ∧ b.1.2 ≤ b.2.length then ⟨erange, cleared⟩
      else
        ⟨0, ((buffers.zip (getSplitPath text)).filter fun b => b.1.1 ≠ 0).map fun b =>
          (b.1.1, pathPartChars width b.2)⟩

def splitpathS (m : ByteMemory) (fuel path : Nat) (buffers : List (Nat × Nat)) : Option SecureResult :=
  m.splitPathS fuel 1 path buffers

def wsplitpathS (m : ByteMemory) (fuel path : Nat) (buffers : List (Nat × Nat)) : Option SecureResult :=
  m.splitPathS fuel 2 path buffers

/-- A part of a path at an address that may be null. -/
def HoldsPart (m : ByteMemory) (width addr : Nat) (part : Option (List Nat)) : Prop :=
  match part with
  | none => addr = 0
  | some us => addr ≠ 0 ∧ m.HoldsString width addr us

end ByteMemory

/-- A writer of several buffers: it fills each that is asked for with its part, or clears them all. -/
structure SplitsInside (buffers : List (Nat × Nat)) (parts : List (List Nat)) (o : SecureResult) : Prop where
  inside : ∀ w ∈ o.writes, ∃ b ∈ buffers, b.1 = w.1 ∧ w.2.length ≤ b.2
  copied : o.rv = 0 →
    o.writes = ((buffers.zip parts).filter fun b => b.1.1 ≠ 0).map fun b => (b.1.1, b.2 ++ [0])
  fits : o.rv = 0 → ∀ b ∈ buffers.zip parts, b.1.1 ≠ 0 → b.2.length < b.1.2
  emptied : o.rv = erange → o.writes = (buffers.filter fun b => b.1 ≠ 0 ∧ b.2 ≠ 0).map fun b => (b.1, [0])

/-- The buffer of a part is asked for. -/
def Asked (buffers : List (Nat × Nat)) (i : Nat) : Prop := ∃ b, buffers[i]? = some b ∧ b.1 ≠ 0

section Codings

open ByteMemory

theorem isMark_cases {c : Nat} (h : IsMark c) : c = 0x5C ∨ c = 0x2F ∨ c = 0x2E ∨ c = 0x3A := by
  rcases h with (h | h) | h | h
  · exact Or.inl h
  · exact Or.inr (Or.inl h)
  · exact Or.inr (Or.inr (Or.inl h))
  · exact Or.inr (Or.inr (Or.inr h))

theorem isMark_lt {c : Nat} (h : IsMark c) : c < 0x80 := by
  rcases isMark_cases h with rfl | rfl | rfl | rfl <;> decide

theorem ansiBlock_get {i : Nat} (h : i < 32) :
    0x80 ≤ ansiBlock.getD i 0 ∧ ¬(0xA0 ≤ ansiBlock.getD i 0 ∧ ansiBlock.getD i 0 < 0x100) ∧
      ansiBlock.idxOf? (ansiBlock.getD i 0) = some i := by
  have hall : ∀ i < 32, 0x80 ≤ ansiBlock.getD i 0 ∧ ¬(0xA0 ≤ ansiBlock.getD i 0 ∧ ansiBlock.getD i 0 < 0x100) ∧
      ansiBlock.idxOf? (ansiBlock.getD i 0) = some i := by decide
  exact hall i h

theorem encodeAnsiChar_decode {b : Nat} (h : b < 0x100) : encodeAnsiChar (decodeAnsiChar b) = b := by
  unfold decodeAnsiChar
  split
  next hblock =>
    obtain ⟨hle, hhigh, hidx⟩ := @ansiBlock_get (b - 0x80) (by omega)
    unfold encodeAnsiChar
    rw [if_neg (not_or.mpr ⟨by omega, hhigh⟩), hidx]
    show 0x80 + (b - 0x80) = b
    omega
  next hblock =>
    unfold encodeAnsiChar
    rw [if_pos (by omega)]

theorem ansiCoding : PathCoding (decodeText 1) (encodeText 1) (· < 0x100) where
  enc_append xs ys := List.map_append
  enc_mark c hc := by
    have hlt := isMark_lt hc
    exact congrArg (fun x => [x]) (if_pos (Or.inl hlt))
  enc_dec us hus := by
    show (us.map decodeAnsiChar).map encodeAnsiChar = us
    rw [List.map_map]
    apply (List.map_congr_left fun u hu => encodeAnsiChar_decode (hus u hu)).trans
    exact List.map_id us
  dec_nil := rfl
  dec_split us c vs hc := by
    have hlt := isMark_lt hc
    have hself : decodeAnsiChar c = c := if_neg (by omega)
    show (us ++ c :: vs).map decodeAnsiChar = us.map decodeAnsiChar ++ c :: vs.map decodeAnsiChar
    rw [List.map_append, List.map_cons, hself]
  mem_dec us c hc hmem := by
    obtain ⟨b, hb, heq⟩ := List.mem_map.mp hmem
    have hlt := isMark_lt hc
    unfold decodeAnsiChar at heq
    split at heq
    next hblock =>
      have hle := (@ansiBlock_get (b - 0x80) (by omega)).1
      omega
    next => exact heq ▸ hb

theorem mark_not_surrogate {c : Nat} (hc : IsMark c) : ¬isSurrogate c := by
  rcases isMark_cases hc with rfl | rfl | rfl | rfl <;> decide

theorem wideCoding : PathCoding (decodeText 2) (encodeText 2) (· < 0x10000) where
  enc_append xs ys := encodeUnits_append xs ys
  enc_mark c hc := by
    have hlt := isMark_lt hc
    show encodeChar c ++ [] = [c]
    rw [List.append_nil, encodeChar, if_pos (by omega)]
  enc_dec us hus := (encodeUnits_decodeUnits hus hus).trans (rereadUnits_id us)
  dec_nil := rfl
  dec_split us c vs hc := decodeUnits_split us vs (mark_not_surrogate hc)
  mem_dec us c hc hmem := by
    have hlt := isMark_lt hc
    rcases (mem_decodeUnits_iff (by omega)).mp hmem with ⟨hin, -⟩ | ⟨u, -, hs, hbad⟩
    · exact hin
    · have heq : u = c := hbad
      exact absurd (heq ▸ hs) (mark_not_surrogate hc)

theorem pathPartChars_one (text : List Nat) : pathPartChars 1 text = encodeText 1 text ++ [0] :=
  ansiCoding.enc_append text [0]

theorem pathPartChars_two (text : List Nat) : pathPartChars 2 text = encodeText 2 text ++ [0] :=
  wideCoding.enc_append text [0]

theorem readPathPart_eq {m : ByteMemory} {width fuel addr : Nat} {part : Option (List Nat)}
    (h : m.HoldsPart width addr part) (hfuel : (part.getD []).length < fuel) :
    m.readPathPart fuel width addr = some (part.map (decodeText width)) := by
  unfold readPathPart
  cases part with
  | none =>
    have hnull : addr = 0 := h
    rw [if_pos hnull, Option.map_none]
  | some us => rw [if_neg h.1, readCstr_whole h.2 hfuel, Option.map_some, Option.map_some]

theorem ByteMemory.HoldsPart.chars {m : ByteMemory} {width addr : Nat} {part : Option (List Nat)}
    (h : m.HoldsPart width addr part) : ∀ u ∈ part.getD [], 0 < u ∧ u < 256 ^ width := by
  cases part with
  | none => exact fun u hu => absurd hu List.not_mem_nil
  | some us => exact h.2.chars

/-- Two NUL-terminated strings at one address are the same. -/
theorem HoldsString.unique {m : ByteMemory} {width a : Nat} {cs ds : List Nat} (hcs : m.HoldsString width a cs)
    (hds : m.HoldsString width a ds) : cs = ds := by
  have h1 := @readCstr_whole m width (cs.length + ds.length + 1) a cs hcs (by omega)
  have h2 := @readCstr_whole m width (cs.length + ds.length + 1) a ds hds (by omega)
  rw [h1, Option.some.injEq] at h2
  exact h2

theorem staysInside_text_iff {m : ByteMemory} {width dest n : Nat} {cs text : List Nat} (hwidth : 0 < width)
    (hcs : ∀ c ∈ cs, 0 < c ∧ c < 256 ^ width) (htext : ∀ c ∈ text, 0 < c ∧ c < 256 ^ width) :
    StaysInside m width dest n 0 text ⟨0, [(dest, cs ++ [0])]⟩ ↔ text.length < n ∧ cs = text := by
  have hsame : cs = text → (StaysInside m width dest n 0 text ⟨0, [(dest, cs ++ [0])]⟩ ↔ text.length < n ∧ cs = text) :=
    fun heq => staysInside_whole_iff (congrArg List.length heq) (fun c hc => (hcs c hc).2) (fun c hc => (htext c hc).2)
      hwidth
  constructor
  · intro h
    have hheld := h.copied rfl
    have hwritten := writeChars_holds m width dest [] (cs ++ [0])
    rw [memory_single, Nat.zero_mul, Nat.add_zero] at hheld
    rw [List.nil_append, List.length_nil, Nat.zero_mul, Nat.add_zero] at hwritten
    have heq := HoldsString.unique ⟨hwritten, hcs⟩ ⟨hheld, htext⟩
    exact (hsame heq).mp h
  · intro h
    exact (hsame h.2).mpr h

end Codings

end Speakeasy
