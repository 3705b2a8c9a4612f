import Speakeasy.CountedStrings

namespace Speakeasy

open PageEngine

inductive PyCodec
  | cp437
  | utf8
deriving DecidableEq, Repr

/-- The codecs of Python with `replace`. A NUL at the end of a text is a byte of its own, and no data
decodes to a surrogate. -/
structure PyCodecs where
  encode : PyCodec → List Nat → List UInt8
  decode : PyCodec → List UInt8 → List Nat
  encode_nul : ∀ c text, encode c (text ++ [0]) = encode c text ++ [0]
  decode_chars : ∀ c data, ∀ u ∈ decode c data, ¬isSurrogate u

namespace CodePage

def cpAcp : Nat := 0

def cpOemcp : Nat := 1

def cpThreadAcp : Nat := 3

def cpUtf8 : Nat := 65001

def ansiCodePage : Nat := 1252

def oemCodePage : Nat := 437

def encodeAnsi (text : List Nat) : List UInt8 := text.map fun c => UInt8.ofNat (encodeAnsiChar c)

def decodeAnsi (data : List UInt8) : List Nat := data.map fun b => decodeAnsiChar b.toNat

/-- The codec of a code page, where `some none` stands for the ANSI tables. Others raise. -/
def getCodec (codePage : Nat) : Option (Option PyCodec) :=
  if codePage = cpAcp ∨ codePage = cpThreadAcp ∨ codePage = ansiCodePage then some none
  else if codePage = cpOemcp ∨ codePage = oemCodePage then some (some .cp437)
  else if codePage = cpUtf8 then some (some .utf8)
  else none

def decodeCodePage (codecs : PyCodecs) (data : List UInt8) (codePage : Nat) : Option (List Nat) :=
  (getCodec codePage).map fun
    | none => decodeAnsi data
    | some codec => codecs.decode codec data

def encodeCodePage (codecs : PyCodecs) (text : List Nat) (codePage : Nat) : Option (List UInt8) :=
  (getCodec codePage).map fun
    | none => encodeAnsi text
    | some codec => codecs.encode codec text

end CodePage

/-- The 16-bit units of data that has no half of one. -/
def wideUnits : List UInt8 → List Nat
  | low :: high :: data => fromBytes [low, high] :: wideUnits data
  | _ => []

inductive ConvertError
  | success
  | invalidParameter
  | insufficientBuffer
deriving DecidableEq, Repr

/-- What a conversion returns and writes: at the destination, and for the default character. -/
structure ConvertReply where
  rv : Nat
  lastError : ConvertError
  written : List UInt8 := []
  usedDefault : Option Bool := none
deriving DecidableEq, Repr

def invalidConversion : ConvertReply := { rv := 0, lastError := .invalidParameter }

structure WideArgs where
  codePage : Nat
  lpWideCharStr : Nat
  cchWideChar : Nat
  lpMultiByteStr : Nat
  cbMultiByte : Nat
  lpDefaultChar : Nat
  lpUsedDefaultChar : Nat

structure MultiArgs where
  codePage : Nat
  lpMultiByteStr : Nat
  cbMultiByte : Nat
  lpWideCharStr : Nat
  cchWideChar : Nat

variable {ε : Type} [PageEngine ε]

namespace GuestMemory

/-- The loop of `WideCharToMultiByte`. It looks whether the next character is there. -/
def readWcs (g : GuestMemory ε) : Nat → Nat → Except StringFault (List UInt8)
  | 0, _ => .error .running
  | fuel + 1, address =>
    if g.mgr.isAddressValid (address + 2) then
      match g.memRead address 2 with
      | .error e => .error (.mem e)
      | .ok char =>
        if fromBytes char = 0 then .ok char else (g.readWcs fuel (address + 2)).map (char ++ ·)
    else .ok []

def sourceWcs (g : GuestMemory ε) (fuel : Nat) (a : WideArgs) : Except StringFault (List UInt8) :=
  let cchWideChar := a.cchWideChar % 2 ^ 32
  if cchWideChar = 0xFFFFFFFF then g.readWcs fuel a.lpWideCharStr
  else (g.memRead a.lpWideCharStr (cchWideChar * 2)).mapError .mem

/-- `WideCharToMultiByte` after it has the text. -/
def encodeReply (codecs : PyCodecs) (a : WideArgs) (text : List Nat) : ConvertReply :=
  let cbMultiByte := a.cbMultiByte % 2 ^ 32
  match CodePage.encodeCodePage codecs text a.codePage with
  | none => invalidConversion
  | some cs =>
    if a.lpMultiByteStr ≠ 0 ∧ cbMultiByte ≠ 0 ∧ cbMultiByte < cs.length then
      { rv := 0, lastError := .insufficientBuffer, written := cs.take cbMultiByte }
    else
      let usedDefault :=
        if a.lpUsedDefaultChar ≠ 0 then some (decide (CodePage.decodeCodePage codecs cs a.codePage ≠ some text))
        else none
      if a.lpMultiByteStr = 0 ∨ cbMultiByte = 0 then
        { rv := cs.length, lastError := .success, usedDefault }
      else { rv := cs.length, lastError := .success, written := cs, usedDefault }

def wideCharToMultiByte (g : GuestMemory ε) (codecs : PyCodecs) (fuel : Nat) (a : WideArgs) :
    Except StringFault ConvertReply :=
  if a.lpWideCharStr = 0 ∨ a.cchWideChar % 2 ^ 32 = 0 then .ok invalidConversion
  else if a.codePage = CodePage.cpUtf8 ∧ (a.lpDefaultChar ≠ 0 ∨ a.lpUsedDefaultChar ≠ 0) then
    .ok invalidConversion
  else (g.sourceWcs fuel a).map fun wcs =>
    encodeReply codecs a (decodeUnits ByteMemory.replace (wideUnits wcs))

/-- The length of the source, with its NUL when the call does not give one. -/
def sourceLength (g : GuestMemory ε) (fuel : Nat) (a : MultiArgs) : Except StringFault Nat :=
  let cbMultiByte := a.cbMultiByte % 2 ^ 32
  if cbMultiByte = 0xFFFFFFFF then (g.memStringLen 1 fuel a.lpMultiByteStr).map (· + 1)
  else .ok cbMultiByte

/-- `MultiByteToWideChar` after it has the data. -/
def decodeReply (codecs : PyCodecs) (a : MultiArgs) (data : List UInt8) : ConvertReply :=
  let cchWideChar := a.cchWideChar % 2 ^ 32
  match CodePage.decodeCodePage codecs data a.codePage with
  | none => invalidConversion
  | some mbs =>
    let ws := charBytes 2 (encodeUnits mbs)
    if cchWideChar = 0 then { rv := ws.length / 2, lastError := .success }
    else if cchWideChar < ws.length / 2 then
      { rv := 0, lastError := .insufficientBuffer, written := ws.take (cchWideChar * 2) }
    else { rv := ws.length / 2, lastError := .success, written := ws }

def multiByteToWideChar (g : GuestMemory ε) (codecs : PyCodecs) (fuel : Nat) (a : MultiArgs) :
    Except StringFault ConvertReply :=
  if a.lpMultiByteStr = 0 ∨ a.cbMultiByte % 2 ^ 32 = 0 ∨
      (a.cchWideChar % 2 ^ 32 ≠ 0 ∧ a.lpWideCharStr = 0) then .ok invalidConversion
  else
    match g.sourceLength fuel a with
    | .error e => .error e
    | .ok cbMultiByte =>
      ((g.memRead a.lpMultiByteStr cbMultiByte).mapError .mem).map fun data => decodeReply codecs a data

end GuestMemory

end Speakeasy
