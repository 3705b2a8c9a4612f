import Speakeasy.SecurePaths
import Speakeasy.FormatArguments

namespace Speakeasy

/-- What a printf function reads: strings, pointers and the format functions of the API layer. Texts are code points. -/
structure PrintfGuest where
  arch : Arch
  readMemString : Nat → Nat → Option (List Nat)
  readPtr : Nat → Option Nat
  getVaArgCount : List Nat → Nat
  doStrFormat : List Nat → List Nat → Bool → Option (List Nat)

def FormatGuest.printfGuest (guest : FormatGuest) (arch : Arch) : PrintfGuest where
  arch := arch
  readMemString addr width :=
    (if width = 1 then guest.readString addr else guest.readWideString addr).map (·.map Char.toNat)
  readPtr := guest.readPtr
  getVaArgCount fmt := guest.vaArgCount arch (fmt.map Char.ofNat)
  doStrFormat fmt argv wide :=
    (guest.doStrFormat arch wide (fmt.map Char.ofNat) argv).toOption.map fun state => state.out.map Char.toNat

structure FormatResult where
  rv : Int
  writes : List (Nat × List Nat)
  deriving DecidableEq

/-- `encode_string`; UTF-16 has no text for a surrogate as a character. -/
def encodeString (width : Nat) (text : List Nat) : Option (List Nat) :=
  if width = 1 then some (text.map encodeAnsiChar)
  else if text.any isSurrogate then none
  else some (encodeUnits text)

namespace PrintfGuest

variable (g : PrintfGuest)

/-- `va_args` -/
def vaArgs (ptr : Nat) : Nat → Option (List Nat)
  | 0 => some []
  | count + 1 => (g.readPtr ptr).bind fun arg => (vaArgs (ptr + g.arch.bits / 8) count).map (arg :: ·)

/-- `format_var_args`, with the arguments of the call by their positions. -/
def formatVarArgs (slots : Nat → Nat) (fixed width : Nat) : Option (List Nat × List Nat) := do
  let head := (List.range fixed).map slots
  let fmt ← g.readMemString (head.getLastD 0) width
  let args := ((List.range (fixed + g.getVaArgCount fmt)).map slots).drop fixed
  let fin ← g.doStrFormat fmt args (width = 2)
  return (head, fin)

def formatVaList (format argptr width : Nat) : Option (List Nat) := do
  let fmt ← g.readMemString format width
  let args ← g.vaArgs argptr (g.getVaArgCount fmt)
  g.doStrFormat fmt args (width = 2)

def scprintf (slots : Nat → Nat) : Option Int := (g.formatVarArgs slots 1 1).map fun r => (r.2.length : Int)

def scwprintf (slots : Nat → Nat) : Option Int := (g.formatVarArgs slots 1 2).map fun r => (r.2.length : Int)

def vscprintf (format argptr : Nat) : Option Int := (g.formatVaList format argptr 1).map fun fin => (fin.length : Int)

def vscwprintf (format argptr : Nat) : Option Int := (g.formatVaList format argptr 2).map fun fin => (fin.length : Int)

def vsnprintf (buffer count format argptr : Nat) : Option FormatResult := do
  let fin ← g.formatVaList format argptr 1
  let out ← encodeString 1 (fin.take count)
  let out := if fin.length < count then out ++ [0] else out
  return ⟨if fin.length ≤ count then fin.length else -1, [(buffer, out)]⟩

def snwprintf (slots : Nat → Nat) : Option FormatResult := do
  let (head, fin) ← g.formatVarArgs slots 3 2
  let cnt := head.getD 1 0
  let out ← encodeString 2 (fin.take cnt)
  let out := if fin.length < cnt then out ++ [0] else out
  return ⟨if fin.length ≤ cnt then fin.length else -1, [(head.getD 0 0, out)]⟩

def vsnwprintf (buffer count format argptr : Nat) : Option FormatResult := do
  let fin ← g.formatVaList format argptr 2
  let out := if fin.length < count then fin.take count ++ [0] else fin.take count
  let out ← encodeString 2 out
  return ⟨if fin.length ≤ count then fin.length else -1, [(buffer, out)]⟩

def writeSecureFormat (buffer size : Nat) (count : Option Nat) (fin : List Nat) (width : Nat) : Option FormatResult :=
  if buffer = 0 ∨ size = 0 then some ⟨-1, []⟩
  else
    let truncate := count = some (2 ^ g.arch.bits - 1)
    let text := if count = none ∨ truncate then fin else fin.take (count.getD 0)
    let (out, rv) : List Nat × Int :=
      if text.length < size then (text, if text = fin then fin.length else -1)
      else if truncate then (text.take (size - 1), -1)
      else ([], -1)
    (encodeString width (out ++ [0])).map fun units => ⟨rv, [(buffer, units)]⟩

/-- The bits of `options`: 1 is the termination of the old functions, 2 is that of the standard. -/
def stdioWrite (options buffer size : Nat) (fin : List Nat) (width : Nat) : Option FormatResult :=
  if buffer = 0 ∧ size = 0 then some ⟨fin.length, []⟩
  else
    -- `fin[: size - 1]`, which for a size of 0 is not written
    let front := if size = 0 then fin.dropLast else fin.take (size - 1)
    let (out, rv) : List Nat × Int :=
      if options &&& 2 ≠ 0 then (front ++ [0], fin.length)
      else if options &&& 1 ≠ 0 then
        (if size ≤ fin.length then fin.take size else fin ++ [0], if fin.length ≤ size then fin.length else -1)
      else (front ++ [0], if fin.length < size then fin.length else -1)
    if size ≠ 0 then (encodeString width out).map fun units => ⟨rv, [(buffer, units)]⟩ else some ⟨rv, []⟩

/-- The text is formatted, and written as its function does. -/
def stdioFormat (options buffer size : Nat) (count : Option Nat) (format argptr width : Nat) (secure : Bool) :
    Option FormatResult := do
  let fin ← g.formatVaList format argptr width
  if secure then g.writeSecureFormat buffer size count fin width else stdioWrite options buffer size fin width

def stdioCommonFormat (argv : List Nat) (width : Nat) (secure maxCount : Bool) : Option FormatResult :=
  let first := if g.arch = .amd64 then 1 else 2
  match maxCount, (argv.drop first).take (if maxCount then 6 else 5) with
  | true, [buffer, size, count, format, _, argptr] =>
    g.stdioFormat (argv.headD 0) buffer size (some count) format argptr width secure
  | false, [buffer, size, format, _, argptr] =>
    g.stdioFormat (argv.headD 0) buffer size none format argptr width secure
  | _, _ => none

def stdioCommonVsprintf (argv : List Nat) : Option FormatResult := g.stdioCommonFormat argv 1 false false

def stdioCommonVswprintf (argv : List Nat) : Option FormatResult := g.stdioCommonFormat argv 2 false false

def stdioCommonVsprintfS (argv : List Nat) : Option FormatResult := g.stdioCommonFormat argv 1 true false

def stdioCommonVswprintfS (argv : List Nat) : Option FormatResult := g.stdioCommonFormat argv 2 true false

def stdioCommonVsnprintfS (argv : List Nat) : Option FormatResult := g.stdioCommonFormat argv 1 true true

def stdioCommonVsnwprintfS (argv : List Nat) : Option FormatResult := g.stdioCommonFormat argv 2 true true

def sprintfS (slots : Nat → Nat) : Option FormatResult :=
  (g.formatVarArgs slots 3 1).bind fun r => g.writeSecureFormat (r.1.getD 0 0) (r.1.getD 1 0) none r.2 1

def swprintfS (slots : Nat → Nat) : Option FormatResult :=
  (g.formatVarArgs slots 3 2).bind fun r => g.writeSecureFormat (r.1.getD 0 0) (r.1.getD 1 0) none r.2 2

def snprintfS (slots : Nat → Nat) : Option FormatResult :=
  (g.formatVarArgs slots 4 1).bind fun r =>
    g.writeSecureFormat (r.1.getD 0 0) (r.1.getD 1 0) (some (r.1.getD 2 0)) r.2 1

def snwprintfS (slots : Nat → Nat) : Option FormatResult :=
  (g.formatVarArgs slots 4 2).bind fun r =>
    g.writeSecureFormat (r.1.getD 0 0) (r.1.getD 1 0) (some (r.1.getD 2 0)) r.2 2

def vsprintfS (buffer size format argptr : Nat) : Option FormatResult :=
  (g.formatVaList format argptr 1).bind fun fin => g.writeSecureFormat buffer size none fin 1

def vswprintfS (buffer size format argptr : Nat) : Option FormatResult :=
  (g.formatVaList format argptr 2).bind fun fin => g.writeSecureFormat buffer size none fin 2

end PrintfGuest

end Speakeasy
