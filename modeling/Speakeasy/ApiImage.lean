import Speakeasy.LoadedImage

namespace Speakeasy

def apiDataSize : Nat := 0x100
def apiDynamicSize : Nat := 0x10000

structure ApiExportSpec where
  name : Option PyStr
  ordinal : Option Nat := none
  kind : ExportKind := .function
  forwarder : Option PyStr := none
deriving DecidableEq, Repr

inductive ImageError
  | value (message : PyStr)
  | unicodeEncode
  | structError
deriving DecidableEq, Repr

def IsAscii (s : PyStr) : Prop := ∀ c ∈ s, c.toNat < 128

instance (s : PyStr) : Decidable (IsAscii s) := List.decidableBAll (fun c : Char => c.toNat < 128) s

def asciiBytes (s : PyStr) : List UInt8 := s.map fun c => UInt8.ofNat c.toNat

/-- `value.encode("ascii")`. -/
def encodeAscii (value : PyStr) : Except ImageError (List UInt8) :=
  if IsAscii value then .ok (asciiBytes value) else .error .unicodeEncode

/-- `_ascii_string`. -/
def asciiString (value label : PyStr) : Except ImageError Unit :=
  if value = [] ∨ '\x00' ∈ value then .error (.value ("Invalid ".toList ++ label))
  else if IsAscii value then .ok ()
  else .error (.value ("Non-ASCII ".toList ++ label))

/-- `_align`. -/
def alignPage (value : Nat) : Nat := (value + 0xFFF) / 0x1000 * 0x1000

/-- The order of the sort key: the names in byte order, then the exports without a name. -/
def ApiExportSpec.Le (a b : ApiExportSpec) : Prop :=
  match a.name, b.name with
  | some x, some y => x < y ∨ x = y ∧ a.ordinal.getD 0 ≤ b.ordinal.getD 0
  | some _, none => True
  | none, some _ => False
  | none, none => a.ordinal.getD 0 ≤ b.ordinal.getD 0

instance : DecidableRel ApiExportSpec.Le := fun a b => by
  unfold ApiExportSpec.Le
  cases a.name <;> cases b.name <;> infer_instance

/-- The sort. The key encodes each name. -/
def sortSpecs (exports : List ApiExportSpec) : Except ImageError (List ApiExportSpec) :=
  if ∀ e ∈ exports, IsAscii (e.name.getD []) then .ok (exports.insertionSort ApiExportSpec.Le)
  else .error .unicodeEncode

/-- The loop `while candidate in used`, for at most `fuel` steps. -/
def nextFree : Nat → Nat → List Nat → Nat
  | 0, candidate, _ => candidate
  | fuel + 1, candidate, used =>
    if candidate ∈ used then nextFree fuel (candidate + 1) used else candidate

/-- The loop that gives each export its ordinal. -/
def assignLoop : Nat → List Nat → List ApiExportSpec → List (ApiExportSpec × Nat) × List Nat
  | _, used, [] => ([], used)
  | candidate, used, spec :: specs =>
    match spec.ordinal with
    | some ordinal =>
      let (assigned, used) := assignLoop candidate used specs
      ((spec, ordinal) :: assigned, used)
    | none =>
      let candidate := nextFree used.length candidate used
      let (assigned, used) := assignLoop candidate (candidate :: used) specs
      ((spec, candidate) :: assigned, used)

/-- The loop that fills `targets`. -/
def collectTargets : PyDict Nat ApiExportSpec → List (ApiExportSpec × Nat) →
    Except ImageError (PyDict Nat ApiExportSpec)
  | targets, [] => .ok targets
  | targets, (spec, ordinal) :: assigned =>
    match targets.lookup ordinal with
    | none => collectTargets (targets.insert ordinal spec) assigned
    | some previous =>
      if (previous.kind, previous.forwarder) ≠ (spec.kind, spec.forwarder) then
        .error (.value "Conflicting exports for one ordinal".toList)
      else collectTargets (targets.insert ordinal spec) assigned

/-- `sorted(targets.items())`. -/
def sortedTargets (targets : PyDict Nat ApiExportSpec) : List (Nat × ApiExportSpec) :=
  (targets.keys.insertionSort (· ≤ ·)).filterMap fun ordinal =>
    (targets.lookup ordinal).map fun spec => (ordinal, spec)

/-- The ordinals of the exports, and the sizes of the tables. -/
structure ExportLayout where
  assigned : List (ApiExportSpec × Nat)
  names : List PyStr
  ordinalBase : Nat
  span : Nat
  targets : PyDict Nat ApiExportSpec

namespace ExportLayout

def ofSpecs (specs : List ApiExportSpec) : Except ImageError ExportLayout :=
  let names := (specs.filterMap ApiExportSpec.name).dedup
  let (assigned, used) := assignLoop 1 (specs.filterMap ApiExportSpec.ordinal) specs
  let ordinalBase := used.min?.getD 1
  let span := if used = [] then 0 else used.max?.getD 0 - ordinalBase + 1
  if span > 0x10000 ∨ names.length > 0x10000 then
    .error (.value "Export table exceeds WORD ordinal index capacity".toList)
  else
    match collectTargets ∅ assigned with
    | .error e => .error e
    | .ok targets => .ok ⟨assigned, names, ordinalBase, span, targets⟩

/-- The number of EAT entries of a kind that are no forwarders. -/
def count (l : ExportLayout) (kind : ExportKind) : Nat :=
  l.targets.entries.countP fun x => decide (x.2.kind = kind ∧ x.2.forwarder = none)

def textRva : Nat := 0x1000
def textSize (l : ExportLayout) : Nat := alignPage (max 1 (l.count .function * apiSlotSize))
def dataSize (l : ExportLayout) : Nat := alignPage (max 1 (l.count .data * apiDataSize))
def edataRva (l : ExportLayout) : Nat := textRva + l.textSize

def nameOffset (l : ExportLayout) : Nat := 40 + l.span * 4
def ordinalOffset (l : ExportLayout) : Nat := l.nameOffset + l.names.length * 4

/-- The names with their ordinals, in the order of the name tables. -/
def named (l : ExportLayout) : List (PyStr × Nat) :=
  l.assigned.filterMap fun x => x.1.name.map fun name => (name, x.2)

def forwarders (l : ExportLayout) : List (Nat × PyStr) :=
  (sortedTargets l.targets).filterMap fun x => x.2.forwarder.map fun f => (x.1, f)

end ExportLayout

/-- The comprehensions over `string_rva`: each string is appended, with a zero, and its RVA kept. -/
def stringRvas {κ : Type} [DecidableEq κ] (edataRva : Nat) :
    ByteBuffer → PyDict κ Nat → List (κ × PyStr) → Except ImageError (PyDict κ Nat × ByteBuffer)
  | edata, rvas, [] => .ok (rvas, edata)
  | edata, rvas, (key, value) :: strings =>
    match encodeAscii value with
    | .error e => .error e
    | .ok bytes =>
      stringRvas edataRva (edata.extend (bytes ++ [0])) (rvas.insert key (edataRva + edata.size)) strings

/-- The export section before its tables are filled. -/
structure ExportStrings where
  edata : ByteBuffer
  dllRva : Nat
  nameRvas : PyDict PyStr Nat
  forwardRvas : PyDict Nat Nat
  exportSize : Nat

def dllName (name : PyStr) : PyStr :=
  if ".dll".toList <:+ name.map Char.toLower then name else name ++ ".dll".toList

/-- `dll_rva`, which is 0 when there are no exports. -/
def dllString (l : ExportLayout) (name : PyStr) : Except ImageError (Nat × ByteBuffer) :=
  if l.assigned = [] then .ok (0, ByteBuffer.filled 0 0)
  else
    let edata := ByteBuffer.filled (40 + l.span * 4 + l.names.length * 6) 0
    match encodeAscii (dllName name) with
    | .error e => .error e
    | .ok bytes => .ok (l.edataRva + edata.size, edata.extend (bytes ++ [0]))

def exportStrings (l : ExportLayout) (name : PyStr) : Except ImageError ExportStrings :=
  match dllString l name with
  | .error e => .error e
  | .ok (dllRva, edata) =>
    match stringRvas l.edataRva edata ∅ (l.named.map fun x => (x.1, x.1)) with
    | .error e => .error e
    | .ok (nameRvas, edata) =>
      match stringRvas l.edataRva edata ∅ l.forwarders with
      | .error e => .error e
      | .ok (forwardRvas, edata) =>
        .ok ⟨edata.extend (List.replicate (alignPage (max 1 edata.size) - edata.size) 0), dllRva,
          nameRvas, forwardRvas, edata.size⟩

/-- The loop that fills `rvas`, and the slots of the functions in the text. -/
def placeTargets (dataRva : Nat) (forwardRvas : PyDict Nat Nat) :
    Nat → Nat → ByteBuffer → List (Nat × ApiExportSpec) → List (Nat × Nat) × ByteBuffer
  | _, _, text, [] => ([], text)
  | functionIndex, dataIndex, text, (ordinal, spec) :: targets =>
    if spec.forwarder ≠ none then
      let (rvas, text) := placeTargets dataRva forwardRvas functionIndex dataIndex text targets
      ((ordinal, (forwardRvas.lookup ordinal).getD 0) :: rvas, text)
    else if spec.kind = .data then
      let (rvas, text) := placeTargets dataRva forwardRvas functionIndex (dataIndex + 1) text targets
      ((ordinal, dataRva + dataIndex * apiDataSize) :: rvas, text)
    else
      let slot := functionIndex * apiSlotSize
      let (rvas, text) := placeTargets dataRva forwardRvas (functionIndex + 1) dataIndex
        (text.setSlice slot (List.replicate apiEntryOffset 0x90)) targets
      ((ordinal, ExportLayout.textRva + slot + apiEntryOffset) :: rvas, text)

def directoryFields (l : ExportLayout) (dllRva : Nat) : List PackField :=
  [.int 4 0, .int 4 0, .int 2 0, .int 2 0, .int 4 dllRva, .int 4 l.ordinalBase, .int 4 l.span,
    .int 4 l.names.length, .int 4 (l.edataRva + 40), .int 4 (l.edataRva + l.nameOffset),
    .int 4 (l.edataRva + l.ordinalOffset)]

def addressWrites (l : ExportLayout) (rvas : List (Nat × Nat)) : List (Nat × List PackField) :=
  rvas.map fun x => (40 + (x.1 - l.ordinalBase) * 4, [.int 4 x.2])

/-- The loop over the names, from the index `i` on. -/
def nameWrites (l : ExportLayout) (nameRvas : PyDict PyStr Nat) :
    Nat → List (PyStr × Nat) → List (Nat × List PackField)
  | _, [] => []
  | i, (name, ordinal) :: named =>
    (l.nameOffset + i * 4, [.int 4 ((nameRvas.lookup name).getD 0)]) ::
      (l.ordinalOffset + i * 2, [.int 2 (ordinal - l.ordinalBase)]) ::
        nameWrites l nameRvas (i + 1) named

/-- The writes of the export directory and its tables, in their order. -/
def edataWrites (l : ExportLayout) (s : ExportStrings) (rvas : List (Nat × Nat)) :
    List (Nat × List PackField) :=
  if l.assigned = [] then []
  else (0, directoryFields l s.dllRva) ::
    (addressWrites l rvas ++ nameWrites l s.nameRvas 0 l.named)

/-- The sections in their order, with their RVAs and sizes. -/
structure ImageSections where
  text : ByteBuffer
  edata : ByteBuffer
  data : ByteBuffer
  dyn : ByteBuffer
  edataRva : Nat
  dataRva : Nat
  dynRva : Nat

def ImageSections.contents (s : ImageSections) : List (PyStr × Nat × ByteBuffer × Nat × Nat) :=
  [(".text".toList, ExportLayout.textRva, s.text, permMemRx, 0x60000020),
    (".edata".toList, s.edataRva, s.edata, permMemRead, 0x40000040),
    (".data".toList, s.dataRva, s.data, permMemRw, 0xC0000040),
    (".dyn".toList, s.dynRva, s.dyn, permMemRx, 0x60000020)]

def optionalHeaderOffset : Nat := 0x98

def optionalHeaderSize : Arch → Nat
  | .amd64 => 240
  | .x86 => 224

def sectionWrites (arch : Arch) (s : ImageSections) : List (Nat × List PackField) :=
  s.contents.zipIdx.map fun (x, i) =>
    (optionalHeaderOffset + optionalHeaderSize arch + i * 40,
      [.bytes 8 (asciiBytes x.1), .int 4 x.2.2.1.size, .int 4 x.2.1, .int 4 x.2.2.1.size, .int 4 x.2.1,
        .int 4 0, .int 4 0, .int 2 0, .int 2 0, .int 4 x.2.2.2.2])

/-- The writes of the headers that come before the one of the export directory. -/
def headerWrites (arch : Arch) (base imageSize : Nat) (s : ImageSections) :
    List (Nat × List PackField) :=
  let (machine, magic, characteristics) : Nat × Nat × Nat := match arch with
    | .amd64 => (0x8664, 0x20B, 0x2022)
    | .x86 => (0x14C, 0x10B, 0x2102)
  [(0, [.bytes 2 (asciiBytes "MZ".toList)]), (0x3C, [.int 4 0x80]),
    (0x80, [.bytes 4 (asciiBytes "PE".toList)]),
    (0x84, [.int 2 machine, .int 2 4, .int 4 0, .int 4 0, .int 4 0, .int 2 (optionalHeaderSize arch),
      .int 2 characteristics]),
    (optionalHeaderOffset, [.int 2 magic, .int 1 0, .int 1 0, .int 4 (s.text.size + apiDynamicSize),
      .int 4 (s.edata.size + s.data.size), .int 4 0, .int 4 0, .int 4 ExportLayout.textRva]),
    (optionalHeaderOffset + 24, match arch with
      | .amd64 => [.int 8 base]
      | .x86 => [.int 4 s.dataRva, .int 4 base]),
    (optionalHeaderOffset + 32, [.int 4 0x1000, .int 4 0x200, .int 2 6, .int 2 0, .int 2 0, .int 2 0,
      .int 2 6, .int 2 0]),
    (optionalHeaderOffset + 52, [.int 4 0, .int 4 imageSize, .int 4 0x1000, .int 4 0, .int 2 2,
      .int 2 0x100]),
    (optionalHeaderOffset + 72, match arch with
      | .amd64 => [.int 8 0x12000, .int 8 0x1000, .int 8 0x100000, .int 8 0x1000, .int 4 0, .int 4 16]
      | .x86 => [.int 4 0x12000, .int 4 0x1000, .int 4 0x100000, .int 4 0x1000, .int 4 0, .int 4 16])]

def directoryOffset : Arch → Nat
  | .amd64 => optionalHeaderOffset + 112
  | .x86 => optionalHeaderOffset + 96

def directoryWrites (arch : Arch) (l : ExportLayout) (s : ExportStrings) :
    List (Nat × List PackField) :=
  if l.assigned = [] then []
  else [(directoryOffset arch, [.int 4 l.edataRva, .int 4 s.exportSize])]

/-- The part of `build_api_image` after the ordinals. -/
def buildImage (name : PyStr) (arch : Arch) (base : Nat) (emuPath : PyStr) (l : ExportLayout) :
    Except ImageError LoadedImage :=
  match exportStrings l name with
  | .error e => .error e
  | .ok strings =>
    let dataRva := l.edataRva + strings.edata.size
    let dynRva := dataRva + l.dataSize
    let imageSize := dynRva + apiDynamicSize
    if base + imageSize > 2 ^ arch.bits then
      .error (.value "Image exceeds the architecture address space".toList)
    else
      let (rvas, text) := placeTargets dataRva strings.forwardRvas 0 0
        (ByteBuffer.filled l.textSize 0xcc) (sortedTargets l.targets)
      match strings.edata.packAll (edataWrites l strings rvas) with
      | none => .error .structError
      | some edata =>
        let sections : ImageSections :=
          { text := text
            edata := edata
            data := ByteBuffer.filled l.dataSize 0
            dyn := ByteBuffer.filled apiDynamicSize 0xcc
            edataRva := l.edataRva
            dataRva := dataRva
            dynRva := dynRva }
        match (ByteBuffer.filled 0x1000 0).packAll (headerWrites arch base imageSize sections ++
          directoryWrites arch l strings ++ sectionWrites arch sections) with
        | none => .error .structError
        | some headers => .ok
          { arch := arch
            moduleType := .dll
            name := name
            emuPath := emuPath
            imageBase := base
            imageSize := imageSize
            regions := ⟨0, headers, "headers".toList, permMemRead⟩ ::
              sections.contents.map fun x => ⟨x.2.1, x.2.2.1, x.1, x.2.2.2.1⟩
            imports := []
            exports := l.assigned.map fun x => ⟨x.1.name, (rvas.lookup x.2).getD 0, x.2, x.1.kind,
              x.1.forwarder⟩
            entryPoints := []
            sections := sections.contents.map fun x => ⟨x.1, x.2.1, x.2.2.1.size, x.2.2.2.1⟩
            source := .synthetic }

def buildApiImage (name : PyStr) (arch : Arch) (base : Nat) (emuPath : PyStr)
    (exports : List ApiExportSpec) : Except ImageError LoadedImage :=
  match asciiString name "module name".toList with
  | .error e => .error e
  | .ok () =>
    match sortSpecs exports with
    | .error e => .error e
    | .ok specs =>
      match ExportLayout.ofSpecs specs with
      | .error e => .error e
      | .ok l => buildImage name arch base emuPath l

end Speakeasy
