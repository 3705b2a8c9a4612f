import Speakeasy.MemoryManager
import Speakeasy.MemoryRuns

namespace Speakeasy

open PageEngine MemoryManager

structure MapView where
  base : Nat
  offset : Nat
  size : Nat
  protect : Nat
deriving DecidableEq, Repr

/-- `FileMap`. `backedFile` has the contents of the file, and `views` the items of the dictionary. -/
structure FileMap where
  backedFile : Option (List UInt8)
  size : Nat
  prot : Nat
  views : List (Nat × MapView)
deriving DecidableEq, Repr

def FileMap.addView (fm : FileMap) (view : MapView) : FileMap :=
  if (fm.views.lookup view.base).isSome then
    { fm with views := fm.views.map fun v => if v.1 = view.base then (view.base, view) else v }
  else { fm with views := fm.views ++ [(view.base, view)] }

def secImage : Nat := 0x01000000

def FileMap.isImage (fm : FileMap) : Bool := fm.backedFile.isSome && decide (fm.prot &&& secImage ≠ 0)

/-- A view that `MapViewOfFile` returned and that was not unmapped. The source has no list of them. -/
structure LiveView where
  mapping : Nat
  base : Nat
  offset : Nat
  size : Nat
deriving DecidableEq, Repr

def LiveView.Contains (v : LiveView) (a : Nat) : Prop := v.base ≤ a ∧ a < v.base + v.size

instance (v : LiveView) (a : Nat) : Decidable (v.Contains a) := inferInstanceAs (Decidable (_ ∧ _))

/-- The view has a file offset of the range. -/
def LiveView.Meets (v : LiveView) (offset size : Nat) : Prop :=
  max v.offset offset < min (v.offset + v.size) (offset + size)

inductive ViewError
  | memory (e : MemError)
  | badPe
deriving DecidableEq, Repr

/-- Fresh pages are zero. -/
def GuestMemory.remap {ε : Type} [PageEngine ε] (g : GuestMemory ε) (mgr : MemoryManager ε) :
    GuestMemory ε where
  mgr := mgr
  bytes a := if Mapped mgr.emuEng a ∧ ¬Mapped g.mgr.emuEng a then 0 else g.bytes a

/-- The memory, the open `allocations_from` blocks, and the file mappings. -/
structure ViewSession (ε : Type) where
  mem : GuestMemory ε
  bases : List Nat
  mappings : List FileMap
  live : List LiveView

structure ViewArgs where
  /-- What the handle table has for `hFileMappingObject`. -/
  mapping : Option Nat
  access : Nat
  perms : Nat
  offsetHigh : Nat
  offsetLow : Nat
  bytesToMap : Nat
  baseAddress : Nat

def ViewArgs.fullOffset (a : ViewArgs) : Nat := (a.offsetHigh <<< 32) ||| a.offsetLow

/-- `emu.load_pe`, which gives the size of the image and its mapped bytes. -/
abbrev LoadPe := List UInt8 → Option (Nat × List UInt8)

/-- The bytes of the file that a view shows. -/
def ViewArgs.fileData (a : ViewArgs) (contents : List UInt8) : List UInt8 :=
  if a.bytesToMap ≠ 0 then (contents.drop a.fullOffset).take a.bytesToMap
  else contents.drop a.fullOffset

namespace ViewSession

variable {ε : Type} [PageEngine ε]

def getMappingFromAddr (mappings : List FileMap) (addr : Nat) : Option FileMap :=
  mappings.find? fun fm => (fm.views.lookup addr).isSome

/-- The bases to which `ApiHandler.mem_write` copies what it writes at an address, and the address as
an offset in its allocation. -/
def broadcastBases (s : ViewSession ε) (addr : Nat) : List Nat × Nat :=
  match s.mem.mgr.getAddressMap addr with
  | some mm =>
    if mm.shared then
      match getMappingFromAddr s.mappings mm.base with
      | some fm => ((fm.views.map Prod.fst).filter (· ≠ mm.base), addr - mm.base)
      | none => ([], 0)
    else ([], 0)
  | none => ([], 0)

def writeEach (g : GuestMemory ε) (data : List UInt8) :
    List Nat → Except MemError Unit × GuestMemory ε
  | [] => (.ok (), g)
  | a :: rest =>
    match g.memWrite a data with
    | .error e => (.error e, g)
    | .ok g => writeEach g data rest

def writeAddrs (s : ViewSession ε) (addr : Nat) : List Nat :=
  (s.broadcastBases addr).1.map (· + (s.broadcastBases addr).2) ++ [addr]

/-- `ApiHandler.mem_write`. -/
def memWrite (s : ViewSession ε) (addr : Nat) (data : List UInt8) :
    Except MemError Unit × ViewSession ε :=
  let (r, mem) := writeEach s.mem data (s.writeAddrs addr)
  (r, { s with mem := mem })

/-- `get_view_range`. A base that the search does not give back is 0. The bases of the search are page
aligned, so that its loop ends at once. -/
def getViewRange (env : MemEnv) (s : ViewSession ε) (baseAddress size : Nat) :
    Except MemError (Nat × Nat) :=
  if baseAddress = 0 then getValidRanges env s.mem.mgr size none
  else
    match getValidRanges env s.mem.mgr size (some baseAddress) with
    | .ok (base, size) => .ok (if base = baseAddress then base else 0, size)
    | .error e => .error e

def addView (s : ViewSession ε) (m : Nat) (view : MapView) : ViewSession ε :=
  { s with mappings := s.mappings.modify m (·.addView view) }

/-- The loop over the views with the same range. -/
def copyViews (s : ViewSession ε) (view : MapView) :
    List (Nat × MapView) → Except MemError Unit × ViewSession ε
  | [] => (.ok (), s)
  | (base, v) :: rest =>
    if base ≠ view.base ∧ v.size = view.size ∧ v.offset = view.offset then
      match s.mem.memRead base view.size with
      | .error e => (.error e, s)
      | .ok data =>
        match s.memWrite view.base data with
        | (.error e, s) => (.error e, s)
        | (.ok (), s) => copyViews s view rest
    else copyViews s view rest

def viewsOf (s : ViewSession ε) (m : Nat) : List (Nat × MapView) :=
  ((s.mappings[m]?).map FileMap.views).getD []

def writeData (s : ViewSession ε) (view : MapView) :
    Option (List UInt8) → Except MemError Unit × ViewSession ε
  | none => (.ok (), s)
  | some data => s.memWrite view.base data

/-- The end of `map_view`, after the allocation: the view is recorded, the data of the file is written to
it, and then the bytes of each view with the same range. -/
def fillView (s : ViewSession ε) (m : Nat) (view : MapView) (data : Option (List UInt8)) :
    Except MemError Unit × ViewSession ε :=
  match (s.addView m view).writeData view data with
  | (.error e, s) => (.error e, s)
  | (.ok (), s) => copyViews s view (s.viewsOf m)

/-- The view is live when the call returns its base. -/
def returnView (m : Nat) (view : MapView) (r : Except MemError Unit × ViewSession ε) :
    Except ViewError Nat × ViewSession ε :=
  match r with
  | (.error e, s) => (.error (.memory e), s)
  | (.ok (), s) => (.ok view.base,
      { s with live := s.live ++ [⟨m, view.base, view.offset, view.size⟩] })

/-- Allocate a view of `total` bytes in the range that was found, and fill it. -/
def placeView (env : MemEnv) (s : ViewSession ε) (m : Nat) (a : ViewArgs) (shared : Bool)
    (tag : Option PyStr) (total base size : Nat) (data : Option (List UInt8)) :
    Except ViewError Nat × ViewSession ε :=
  if base = 0 then (.ok 0, s)
  else
    let (r, mgr) := MemoryManager.memMap env s.mem.mgr
      { size := total, base := some base, perms := a.perms, tag := tag, shared := shared }
    let s := { s with mem := s.mem.remap mgr }
    match r with
    | .error e => (.error (.memory e), s)
    | .ok buf =>
      let view : MapView := ⟨buf, a.fullOffset, size, a.access⟩
      returnView m view (s.fillView m view data)

def viewTag : PyStr := "api.MapViewOfFile".toList

/-- `map_view`. -/
def mapView (env : MemEnv) (loadPe : LoadPe) (s : ViewSession ε) (a : ViewArgs) :
    Except ViewError Nat × ViewSession ε :=
  match a.mapping.bind fun m => (s.mappings[m]?).map fun fm => (m, fm) with
  | none => (.ok 0, s)
  | some (m, fm) =>
    if a.baseAddress &&& 0xFFFF ≠ 0 then (.ok 0, s)
    else
      match fm.backedFile with
      | some contents =>
        let data := a.fileData contents
        if fm.prot &&& secImage ≠ 0 then
          match loadPe data with
          | none => (.error .badPe, s)
          | some (imageSize, mappedImage) =>
            match s.getViewRange env a.baseAddress imageSize with
            | .error e => (.error (.memory e), s)
            | .ok (base, size) =>
              s.placeView env m a false (some viewTag) imageSize base size (some mappedImage)
        else
          match s.getViewRange env a.baseAddress data.length with
          | .error e => (.error (.memory e), s)
          | .ok (base, size) => s.placeView env m a true none size base size (some data)
      | none =>
        let bytesToMap := if a.bytesToMap = 0 then fm.size - a.fullOffset else a.bytesToMap
        match s.getViewRange env a.baseAddress bytesToMap with
        -- ERROR_NOT_ENOUGH_MEMORY
        | .error _ => (.ok 0, s)
        | .ok (base, size) => s.placeView env m a true (some viewTag) size base size none

/-- `file_create_mapping`. -/
def createMapping (s : ViewSession ε) (backedFile : Option (List UInt8)) (size prot : Nat) :
    ViewSession ε :=
  { s with mappings := s.mappings ++ [⟨backedFile, size, prot, []⟩] }

/-- The views whose allocation a free of an address leaves. -/
def liveAfter (s : ViewSession ε) : MemOp → List LiveView
  | .memFree base =>
    match s.mem.mgr.getAddressMap base with
    | some mm => s.live.filter (·.base ≠ mm.base)
    | none => s.live
  | _ => s.live

/-- A call of the memory manager, by an allocation or a free of another API. -/
def memOp (env : MemEnv) (s : ViewSession ε) (op : MemOp) : ViewSession ε :=
  let t := MemSession.step env ⟨s.mem.mgr, s.bases⟩ op
  { s with mem := s.mem.remap t.mgr, bases := t.bases, live := s.liveAfter op }

/-- `UnmapViewOfFile`. -/
def unmapView (env : MemEnv) (s : ViewSession ε) (addr : Nat) : Bool × ViewSession ε :=
  match s.mem.mgr.getAddressMap addr with
  | some _ => (true, s.memOp env (.memFree addr))
  | none => (false, s)

end ViewSession

inductive ViewOp
  | createMapping (backedFile : Option (List UInt8)) (size prot : Nat)
  | mapView (a : ViewArgs)
  | unmapView (addr : Nat)
  | memOp (op : MemOp)
  | memWrite (addr : Nat) (data : List UInt8)

namespace ViewSession

variable {ε : Type} [PageEngine ε]

def step (env : MemEnv) (loadPe : LoadPe) (s : ViewSession ε) : ViewOp → ViewSession ε
  | .createMapping backedFile size prot => s.createMapping backedFile size prot
  | .mapView a => (s.mapView env loadPe a).2
  | .unmapView addr => (s.unmapView env addr).2
  | .memOp op => s.memOp env op
  | .memWrite addr data => (s.memWrite addr data).2

def initial (e : ε) : ViewSession ε where
  mem := ⟨MemoryManager.init e, fun _ => 0⟩
  bases := []
  mappings := []
  live := []

end ViewSession

end Speakeasy
