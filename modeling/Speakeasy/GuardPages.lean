import Speakeasy.ApiRegistry
import Speakeasy.ProtectionReports

namespace Speakeasy

section

open PageEngine MemoryManager

def statusGuardPageViolation : Nat := 0x80000001
def statusAccessViolation : Nat := 0xC0000005

inductive AccessType
  | read
  | write
  | fetch
deriving DecidableEq, Repr

/-- `ACCESS_CODES` -/
def AccessType.code : AccessType → Nat
  | read => 0
  | write => 1
  | fetch => 8

def AccessType.ucProt : AccessType → Nat
  | read => ucProtRead
  | write => ucProtWrite
  | fetch => ucProtExec

/-- A CPU exception that the run loop sends to the guest, with the guard page to restore first. -/
structure RaisedCpuException where
  code : Nat
  params : List Nat
  guardPage : Option (Nat × Nat)
deriving DecidableEq, Repr

/-- Why the engine stopped, until the run loop handles it. -/
inductive NativeExit
  | raised (exception : RaisedCpuException)
  | execRecovery (page perms : Nat)
deriving DecidableEq, Repr

structure GuestModule where
  base : Nat
  imageSize : Nat
  source : ImageSource
  resourceDirectory : Option (Nat × Nat)

/-- What the hook of a denied access reads of a user mode emulator. -/
structure GuardEnv where
  win : WinEnv
  getModFromAddr : Nat → Option GuestModule
  overlapsTraps : Nat → Bool
  shouldStopOnFaults : Bool
  dispatchHandlers : Bool

namespace WinMemory

variable {ε : Type} [PageEngine ε]

/-- The first allocation at `lpAddress` is marked free. -/
def freeFirst (lpAddress : Nat) : List MemMap → List MemMap
  | [] => []
  | m :: ms => if m.base = lpAddress then { m with free := true } :: ms else m :: freeFirst lpAddress ms

/-- `VirtualFree`, which does not read `dwFreeType`. -/
def virtualFree (w : WinMemory ε) (lpAddress dwSize : Nat) : ApiReturn × WinMemory ε :=
  match w.mgr.maps.find? (·.base == lpAddress) with
  | none => (⟨1, none⟩, w)
  | some m =>
    (⟨1, none⟩, { w with mgr := { w.mgr with maps := freeFirst lpAddress w.mgr.maps } }.clearGuardPages m.base
      (if dwSize = 0 then m.size else dwSize))

def unmapViewOfFile (env : MemEnv) (w : WinMemory ε) (lpBaseAddress : Nat) :
    Except MemError ApiReturn × WinMemory ε :=
  match w.mgr.getAddressMap lpBaseAddress with
  | none => (.ok ⟨0, some errorInvalidParameter⟩, w)
  | some _ =>
    let (res, mgr) := memFree env w.mgr lpBaseAddress
    (res.map fun _ => ⟨1, some 0⟩, { w with mgr := mgr })

/-- `_raise_protection_fault` -/
def raiseProtectionFault (w : WinMemory ε) (address : Nat) (access : AccessType) : NativeExit × WinMemory ε :=
  let page := pageOf address
  match w.guardPages page with
  | some perms =>
    (.raised ⟨statusGuardPageViolation, [access.code, address], some (page, perms)⟩,
      { w with guardPages := Function.update w.guardPages page none })
  | none => (.raised ⟨statusAccessViolation, [access.code, address], none⟩, w)

/-- The resource pages that `_unprotect_resource_write` makes writable. -/
def resourcePages (env : GuardEnv) (address : Nat) : Option (Nat × Nat) :=
  match env.getModFromAddr address with
  | none => none
  | some image =>
    match image.resourceDirectory with
    | none => none
    | some (start, size) =>
      if start ≤ address ∧ address < start + size then
        some (pageOf start, min (pageUp (start + size)) (image.base + image.imageSize) - pageOf start)
      else none

/-- `_handle_prot_write`. The run ends on an error, and the memory stays as it is. -/
def handleProtWrite (env : GuardEnv) (w : WinMemory ε) (address size : Nat) : Option NativeExit × WinMemory ε :=
  let guarded := (w.guardPages (pageOf address)).isSome
  match if guarded = false ∧ size ≤ 8 then resourcePages env address else none with
  | some (base, size) =>
    match w.memProtect base size permMemRw with
    | .error _ => (none, w)
    | .ok w => (none, w)
  | none =>
    if guarded ∨ env.dispatchHandlers then
      let (exit, w) := w.raiseProtectionFault address .write
      (some exit, w)
    else (none, w)

/-- `_handle_prot_fetch`, which changes a protection only after the engine stops. -/
def handleProtFetch (env : GuardEnv) (address nativePerms : Nat) : Option NativeExit :=
  let module := env.getModFromAddr address
  if env.shouldStopOnFaults = false ∧ (module.map GuestModule.source) ≠ some .synthetic ∧
      env.overlapsTraps address = false then
    if (module.map GuestModule.source) = some .guestPe then
      (enginePerms.find? (·.2 == nativePerms)).map fun entry =>
        .execRecovery (pageOf address) (entry.1 ||| permMemExec)
    else none
  else none

/-- A guest access, for which the engine calls `_hook_mem_unmapped` when the protection denies it. -/
def guestAccess (env : GuardEnv) (w : WinMemory ε) (address size : Nat) (access : AccessType) :
    Option NativeExit × WinMemory ε :=
  match permsAt w.mgr.emuEng address with
  | none => (none, w)
  | some perms =>
    if perms &&& access.ucProt ≠ 0 then (none, w)
    else
      match access with
      | .fetch =>
        if (w.guardPages (pageOf address)).isSome then
          let (exit, w) := w.raiseProtectionFault address .fetch
          (some exit, w)
        else (handleProtFetch env address perms, w)
      | .read =>
        let (exit, w) := w.raiseProtectionFault address .read
        (some exit, w)
      | .write => handleProtWrite env w address size

/-- What the run loop does with the memory when it handles an exit. -/
def handleExit (w : WinMemory ε) : NativeExit → WinMemory ε
  | .raised exception =>
    match exception.guardPage with
    | none => w
    | some (page, perms) =>
      match w.memProtect page pageSize perms with
      | .error _ => w
      | .ok w => w
  | .execRecovery page perms =>
    match w.memProtect page pageSize perms with
    | .error _ => w
    | .ok w => w

end WinMemory

end

section

open PageEngine MemoryManager

inductive GuardOp
  | virtualAlloc (lpAddress dwSize flAllocationType flProtect : Nat)
  | virtualProtect (lpAddress dwSize flNewProtect lpflOldProtect : Nat)
  | virtualFree (lpAddress dwSize : Nat)
  | unmapViewOfFile (lpBaseAddress : Nat)
  | access (address size : Nat) (access : AccessType)
  | handleExit
deriving DecidableEq, Repr

/-- What happened to some pages. -/
inductive PageTouch
  | protect (event : PageEvent)
  | access (page : Nat)
  | free (range : Nat × Nat)

/-- A page is freed when the freed range holds a byte of it. -/
def PageTouch.Covers (page : Nat) : PageTouch → Prop
  | protect event => event.Covers page
  | access accessed => page = accessed
  | free range => range.1 < page + pageSize ∧ page < range.2

instance (page : Nat) (touch : PageTouch) : Decidable (touch.Covers page) := by
  cases touch <;> unfold PageTouch.Covers <;> infer_instance

/-- The permissions that a page gets at its first access, when the last touch, which is the first
in the list, asked for a guard page. -/
def guardAsked (history : List PageTouch) (page : Nat) : Option Nat :=
  match history.find? (fun touch => decide (touch.Covers page)) with
  | some (.protect event) => appliedGuard event.prot
  | _ => none

structure GuardSession (ε : Type) where
  win : WinMemory ε
  nativeExit : Option NativeExit
  history : List PageTouch

variable {ε : Type} [PageEngine ε]

/-- The pages whose protection `VirtualAlloc` sets. -/
def allocTouch (w : WinMemory ε) (lpAddress dwSize flAllocationType flProtect : Nat)
    (res : Except MemError ApiReturn) : Option PageEvent :=
  match (w.mgr.getAddressMap lpAddress).filter isVirtualAlloc, res with
  | some mm, .ok _ =>
    if hasFlag flAllocationType memCommit then
      some ⟨pageOf lpAddress, min (pageUp (lpAddress + dwSize)) (mm.base + mm.size) - pageOf lpAddress, flProtect⟩
    else none
  | none, .ok ⟨rv, none⟩ => some ⟨rv, pageUp dwSize, flProtect⟩
  | _, _ => none

/-- The part of an allocation that `VirtualFree` is asked to free. -/
def freedRange (w : WinMemory ε) (lpAddress dwSize : Nat) : Option (Nat × Nat) :=
  match w.mgr.getAddressMap lpAddress with
  | none => none
  | some m =>
    if dwSize ≠ 0 then some (lpAddress, min (lpAddress + dwSize) (m.base + m.size))
    else if lpAddress = m.base then some (m.base, m.base + m.size)
    else none

/-- The block that `UnmapViewOfFile` frees, with the last allocation in it. -/
def unmappedRange (w : WinMemory ε) (lpBaseAddress : Nat) : Option (Nat × Nat) :=
  match w.mgr.getAddressMap lpBaseAddress with
  | none => none
  | some mm =>
    if ∀ m ∈ setFree lpBaseAddress w.mgr.maps, m.blockBase = mm.blockBase → m.free = true then
      some (mm.blockBase, mm.blockBase + mm.blockSize)
    else none

namespace GuardSession

def init (w : WinMemory ε) : GuardSession ε := ⟨w, none, []⟩

/-- One operation. While an exit waits for the run loop, nothing else can happen. -/
def step (env : GuardEnv) (t : GuardSession ε) (op : GuardOp) : Option (GuardSession ε) :=
  match t.nativeExit, op with
  | some exit, .handleExit => some { t with win := t.win.handleExit exit, nativeExit := none }
  | some _, _ => none
  | none, .handleExit => none
  | none, .virtualAlloc lpAddress dwSize flAllocationType flProtect =>
    (virtualAlloc 0 env.win t.win lpAddress dwSize flAllocationType flProtect).map fun (res, w) =>
      { t with
        win := w
        history := ((allocTouch t.win lpAddress dwSize flAllocationType flProtect res).map
          PageTouch.protect).toList ++ t.history }
  | none, .virtualProtect lpAddress dwSize flNewProtect lpflOldProtect =>
    some { t with
      win := (Speakeasy.virtualProtect t.win lpAddress dwSize flNewProtect lpflOldProtect).2
      history := ((protectEvent lpAddress dwSize flNewProtect
        (protectPages t.win lpAddress dwSize flNewProtect lpflOldProtect).1).map PageTouch.protect).toList ++
          t.history }
  | none, .virtualFree lpAddress dwSize =>
    some { t with
      win := (t.win.virtualFree lpAddress dwSize).2
      history := ((freedRange t.win lpAddress dwSize).map PageTouch.free).toList ++ t.history }
  | none, .unmapViewOfFile lpBaseAddress =>
    some { t with
      win := (t.win.unmapViewOfFile env.win.mem lpBaseAddress).2
      history := ((unmappedRange t.win lpBaseAddress).map PageTouch.free).toList ++ t.history }
  | none, .access address size access =>
    let (exit, w) := t.win.guestAccess env address size access
    some ⟨w, exit, .access (pageOf address) :: t.history⟩

end GuardSession

/-- The entries that `VirtualFree` clears are those of the pages that it is asked to free. -/
def FreesClean (w : WinMemory ε) (lpAddress dwSize : Nat) : Prop :=
  ∀ page, w.guardPages page ≠ none →
    match w.mgr.maps.find? (·.base == lpAddress) with
    | some m => m.base + m.size ≤ page → lpAddress + dwSize ≤ page
    | none => ∀ range, freedRange w lpAddress dwSize = some range → ¬(PageTouch.free range).Covers page

/-- `UnmapViewOfFile` frees no guard page. -/
def UnmapsClean (w : WinMemory ε) (lpBaseAddress : Nat) : Prop :=
  ∀ page, w.guardPages page ≠ none →
    ∀ range, unmappedRange w lpBaseAddress = some range → ¬(PageTouch.free range).Covers page

/-- A denied write to resource data makes no guard page writable. -/
def WritesClean (env : GuardEnv) (w : WinMemory ε) (address size : Nat) : Prop :=
  w.guardPages (pageOf address) = none → size ≤ 8 →
    ∀ perms, permsAt w.mgr.emuEng address = some perms → perms &&& ucProtWrite = 0 →
    ∀ base total w', WinMemory.resourcePages env address = some (base, total) →
      w.memProtect base total permMemRw = .ok w' →
      ∀ page, w.guardPages page ≠ none → page < base ∨ base + total ≤ page

def GuardOp.Clean (env : GuardEnv) (w : WinMemory ε) : GuardOp → Prop
  | .virtualFree lpAddress dwSize => FreesClean w lpAddress dwSize
  | .unmapViewOfFile lpBaseAddress => UnmapsClean w lpBaseAddress
  | .access address size .write => WritesClean env w address size
  | _ => True

/-- The states that the operations reach, when every step meets a condition. -/
inductive GuardRun (env : GuardEnv) (cond : WinMemory ε → GuardOp → Prop) (w : WinMemory ε) : GuardSession ε → Prop
  | init : GuardRun env cond w (GuardSession.init w)
  | step {t t' op} : GuardRun env cond w t → cond t.win op → t.step env op = some t' → GuardRun env cond w t'

/-- The last step raised a guard page exception. -/
def GuardSession.RaisesGuard (t : GuardSession ε) : Prop :=
  ∃ exception, t.nativeExit = some (.raised exception) ∧ exception.code = statusGuardPageViolation

/-- Guard pages are one-shot. -/
structure GuardLaw (env : GuardEnv) (t : GuardSession ε) : Prop where
  entry : ∀ {page}, PageAligned page → t.win.guardPages page = guardAsked t.history page
  denied : ∀ {a perms}, t.win.guardPages (pageOf a) = some perms →
    ∃ native, permsAt t.win.mgr.emuEng a = some native ∧ ∀ access : AccessType, native &&& access.ucProt = 0
  /-- The first access raises the exception, and its handling gives the page its permissions. -/
  first : ∀ {a perms}, t.nativeExit = none → t.win.guardPages (pageOf a) = some perms → ∀ size access,
    ∃ t₁ t₂, t.step env (.access a size access) = some t₁ ∧
      t₁.nativeExit = some (.raised ⟨statusGuardPageViolation, [access.code, a], some (pageOf a, perms)⟩) ∧
      t₁.step env .handleExit = some t₂ ∧ t₂.nativeExit = none ∧
      t₂.win.guardPages = Function.update t.win.guardPages (pageOf a) none ∧
      ∀ b, permsAt t₂.win.mgr.emuEng b =
        if pageOf b = pageOf a then some (ucPerms perms) else permsAt t.win.mgr.emuEng b
  /-- Without the request, or after an access or a free, there is no exception. -/
  quiet : ∀ {a t'}, guardAsked t.history (pageOf a) = none → ∀ size access,
    t.step env (.access a size access) = some t' → ¬t'.RaisesGuard

end

end Speakeasy
