import Mathlib.Data.List.Basic

namespace Speakeasy

inductive EntryPointType
  | driverEntry
  | export
  | irp
  | driverUnload
  | driverReinit
  | thread
  | callback
deriving DecidableEq, Repr

/-- The runs that the emulator itself adds for a driver. -/
def EntryPointType.ofDriver : EntryPointType → Bool
  | .driverEntry | .export | .irp | .driverUnload => true
  | .driverReinit | .thread | .callback => false

structure DriverRun where
  type : EntryPointType
  name : Option String
  startAddr : Nat
  args : List Nat
deriving DecidableEq, Repr

structure ModuleExport where
  name : Option String
  address : Nat
deriving DecidableEq, Repr

/-- A loaded module: its range, the RVA of its entry point, and its exports. -/
structure DriverImage where
  base : Nat
  imageSize : Nat
  ep : Nat
  exports : List ModuleExport
deriving DecidableEq, Repr

/-- A driver object, with the image at index `pe` of the modules. -/
structure DriverObject where
  pe : Nat
  address : Nat
  regPathPtr : Nat
  devices : List Nat
  mjFuncs : Nat → Nat
  onUnload : Nat
  unloadCalled : Bool

/-- `get_module_from_addr`. The end of a module counts as part of it. -/
def getModuleFromAddr (modules : List DriverImage) (addr : Nat) : Option Nat :=
  modules.findIdx? fun m => m.base ≤ addr ∧ addr ≤ m.base + m.imageSize

def maxExportsToEmulate : Nat := 10

/-- The IRP major functions, in the order of their runs. -/
def irpMajors : List (Nat × String) :=
  [(0x00, "IRP_MJ_CREATE"), (0x0E, "IRP_MJ_DEVICE_CONTROL"), (0x03, "IRP_MJ_READ"),
    (0x04, "IRP_MJ_WRITE"), (0x02, "IRP_MJ_CLOSE"), (0x12, "IRP_MJ_CLEANUP")]

/-- What does not change while the driver runs: the modules, and the addresses that the emulator maps
for the placeholder arguments of the exports and for each IRP. -/
structure KernelEnv where
  modules : List DriverImage
  exportArgs : List Nat
  newIrp : String → Nat

/-- The runs of the kernel emulator. `returned` and `added` record the runs that returned and the runs
that `add_run` added, which the source does not keep. -/
structure KernelEmu where
  allEntrypoints : Bool
  runQueue : List DriverRun
  delayedRuns : List DriverRun
  runs : List DriverRun
  currRun : Option DriverRun
  currMod : Option Nat
  drivers : List DriverObject
  isEmuComplete : Bool
  returned : List DriverRun
  added : List DriverRun

namespace KernelEmu

def addRun (s : KernelEmu) (run : DriverRun) : KernelEmu :=
  { s with runQueue := s.runQueue ++ [run], added := s.added ++ [run] }

def addRuns (s : KernelEmu) (runs : List DriverRun) : KernelEmu :=
  { s with runQueue := s.runQueue ++ runs, added := s.added ++ runs }

def onEmuComplete (s : KernelEmu) : KernelEmu := { s with isEmuComplete := true }

/-- The part of `_prepare_run_context` that records the run. -/
def prepareRunContext (env : KernelEnv) (s : KernelEmu) (run : DriverRun) : KernelEmu :=
  { s with
    currRun := some run
    currMod := getModuleFromAddr env.modules run.startAddr
    runs := s.runs ++ [run] }

def prepareNextRun (env : KernelEnv) (s : KernelEmu) : KernelEmu :=
  match s.runQueue with
  | [] => s.onEmuComplete
  | run :: queue => prepareRunContext env { s with runQueue := queue } run

def unloadRun (drv : DriverObject) : DriverRun :=
  ⟨.driverUnload, none, drv.onUnload, [drv.address]⟩

def driverUnload (s : KernelEmu) (drv : DriverObject) : KernelEmu × DriverObject :=
  if drv.onUnload = 0 ∨ drv.unloadCalled = true then (s.onEmuComplete, drv)
  else (s.addRun (unloadRun drv), { drv with unloadCalled := true })

def irpRun (env : KernelEnv) (drv : DriverObject) (dev : Nat) (irp : Nat × String) : DriverRun :=
  ⟨.irp, some irp.2, drv.mjFuncs irp.1, [dev, env.newIrp irp.2]⟩

def irpStarted (s : KernelEmu) (irpName : String) : Bool :=
  s.runs.any fun r => r.type = .irp ∧ r.name = some irpName

/-- The first IRP major function that has a handler and no run yet. -/
def nextIrp (s : KernelEmu) (drv : DriverObject) : Option (Nat × String) :=
  irpMajors.find? fun irp => !s.irpStarted irp.2 && decide (drv.mjFuncs irp.1 ≠ 0)

def nextDriverFunc (env : KernelEnv) (s : KernelEmu) (drv : DriverObject) :
    KernelEmu × DriverObject :=
  if s.runQueue ≠ [] then (s, drv)
  else if s.allEntrypoints = false then (s, drv)
  else
    let irp := s.nextIrp drv
    let s := { s.addRuns s.delayedRuns with delayedRuns := [] }
    match irp, drv.devices with
    | some irp, dev :: _ => (s.addRun (irpRun env drv dev irp), drv)
    | _, _ => s.driverUnload drv

/-- The loop of `on_run_complete` over the drivers. -/
def visitDrivers (env : KernelEnv) (s : KernelEmu) : List DriverObject → KernelEmu × List DriverObject
  | [] => (s, [])
  | drv :: rest =>
    let visited := if some drv.pe = s.currMod then nextDriverFunc env s drv else (s, drv)
    let others := visitDrivers env visited.1 rest
    (others.1, visited.2 :: others.2)

def onRunComplete (env : KernelEnv) (s : KernelEmu) : KernelEmu :=
  let visited := visitDrivers env s s.drivers
  prepareNextRun env { visited.1 with drivers := visited.2 }

/-- The current run returns. -/
def returnRun (env : KernelEnv) (s : KernelEmu) : KernelEmu :=
  onRunComplete env { s with returned := s.returned ++ s.currRun.toList }

def entryRun (env : KernelEnv) (drv : DriverObject) (entryPoint : Option Nat) : List DriverRun :=
  match entryPoint, env.modules[drv.pe]? with
  | some rva, some m => [⟨.driverEntry, none, m.base + rva, [drv.address, drv.regPathPtr]⟩]
  | none, some m =>
    if 0 < m.ep then [⟨.driverEntry, none, m.base + m.ep, [drv.address, drv.regPathPtr]⟩] else []
  | _, none => []

def exportRun (env : KernelEnv) (exp : ModuleExport) : DriverRun :=
  ⟨.export, exp.name.filter (· ≠ ""), exp.address, env.exportArgs⟩

def exportRuns (env : KernelEnv) (drv : DriverObject) : List DriverRun :=
  match env.modules[drv.pe]? with
  | some m => (m.exports.take maxExportsToEmulate).map (exportRun env)
  | none => []

/-- `run_module` up to the start of its first run. `drv` is the driver object as DriverEntry leaves it,
which the emulator reads back when a run ends. -/
def runModule (env : KernelEnv) (others : List DriverObject) (drv : DriverObject)
    (entryPoint : Option Nat) (allEntrypoints : Bool) : KernelEmu :=
  let s : KernelEmu :=
    { allEntrypoints := allEntrypoints
      runQueue := entryRun env drv entryPoint
      delayedRuns := if allEntrypoints then exportRuns env drv else []
      runs := []
      currRun := none
      currMod := none
      drivers := others ++ [drv]
      isEmuComplete := false
      returned := []
      added := entryRun env drv entryPoint }
  match s.runQueue with
  | [] => s
  | run :: queue => prepareRunContext env { s with runQueue := queue } run

end KernelEmu

/-- A run that the guest adds, such as a system thread. -/
abbrev GuestRun := { r : DriverRun // r.type.ofDriver = false }

inductive KernelOp
  | addRun (r : GuestRun)
  | returnRun

namespace KernelEmu

/-- After the emulation is complete no run executes. -/
def step (env : KernelEnv) (s : KernelEmu) (op : KernelOp) : KernelEmu :=
  if s.isEmuComplete then s
  else
    match op with
    | .addRun r => s.addRun r.val
    | .returnRun => s.returnRun env

def run (env : KernelEnv) (s : KernelEmu) (ops : List KernelOp) : KernelEmu :=
  ops.foldl (step env) s

/-- The major functions with a handler, if the driver has a device. -/
def irpRuns (env : KernelEnv) (drv : DriverObject) : List DriverRun :=
  match drv.devices with
  | [] => []
  | dev :: _ => (irpMajors.filter fun irp => drv.mjFuncs irp.1 ≠ 0).map (irpRun env drv dev)

def unloadRuns (drv : DriverObject) : List DriverRun :=
  if drv.onUnload = 0 then [] else [unloadRun drv]

/-- The runs that the emulator owes the driver, in their order. -/
def entryPoints (env : KernelEnv) (drv : DriverObject) (entryPoint : Option Nat) : List DriverRun :=
  entryRun env drv entryPoint ++ exportRuns env drv ++ irpRuns env drv ++ unloadRuns drv

def driverRuns (runs : List DriverRun) : List DriverRun := runs.filter fun r => r.type.ofDriver

/-- Each entry point runs once and in its place, no run is started twice, and the emulation is complete
only when all of them returned. -/
structure Covered (env : KernelEnv) (drv : DriverObject) (entryPoint : Option Nat) (s : KernelEmu) :
    Prop where
  inOrder : driverRuns s.runs <+: entryPoints env drv entryPoint
  once : s.runs ++ s.runQueue = s.added
  running : s.isEmuComplete = false → ∃ r, s.currRun = some r ∧ s.runs = s.returned ++ [r]
  complete : s.isEmuComplete = true → driverRuns s.returned = entryPoints env drv entryPoint ∧
    s.runs = s.returned

end KernelEmu

end Speakeasy
