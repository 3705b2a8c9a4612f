import Speakeasy.MemoryRuns
import Speakeasy.GuestCallbacks
import Speakeasy.LoaderLists
import Speakeasy.FoldRuns

namespace Speakeasy

open PageEngine MemoryManager

/-- A device object of the object manager, with the bytes of its DEVICE_OBJECT. -/
structure DeviceObject where
  address : Nat
  name : PyStr
  object : List UInt8
deriving DecidableEq, Repr

inductive DeviceError
  | mem (e : MemError)
  | attributeError
deriving DecidableEq, Repr

/-- A driver with its devices, in the guest. -/
structure DriverState (ε : Type) where
  guest : GuestMemory ε
  drvAddress : Nat
  drvObject : List UInt8
  objects : List DeviceObject
  devices : List Nat
  kernelObjectId : Nat

namespace DriverState

section Layout

variable (arch : Arch)

def sizeofDriver : Nat := match arch with | .x86 => 168 | .amd64 => 336

def sizeofDevice : Nat := match arch with | .x86 => 184 | .amd64 => 336

def sizeofFile : Nat := match arch with | .x86 => 128 | .amd64 => 216

/-- `DRIVER_OBJECT.DeviceObject`. -/
def deviceObjectField : Nat := arch.ptrSize

/-- `DEVICE_OBJECT.DriverObject`. -/
def driverObjectField : Nat := 8

/-- `DEVICE_OBJECT.NextDevice`. -/
def nextDeviceField : Nat := 8 + arch.ptrSize

def characteristicsField : Nat := match arch with | .x86 => 32 | .amd64 => 52

def deviceExtensionField : Nat := match arch with | .x86 => 40 | .amd64 => 64

def deviceTypeField : Nat := match arch with | .x86 => 44 | .amd64 => 72

/-- A field of an object at an offset. -/
def getField (offset width : Nat) (object : List UInt8) : Nat :=
  fromBytes ((object.drop offset).take width)

/-- A new DEVICE_OBJECT: its type, its size and one reference. -/
def newDevice : List UInt8 :=
  toBytes 2 3 ++ toBytes 2 (sizeofDevice arch) ++ toBytes 4 1 ++ List.replicate (sizeofDevice arch - 8) 0

end Layout

variable {ε : Type} [PageEngine ε]

def getObjectFromAddr (objects : List DeviceObject) (addr : Nat) : Option DeviceObject :=
  objects.find? fun o => decide (o.address = addr)

/-- `add_object`: an address that is known keeps its object. -/
def addObject (objects : List DeviceObject) (dev : DeviceObject) : List DeviceObject :=
  if (getObjectFromAddr objects dev.address).isSome then objects else objects ++ [dev]

/-- The object at an address gets other bytes. -/
def setObject (objects : List DeviceObject) (addr : Nat) (object : List UInt8) : List DeviceObject :=
  objects.map fun o => if o.address = addr then { o with object := object } else o

/-- The name of a device and the tag of its allocation. -/
def deviceName (name tag : PyStr) (id : Nat) : PyStr × PyStr :=
  if name = [] then
    let devname := "\\Device\\".toList ++ Nat.toDigits 16 id
    (devname, (if tag = [] then "emu.device.autogen".toList else tag) ++ '.' :: devname)
  else (name, (if tag = [] then "emu.object".toList else tag) ++ '.' :: name)

/-- The allocation of a device with its extension. -/
def deviceArgs (arch : Arch) (extSize : Nat) (tag : PyStr) : MapArgs :=
  { size := extSize + sizeofDevice arch, tag := some tag }

def fileArgs (arch : Arch) : MapArgs :=
  { size := sizeofFile arch, tag := some "emu.struct.FILE_OBJECT".toList }

/-- Link the device after the first device of the driver, whose next device is set if it has none. A first
device that has one makes the loop read a field that a driver does not have. -/
def linkAfter (arch : Arch) (g : GuestMemory ε) (objects : List DeviceObject) (first dev : Nat) :
    Except DeviceError (GuestMemory ε × List DeviceObject) :=
  match getObjectFromAddr objects first with
  | none => .ok (g, objects)
  | some next =>
    if getField (nextDeviceField arch) arch.ptrSize next.object ≠ 0 then .error .attributeError
    else
      let object := setPointer arch.ptrSize (nextDeviceField arch) dev next.object
      match g.memWrite next.address object with
      | .error e => .error (.mem e)
      | .ok g => .ok (g, setObject objects first object)

/-- The last fields of a new device. -/
def finishObject (arch : Arch) (address extSize devtype chars : Nat) (object : List UInt8) : List UInt8 :=
  let object := setPointer 4 (characteristicsField arch) chars object
  let object := setPointer 4 (deviceTypeField arch) devtype object
  if 0 < extSize then
    setPointer arch.ptrSize (deviceExtensionField arch) (address + sizeofDevice arch) object
  else object

/-- Link a device to the driver: it becomes the first device, or the one after the first. -/
def linkDevice (arch : Arch) (s : DriverState ε) (address : Nat) : Except DeviceError (DriverState ε) :=
  match s.guest.memRead s.drvAddress (sizeofDriver arch) with
  | .error e => .error (.mem e)
  | .ok drvObject =>
    let first := getField (deviceObjectField arch) arch.ptrSize drvObject
    if first = 0 then
      let drvObject := setPointer arch.ptrSize (deviceObjectField arch) address drvObject
      match s.guest.memWrite s.drvAddress drvObject with
      | .error e => .error (.mem e)
      | .ok g => .ok { s with guest := g, drvObject := drvObject }
    else
      match linkAfter arch s.guest s.objects first address with
      | .error e => .error e
      | .ok (g, objects) => .ok { s with guest := g, objects := objects, drvObject := drvObject }

/-- What `create_device_object` does after the allocations. -/
def attachDevice (arch : Arch) (s : DriverState ε) (address : Nat) (name : PyStr)
    (extSize devtype chars : Nat) : Except DeviceError Nat × DriverState ε :=
  let object := setPointer arch.ptrSize driverObjectField s.drvAddress (newDevice arch)
  let s := { s with objects := addObject s.objects ⟨address, name, object⟩ }
  match linkDevice arch s address with
  | .error e => (.error e, s)
  | .ok s =>
    let object := ((getObjectFromAddr s.objects address).map DeviceObject.object).getD object
    let object := finishObject arch address extSize devtype chars object
    let s := { s with objects := setObject s.objects address object, devices := s.devices ++ [address] }
    match s.guest.memWrite address object with
    | .error e => (.error (.mem e), s)
    | .ok g => (.ok address, { s with guest := g })

/-- The state with another memory manager, after an object id was given out. -/
def withMgr (s : DriverState ε) (mgr : MemoryManager ε) : DriverState ε :=
  { s with guest := { s.guest with mgr := mgr }, kernelObjectId := s.kernelObjectId + 4 }

/-- `create_device_object`. A call that raises keeps what it changed. -/
def createDeviceObject (arch : Arch) (env : MemEnv) (s : DriverState ε) (name : PyStr)
    (extSize devtype chars : Nat) (tag : PyStr) : Except DeviceError Nat × DriverState ε :=
  let names := deviceName name tag s.kernelObjectId
  match memMap env s.guest.mgr (deviceArgs arch extSize names.2) with
  | (.error e, mgr) => (.error (.mem e), s.withMgr mgr)
  | (.ok address, mgr) =>
    match memMap env mgr (fileArgs arch) with
    | (.error e, mgr') => (.error (.mem e), (s.withMgr mgr).withMgr mgr')
    | (.ok _, mgr') =>
      attachDevice arch ((s.withMgr mgr).withMgr mgr') address names.1 extSize devtype chars

end DriverState

/-- What happens to a driver: a device is created, the guest writes, or something else is allocated. -/
inductive DeviceOp
  | createDevice (name : PyStr) (extSize devtype chars : Nat) (tag : PyStr)
  | guestWrite (address : Nat) (data : List UInt8)
  | allocate (size : Nat) (tag : PyStr)
deriving DecidableEq, Repr

namespace DriverState

variable {ε : Type} [PageEngine ε]

/-- The state with the devices that the calls returned, each with the size of its extension. -/
structure Session (ε : Type) where
  state : DriverState ε
  created : List (Nat × Nat)

def Session.step (arch : Arch) (env : MemEnv) (t : Session ε) : DeviceOp → Session ε
  | .createDevice name extSize devtype chars tag =>
    let r := t.state.createDeviceObject arch env name extSize devtype chars tag
    match r.1 with
    | .ok address => ⟨r.2, t.created ++ [(address, extSize)]⟩
    | .error _ => ⟨r.2, t.created⟩
  | .guestWrite address data =>
    { t with state := { t.state with guest :=
      { t.state.guest with bytes := t.state.guest.bytes.writeBytes address data } } }
  | .allocate size tag =>
    let mgr := (memMap env t.state.guest.mgr { size := size, tag := some tag }).2
    { t with state := { t.state with guest := { t.state.guest with mgr := mgr } } }

/-- The addresses of the fields that link the list: the pointer of the driver, and of each device the
pointers to the driver, to the next device and to the extension. -/
def linkFields (arch : Arch) (t : Session ε) : List Nat :=
  (t.state.drvAddress + deviceObjectField arch) ::
    t.created.flatMap fun d => [d.1 + driverObjectField, d.1 + nextDeviceField arch, d.1 + deviceExtensionField arch]

/-- The guest does not write to the fields that link the list. -/
def Allowed (arch : Arch) (t : Session ε) : DeviceOp → Prop
  | .guestWrite address data => ∀ f ∈ linkFields arch t,
      address + data.length ≤ f ∨ f + arch.ptrSize ≤ address
  | _ => True

/-- The walk over the devices in guest memory, for at most `fuel` links. -/
def walkDevices (arch : Arch) (m : ByteMemory) : Nat → Nat → Option (List Nat)
  | 0, _ => none
  | fuel + 1, a =>
    if a = 0 then some []
    else (walkDevices arch m fuel (m.readInt (a + nextDeviceField arch) arch.ptrSize)).map (a :: ·)

/-- A device points back to the driver, and its extension is 0 or lies after it in its allocation. -/
structure DeviceSound (arch : Arch) (s : DriverState ε) (d : Nat × Nat) : Prop where
  driver : s.guest.bytes.readInt (d.1 + driverObjectField) arch.ptrSize = s.drvAddress
  extension : s.guest.bytes.readInt (d.1 + deviceExtensionField arch) arch.ptrSize =
    if d.2 = 0 then 0 else d.1 + sizeofDevice arch
  inside : ∃ mm ∈ s.guest.mgr.maps, mm.base = d.1 ∧ sizeofDevice arch + d.2 ≤ mm.size

/-- The walk from the driver visits every device that was created for it, once, and ends. -/
structure ListSound (arch : Arch) (t : Session ε) : Prop where
  walk : walkDevices arch t.state.guest.bytes (t.created.length + 1)
    (t.state.guest.bytes.readInt (t.state.drvAddress + deviceObjectField arch) arch.ptrSize) =
      some (t.created.map Prod.fst)
  nodup : (t.created.map Prod.fst).Nodup
  devices : ∀ d ∈ t.created, DeviceSound arch t.state d

/-- No call raises, and the list is sound after each. -/
structure StepLaw (arch : Arch) (env : MemEnv) (t : Session ε) (op : DeviceOp) : Prop where
  returns : ∀ name extSize devtype chars tag, op = .createDevice name extSize devtype chars tag →
    ∃ address, (t.state.createDeviceObject arch env name extSize devtype chars tag).1 = .ok address
  list : ListSound arch (t.step arch env op)

/-- A device is created for a driver with at most one, and there is memory for it and its file object. -/
def Good (arch : Arch) (env : MemEnv) (t : Session ε) : DeviceOp → Prop
  | .createDevice name extSize _ _ tag => t.created.length < 2 ∧
      let names := deviceName name tag t.state.kernelObjectId
      let device := memMap env t.state.guest.mgr (deviceArgs arch extSize names.2)
      (∃ address, device.1 = .ok address) ∧ ∃ address, (memMap env device.2 (fileArgs arch)).1 = .ok address
  | _ => True

section Fields

variable {arch : Arch} {object : List UInt8} {offset width value : Nat}

theorem setPointer_length (h : offset + width ≤ object.length) :
    (setPointer width offset value object).length = object.length := by
  unfold setPointer
  simp only [List.length_append, List.length_take, List.length_drop, toBytes_length]
  omega

theorem getField_setPointer (h : offset + width ≤ object.length) :
    getField offset width (setPointer width offset value object) = value % 256 ^ width := by
  have htake : (object.take offset).length = offset := by
    rw [List.length_take]
    omega
  unfold getField setPointer
  rw [List.append_assoc, List.drop_left' htake, List.take_left' (toBytes_length _ _), fromBytes_toBytes]

/-- A field that does not overlap the one that is set stays. -/
theorem getField_setPointer_apart {offset' width' : Nat} (h : offset + width ≤ object.length)
    (happart : offset + width ≤ offset' ∨ offset' + width' ≤ offset) :
    getField offset' width' (setPointer width offset value object) = getField offset' width' object := by
  have htake : (object.take offset).length = offset := by
    rw [List.length_take]
    omega
  have hmid : (object.take offset ++ toBytes width value).length = offset + width := by
    rw [List.length_append, toBytes_length, htake]
  unfold getField setPointer
  rcases happart with hafter | hbefore
  · obtain ⟨k, rfl⟩ := Nat.exists_eq_add_of_le hafter
    rw [List.drop_append, List.drop_of_length_le (by omega), List.nil_append, hmid,
      Nat.add_sub_cancel_left, List.drop_drop]
  · rw [List.append_assoc, List.drop_append_of_le_length (by omega), List.take_append_of_le_length
      (by rw [List.length_drop]; omega), List.drop_take, List.take_take, Nat.min_eq_left (by omega)]

theorem getField_readBytes {m : ByteMemory} {a count : Nat} (h : offset + width ≤ count) :
    getField offset width (m.readBytes a count) = m.readInt (a + offset) width := by
  have hbytes : ((m.readBytes a count).drop offset).take width = m.readBytes (a + offset) width := by
    apply List.ext_getElem
    · simp
      omega
    · intro i hi _
      simp [ByteMemory.readBytes, Nat.add_assoc]
  rw [getField, hbytes, ByteMemory.readInt]

theorem readInt_writeBytes_field {m : ByteMemory} {a : Nat} (h : offset + width ≤ object.length) :
    (m.writeBytes a object).readInt (a + offset) width = getField offset width object := by
  rw [ByteMemory.readInt, ByteMemory.readBytes_writeBytes h, getField]

theorem readInt_writeBytes_apart {m : ByteMemory} {a b : Nat}
    (h : b + width ≤ a ∨ a + object.length ≤ b) :
    (m.writeBytes a object).readInt b width = m.readInt b width := by
  rw [ByteMemory.readInt, ByteMemory.readBytes_writeBytes_of_apart h, ByteMemory.readInt]

theorem newDevice_length (arch : Arch) : (newDevice arch).length = sizeofDevice arch := by
  cases arch <;> decide +kernel

theorem newDevice_fields (arch : Arch) :
    getField (nextDeviceField arch) arch.ptrSize (newDevice arch) = 0 ∧
      getField (deviceExtensionField arch) arch.ptrSize (newDevice arch) = 0 := by
  cases arch <;> decide

/-- The fields of a device lie in it, one after the other. -/
theorem device_layout (arch : Arch) :
    driverObjectField + arch.ptrSize ≤ nextDeviceField arch ∧
      nextDeviceField arch + arch.ptrSize ≤ characteristicsField arch ∧
      characteristicsField arch + 4 ≤ deviceExtensionField arch ∧
      deviceExtensionField arch + arch.ptrSize ≤ deviceTypeField arch ∧
      deviceTypeField arch + 4 ≤ sizeofDevice arch := by
  cases arch <;> decide

theorem driver_layout (arch : Arch) : deviceObjectField arch + arch.ptrSize ≤ sizeofDriver arch := by
  cases arch <;> decide

end Fields

section Walk

variable {arch : Arch} {m m' : ByteMemory}

/-- The links from an address go through a list of devices and end in 0. -/
def LinksFrom (arch : Arch) (m : ByteMemory) : Nat → List Nat → Prop
  | a, [] => a = 0
  | a, x :: xs => a = x ∧ x ≠ 0 ∧ LinksFrom arch m (m.readInt (x + nextDeviceField arch) arch.ptrSize) xs

theorem walkDevices_eq {a : Nat} {xs : List Nat} (h : LinksFrom arch m a xs) :
    walkDevices arch m (xs.length + 1) a = some xs := by
  induction xs generalizing a with
  | nil =>
    have ha : a = 0 := h
    rw [ha]
    rfl
  | cons x xs ih =>
    obtain ⟨rfl, hne, hrest⟩ := h
    rw [List.length_cons, walkDevices, if_neg hne, ih hrest]
    rfl

theorem LinksFrom.congr {a : Nat} {xs : List Nat} (h : LinksFrom arch m a xs)
    (hsame : ∀ x ∈ xs, m'.readInt (x + nextDeviceField arch) arch.ptrSize =
      m.readInt (x + nextDeviceField arch) arch.ptrSize) : LinksFrom arch m' a xs := by
  induction xs generalizing a with
  | nil => exact h
  | cons x xs ih =>
    obtain ⟨rfl, hne, hrest⟩ := h
    refine ⟨rfl, hne, ?_⟩
    rw [hsame a List.mem_cons_self]
    exact ih hrest fun y hy => hsame y (List.mem_cons_of_mem _ hy)

end Walk

section Invariant

variable {arch : Arch} {env : MemEnv} {outside : Nat → Prop} {limit : Nat}

/-- An allocation at an address has room for some bytes. -/
def Allocated (mgr : MemoryManager ε) (a n : Nat) : Prop := ∃ mm ∈ mgr.maps, mm.base = a ∧ n ≤ mm.size

/-- The object manager has the device with its links, and the memory has them too. -/
structure DeviceKnown (arch : Arch) (s : DriverState ε) (d : Nat × Nat) : Prop where
  sound : DeviceSound arch s d
  known : ∃ o, getObjectFromAddr s.objects d.1 = some o ∧ o.object.length = sizeofDevice arch ∧
    getField driverObjectField arch.ptrSize o.object = s.drvAddress ∧
    getField (deviceExtensionField arch) arch.ptrSize o.object =
      (if d.2 = 0 then 0 else d.1 + sizeofDevice arch) ∧
    getField (nextDeviceField arch) arch.ptrSize o.object =
      s.guest.bytes.readInt (d.1 + nextDeviceField arch) arch.ptrSize

/-- The state of a driver with at most two devices. -/
structure Inv (arch : Arch) (outside : Nat → Prop) (limit : Nat) (t : Session ε) : Prop where
  mgr : t.state.guest.mgr.Inv outside
  below : t.state.guest.mgr.Below limit
  few : t.created.length ≤ 2
  driver : Allocated t.state.guest.mgr t.state.drvAddress (sizeofDriver arch)
  driverLt : t.state.drvAddress < 256 ^ arch.ptrSize
  devicesLt : ∀ d ∈ t.created, d.1 + sizeofDevice arch + d.2 ≤ limit
  distinct : (t.state.drvAddress :: t.created.map Prod.fst).Nodup
  objects : ∀ o ∈ t.state.objects, ∃ n, Allocated t.state.guest.mgr o.address n
  links : LinksFrom arch t.state.guest.bytes
    (t.state.guest.bytes.readInt (t.state.drvAddress + deviceObjectField arch) arch.ptrSize)
    (t.created.map Prod.fst)
  known : ∀ d ∈ t.created, DeviceKnown arch t.state d

theorem Inv.listSound {t : Session ε} (h : Inv arch outside limit t) : ListSound arch t where
  walk := by
    have hwalk := walkDevices_eq h.links
    rwa [List.length_map] at hwalk
  nodup := (List.nodup_cons.mp h.distinct).2
  devices d hd := (h.known d hd).sound

variable [LawfulPageEngine ε]

omit [LawfulPageEngine ε] in
theorem Allocated.rangeMapped {g : GuestMemory ε} (hi : g.mgr.Inv outside) {a n : Nat}
    (h : Allocated g.mgr a n) : g.RangeMapped a n := by
  obtain ⟨mm, hmm, rfl, hle⟩ := h
  intro i hlt
  refine hi.covers_mapped hmm ?_
  unfold MemMap.Covers
  omega

omit [LawfulPageEngine ε] in
/-- Allocations with different addresses do not overlap. -/
theorem Allocated.apart {mgr : MemoryManager ε} (hi : mgr.Inv outside) {a n b k : Nat}
    (ha : Allocated mgr a n) (hb : Allocated mgr b k) (hne : a ≠ b) : a + n ≤ b ∨ b + k ≤ a := by
  obtain ⟨mm, hmm, rfl, hn⟩ := ha
  obtain ⟨nn, hnn, rfl, hk⟩ := hb
  have := hi.apart_of_base_ne hmm hnn hne
  omega

/-- An allocation keeps the others, and a new one is at another address. -/
theorem memMap_allocated {mgr mgr' : MemoryManager ε} (hi : mgr.Inv outside) (he : env.Limited limit)
    (hb : mgr.Below limit) {a : MapArgs} (ha : a.base = none) {base : Nat}
    (h : memMap env mgr a = (.ok base, mgr')) :
    mgr'.Inv outside ∧ mgr'.Below limit ∧ Allocated mgr' base a.size ∧ 0 < base ∧
      base + a.size ≤ limit ∧ (∀ b n, Allocated mgr b n → Allocated mgr' b n ∧ b ≠ base) := by
  have hinv : (memMap env mgr a).2.Inv outside := memMap_inv hi a
  have hbelow : (memMap env mgr a).2.Below limit := memMap_below he hb a
  rw [h] at hinv hbelow
  obtain ⟨⟨mm, hmaps, hbase, hsize⟩, hpos, hlimit⟩ := memMap_ok hi he hb ha h
  have hdistinct : (mgr.maps ++ [mm]).Pairwise fun m n => m.base ≠ n.base := hmaps ▸ hinv.bases_distinct
  refine ⟨hinv, hbelow, ⟨mm, ?_, hbase, hsize⟩, hpos, hlimit, fun b n hbn => ?_⟩
  · rw [hmaps]
    exact List.mem_append_right _ List.mem_cons_self
  · obtain ⟨nn, hnn, rfl, hle⟩ := hbn
    refine ⟨⟨nn, ?_, rfl, hle⟩, ?_⟩
    · rw [hmaps]
      exact List.mem_append_left _ hnn
    · rw [← hbase]
      exact (List.pairwise_append.mp hdistinct).2.2 nn hnn mm List.mem_cons_self

end Invariant

section Attach

variable {arch : Arch} {s : DriverState ε} {objects : List DeviceObject} {a b : Nat}

theorem getObject_address {o : DeviceObject} (h : getObjectFromAddr objects a = some o) : o.address = a :=
  by simpa using List.find?_some h

theorem getObject_append (objects : List DeviceObject) (dev : DeviceObject) (a : Nat) :
    getObjectFromAddr (objects ++ [dev]) a =
      (getObjectFromAddr objects a).or (if dev.address = a then some dev else none) := by
  unfold getObjectFromAddr
  rw [List.find?_append]
  congr 1
  by_cases h : dev.address = a <;> simp [h]

theorem getObject_setObject (objects : List DeviceObject) (b : Nat) (object : List UInt8) (a : Nat) :
    getObjectFromAddr (setObject objects b object) a =
      (getObjectFromAddr objects a).map fun o => if a = b then { o with object := object } else o := by
  unfold getObjectFromAddr setObject
  rw [List.find?_map]
  have hpred : ((fun o : DeviceObject => decide (o.address = a)) ∘ fun o =>
      if o.address = b then { o with object := object } else o) = fun o => decide (o.address = a) := by
    funext o
    simp only [Function.comp_apply]
    split <;> rfl
  rw [hpred]
  cases h : objects.find? fun o => decide (o.address = a) with
  | none => rfl
  | some o =>
    have haddr : o.address = a := by simpa using List.find?_some h
    simp only [Option.map_some, haddr]

theorem setObject_addresses (objects : List DeviceObject) (b : Nat) (object : List UInt8) :
    (setObject objects b object).map DeviceObject.address = objects.map DeviceObject.address := by
  unfold setObject
  rw [List.map_map]
  refine List.map_congr_left fun o _ => ?_
  simp only [Function.comp_apply]
  split <;> rfl

theorem getObject_none (h : a ∉ objects.map DeviceObject.address) : getObjectFromAddr objects a = none := by
  refine List.find?_eq_none.mpr fun o ho => ?_
  simp only [decide_eq_true_eq]
  exact fun heq => h (heq ▸ List.mem_map_of_mem ho)

/-- The objects of `finishObject` before its last field. -/
theorem typedObject_length {object : List UInt8} (h : object.length = sizeofDevice arch) (devtype chars : Nat) :
    (setPointer 4 (characteristicsField arch) chars object).length = object.length ∧
      (setPointer 4 (deviceTypeField arch) devtype (setPointer 4 (characteristicsField arch) chars object)).length =
        (setPointer 4 (characteristicsField arch) chars object).length := by
  obtain ⟨h1, h2, h3, h4, h5⟩ := device_layout arch
  have hchars : (setPointer 4 (characteristicsField arch) chars object).length = object.length :=
    setPointer_length (by omega)
  exact ⟨hchars, setPointer_length (by omega)⟩

theorem finishObject_length (address extSize devtype chars : Nat) {object : List UInt8}
    (h : object.length = sizeofDevice arch) :
    (finishObject arch address extSize devtype chars object).length = sizeofDevice arch := by
  obtain ⟨h1, h2, h3, h4, h5⟩ := device_layout arch
  obtain ⟨hchars, htype⟩ := typedObject_length h devtype chars
  unfold finishObject
  simp only
  split
  · rw [setPointer_length (by omega), htype, hchars, h]
  · rw [htype, hchars, h]

/-- The last fields leave the links of a device. -/
theorem finishObject_links (address extSize devtype chars : Nat) {object : List UInt8}
    (h : object.length = sizeofDevice arch) {offset : Nat}
    (hoff : offset + arch.ptrSize ≤ characteristicsField arch) :
    getField offset arch.ptrSize (finishObject arch address extSize devtype chars object) =
      getField offset arch.ptrSize object := by
  obtain ⟨h1, h2, h3, h4, h5⟩ := device_layout arch
  obtain ⟨hchars, htype⟩ := typedObject_length h devtype chars
  have hpair : getField offset arch.ptrSize (setPointer 4 (deviceTypeField arch) devtype
      (setPointer 4 (characteristicsField arch) chars object)) = getField offset arch.ptrSize object := by
    rw [getField_setPointer_apart (by omega) (by omega), getField_setPointer_apart (by omega) (by omega)]
  unfold finishObject
  simp only
  split
  · rw [getField_setPointer_apart (by omega) (by omega), hpair]
  · exact hpair

theorem finishObject_extension {address extSize : Nat} (devtype chars : Nat) {object : List UInt8}
    (h : object.length = sizeofDevice arch)
    (hzero : getField (deviceExtensionField arch) arch.ptrSize object = 0)
    (hlt : 0 < extSize → address + sizeofDevice arch < 256 ^ arch.ptrSize) :
    getField (deviceExtensionField arch) arch.ptrSize
        (finishObject arch address extSize devtype chars object) =
      if extSize = 0 then 0 else address + sizeofDevice arch := by
  obtain ⟨h1, h2, h3, h4, h5⟩ := device_layout arch
  obtain ⟨hchars, htype⟩ := typedObject_length h devtype chars
  unfold finishObject
  simp only
  split
  next hpos =>
    rw [getField_setPointer (by omega), Nat.mod_eq_of_lt (hlt hpos), if_neg (by omega)]
  next hnone =>
    rw [getField_setPointer_apart (by omega) (by omega), getField_setPointer_apart (by omega) (by omega),
      hzero, if_pos (by omega)]

/-- A new device before it is linked. -/
def startObject (arch : Arch) (drv : Nat) : List UInt8 :=
  setPointer arch.ptrSize driverObjectField drv (newDevice arch)

theorem startObject_fields {drv : Nat} (hdrv : drv < 256 ^ arch.ptrSize) :
    (startObject arch drv).length = sizeofDevice arch ∧
      getField driverObjectField arch.ptrSize (startObject arch drv) = drv ∧
      getField (nextDeviceField arch) arch.ptrSize (startObject arch drv) = 0 ∧
      getField (deviceExtensionField arch) arch.ptrSize (startObject arch drv) = 0 := by
  obtain ⟨h1, h2, h3, h4, h5⟩ := device_layout arch
  have hlen := newDevice_length arch
  obtain ⟨hnext, hext⟩ := newDevice_fields arch
  unfold startObject
  refine ⟨?_, ?_, ?_, ?_⟩
  · rw [setPointer_length (by omega), hlen]
  · rw [getField_setPointer (by omega), Nat.mod_eq_of_lt hdrv]
  · rw [getField_setPointer_apart (by omega) (by omega), hnext]
  · rw [getField_setPointer_apart (by omega) (by omega), hext]

/-- The fields of a finished device. -/
theorem finished_fields {drv address extSize : Nat} (devtype chars : Nat) (hdrv : drv < 256 ^ arch.ptrSize)
    (hlt : 0 < extSize → address + sizeofDevice arch < 256 ^ arch.ptrSize) :
    (finishObject arch address extSize devtype chars (startObject arch drv)).length = sizeofDevice arch ∧
      getField driverObjectField arch.ptrSize
        (finishObject arch address extSize devtype chars (startObject arch drv)) = drv ∧
      getField (nextDeviceField arch) arch.ptrSize
        (finishObject arch address extSize devtype chars (startObject arch drv)) = 0 ∧
      getField (deviceExtensionField arch) arch.ptrSize
        (finishObject arch address extSize devtype chars (startObject arch drv)) =
          if extSize = 0 then 0 else address + sizeofDevice arch := by
  obtain ⟨h1, h2, h3, h4, h5⟩ := device_layout arch
  obtain ⟨hlen, hdriver, hnext, hext⟩ := startObject_fields hdrv
  refine ⟨finishObject_length address extSize devtype chars hlen, ?_, ?_,
    finishObject_extension devtype chars hlen hext hlt⟩
  · rw [finishObject_links address extSize devtype chars hlen (by omega), hdriver]
  · rw [finishObject_links address extSize devtype chars hlen (by omega), hnext]

theorem addObject_new (h : a ∉ objects.map DeviceObject.address) (name : PyStr) (object : List UInt8) :
    addObject objects ⟨a, name, object⟩ = objects ++ [⟨a, name, object⟩] := by
  unfold addObject
  rw [getObject_none h]
  exact if_neg (by simp)

/-- A device that was added is found, and the ones before it too. -/
theorem getObject_added (h : a ∉ objects.map DeviceObject.address) (name : PyStr) (object : List UInt8) :
    getObjectFromAddr (objects ++ [⟨a, name, object⟩]) a = some ⟨a, name, object⟩ := by
  rw [getObject_append, getObject_none h]
  simp

theorem getObject_before {o : DeviceObject} (h : getObjectFromAddr objects b = some o) (dev : DeviceObject) :
    getObjectFromAddr (objects ++ [dev]) b = some o := by
  rw [getObject_append, h]
  rfl

end Attach

end DriverState

end Speakeasy
