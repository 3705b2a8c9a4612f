import Speakeasy.DeviceList

namespace Speakeasy

open PageEngine MemoryManager

namespace DriverState

variable {ε : Type} [PageEngine ε]

section Steps

variable {arch : Arch} {env : MemEnv} {outside : Nat → Prop} {limit : Nat} {t : Session ε}

/-- The invariant when the memory manager has more allocations. -/
theorem Inv.grow (h : Inv arch outside limit t) {mgr : MemoryManager ε} (hi : mgr.Inv outside)
    (hb : mgr.Below limit) (hkeep : ∀ b n, Allocated t.state.guest.mgr b n → Allocated mgr b n)
    (id : Nat) :
    Inv arch outside limit ⟨{ t.state with guest := { t.state.guest with mgr := mgr }, kernelObjectId := id },
      t.created⟩ where
  mgr := hi
  below := hb
  few := h.few
  driver := hkeep _ _ h.driver
  driverLt := h.driverLt
  devicesLt := h.devicesLt
  distinct := h.distinct
  objects o ho := (h.objects o ho).imp fun _ hn => hkeep _ _ hn
  links := h.links
  known d hd :=
    ⟨⟨(h.known d hd).sound.driver, (h.known d hd).sound.extension, hkeep _ _ (h.known d hd).sound.inside⟩,
      (h.known d hd).known⟩

/-- A device that was allocated for the driver, and is not linked yet. -/
structure Fresh (arch : Arch) (limit : Nat) (t : Session ε) (address extSize : Nat) : Prop where
  allocated : Allocated t.state.guest.mgr address (extSize + sizeofDevice arch)
  other : address ∉ t.state.drvAddress :: t.created.map Prod.fst
  unknown : address ∉ t.state.objects.map DeviceObject.address
  pos : 0 < address
  le : address + (extSize + sizeofDevice arch) ≤ limit

theorem Inv.memRead_driver (h : Inv arch outside limit t) :
    t.state.guest.memRead t.state.drvAddress (sizeofDriver arch) =
      .ok (t.state.guest.bytes.readBytes t.state.drvAddress (sizeofDriver arch)) :=
  if_pos (h.driver.rangeMapped h.mgr)

/-- The guest after a write. -/
def written (g : GuestMemory ε) (a : Nat) (data : List UInt8) : GuestMemory ε :=
  ⟨g.mgr, g.bytes.writeBytes a data⟩

theorem memWrite_ok {g : GuestMemory ε} {mgr : MemoryManager ε} (hmgr : g.mgr = mgr) (hi : mgr.Inv outside)
    {a n : Nat} (data : List UInt8) (ha : Allocated mgr a n) (hn : data.length ≤ n) :
    g.memWrite a data = .ok (written g a data) := by
  subst hmgr
  exact if_pos fun i hlt => ha.rangeMapped hi i (by omega)

/-- The bytes of the driver that points to a device. -/
def driverBytes (arch : Arch) (s : DriverState ε) (address : Nat) : List UInt8 :=
  setPointer arch.ptrSize (deviceObjectField arch) address
    (s.guest.bytes.readBytes s.drvAddress (sizeofDriver arch))

omit [PageEngine ε] in
theorem driverBytes_spec (arch : Arch) (s : DriverState ε) {address : Nat} (h : address < 256 ^ arch.ptrSize) :
    (driverBytes arch s address).length = sizeofDriver arch ∧
      getField (deviceObjectField arch) arch.ptrSize (driverBytes arch s address) = address := by
  have hlayout := driver_layout arch
  have hlen : deviceObjectField arch + arch.ptrSize ≤
      (s.guest.bytes.readBytes s.drvAddress (sizeofDriver arch)).length := by
    rw [ByteMemory.readBytes_length]
    exact hlayout
  refine ⟨?_, ?_⟩
  · rw [driverBytes, setPointer_length hlen, ByteMemory.readBytes_length]
  · rw [driverBytes, getField_setPointer hlen, Nat.mod_eq_of_lt h]

/-- The first device of a driver: the driver points to it. -/
theorem Inv.linkDevice_first (h : Inv arch outside limit t) (hnil : t.created = []) {address : Nat}
    (hlt : address < 256 ^ arch.ptrSize) (objects : List DeviceObject) :
    linkDevice arch { t.state with objects := objects } address =
      .ok { t.state with
        guest := written t.state.guest t.state.drvAddress (driverBytes arch t.state address)
        drvObject := driverBytes arch t.state address
        objects := objects } := by
  have hread := h.memRead_driver
  have hlinks := h.links
  rw [hnil] at hlinks
  have hzero : getField (deviceObjectField arch) arch.ptrSize
      (t.state.guest.bytes.readBytes t.state.drvAddress (sizeofDriver arch)) = 0 :=
    (getField_readBytes (driver_layout arch)).trans hlinks
  have hlen : (driverBytes arch t.state address).length ≤ sizeofDriver arch :=
    (driverBytes_spec arch t.state hlt).1.le
  have hwrite := memWrite_ok (g := t.state.guest) rfl h.mgr (driverBytes arch t.state address) h.driver hlen
  unfold linkDevice
  simp only [hread, hzero, if_true]
  unfold driverBytes at hwrite ⊢
  rw [hwrite]

/-- The second device: the first one points to it. -/
theorem Inv.linkDevice_second (h : Inv arch outside limit t) {d : Nat × Nat} (hone : t.created = [d])
    (address : Nat) {o : DeviceObject} {objects : List DeviceObject}
    (ho : getObjectFromAddr objects d.1 = some o) (hlen : o.object.length = sizeofDevice arch)
    (hnext : getField (nextDeviceField arch) arch.ptrSize o.object = 0) :
    linkDevice arch { t.state with objects := objects } address =
      .ok { t.state with
        guest := written t.state.guest d.1 (setPointer arch.ptrSize (nextDeviceField arch) address o.object)
        drvObject := t.state.guest.bytes.readBytes t.state.drvAddress (sizeofDriver arch)
        objects := setObject objects d.1
          (setPointer arch.ptrSize (nextDeviceField arch) address o.object) } := by
  obtain ⟨h1, h2, h3, h4, h5⟩ := device_layout arch
  have hread := h.memRead_driver
  have hlinks := h.links
  rw [hone] at hlinks
  have hd : d ∈ t.created := by
    rw [hone]
    exact List.mem_cons_self
  have hfirst : getField (deviceObjectField arch) arch.ptrSize
      (t.state.guest.bytes.readBytes t.state.drvAddress (sizeofDriver arch)) = d.1 :=
    (getField_readBytes (driver_layout arch)).trans hlinks.1
  have halloc : Allocated t.state.guest.mgr d.1 (sizeofDevice arch + d.2) := (h.known d hd).sound.inside
  have hwrite := memWrite_ok (g := t.state.guest) rfl h.mgr
    (setPointer arch.ptrSize (nextDeviceField arch) address o.object) halloc
    (by rw [setPointer_length (by omega)]; omega)
  have haddr := getObject_address ho
  unfold linkDevice linkAfter
  simp only [hread, hfirst, if_neg hlinks.2.1, ho, hnext, ne_eq, not_true_eq_false, if_false, haddr, hwrite]

/-- The third device: the first one has a next device, and the loop asks the driver for one. -/
theorem Inv.linkDevice_third (h : Inv arch outside limit t) {d : Nat × Nat} {ds : List (Nat × Nat)}
    (hmany : t.created = d :: ds) (address : Nat) {o : DeviceObject} {objects : List DeviceObject}
    (ho : getObjectFromAddr objects d.1 = some o)
    (hnext : getField (nextDeviceField arch) arch.ptrSize o.object ≠ 0) :
    linkDevice arch { t.state with objects := objects } address = .error .attributeError := by
  have hread := h.memRead_driver
  have hlinks := h.links
  rw [hmany] at hlinks
  have hfirst : getField (deviceObjectField arch) arch.ptrSize
      (t.state.guest.bytes.readBytes t.state.drvAddress (sizeofDriver arch)) = d.1 :=
    (getField_readBytes (driver_layout arch)).trans hlinks.1
  unfold linkDevice linkAfter
  simp only [hread, hfirst, if_neg hlinks.2.1, ho, if_pos hnext]

/-- The bytes of a device when its call returns. -/
def finalBytes (arch : Arch) (s : DriverState ε) (address extSize devtype chars : Nat) : List UInt8 :=
  finishObject arch address extSize devtype chars (startObject arch s.drvAddress)

variable {address extSize devtype chars : Nat} {name : PyStr}

omit [PageEngine ε] in
theorem Fresh.lt (hf : Fresh arch limit t address extSize) (hlimit : limit ≤ 256 ^ arch.ptrSize) :
    address + sizeofDevice arch ≤ 256 ^ arch.ptrSize ∧ address < 256 ^ arch.ptrSize ∧
      (0 < extSize → address + sizeofDevice arch < 256 ^ arch.ptrSize) := by
  have hle := hf.le
  have hpos : 0 < sizeofDevice arch := by cases arch <;> decide
  omega

/-- The state when a call returns: the device is known, and its bytes are written. -/
def returned (arch : Arch) (s : DriverState ε) (g : GuestMemory ε) (objects : List DeviceObject)
    (drvObject : List UInt8) (address extSize devtype chars : Nat) : DriverState ε :=
  let object := finalBytes arch s address extSize devtype chars
  { s with
    guest := written g address object
    objects := setObject objects address object
    drvObject := drvObject
    devices := s.devices ++ [address] }

/-- A call that links the device returns. -/
theorem Inv.attach_ok (h : Inv arch outside limit t) (hf : Fresh arch limit t address extSize)
    (hlimit : limit ≤ 256 ^ arch.ptrSize) {bytes : ByteMemory} {objects : List DeviceObject}
    {drvObject : List UInt8} {o : DeviceObject}
    (ho : getObjectFromAddr objects address = some o) (hobject : o.object = startObject arch t.state.drvAddress)
    (hlink : linkDevice arch { t.state with objects := t.state.objects ++
        [⟨address, name, startObject arch t.state.drvAddress⟩] } address =
      .ok { t.state with
        guest := ⟨t.state.guest.mgr, bytes⟩
        drvObject := drvObject
        objects := objects }) :
    attachDevice arch t.state address name extSize devtype chars =
      (.ok address, returned arch t.state ⟨t.state.guest.mgr, bytes⟩ objects drvObject address extSize
        devtype chars) := by
  have hfinal := (finished_fields devtype chars h.driverLt (hf.lt hlimit).2.2).1
  have hwrite := memWrite_ok (g := ⟨t.state.guest.mgr, bytes⟩) rfl h.mgr
    (finalBytes arch t.state address extSize devtype chars) hf.allocated (by
      unfold finalBytes
      omega)
  have hadd := addObject_new hf.unknown name (startObject arch t.state.drvAddress)
  unfold startObject at hadd hobject hlink
  unfold attachDevice
  simp only [hadd, hlink, ho, Option.map_some, Option.getD_some, hobject]
  unfold finalBytes startObject at hwrite
  simp only [hwrite]
  rfl

/-- The device that a call returns is known. -/
theorem Inv.returned_known (h : Inv arch outside limit t) (hf : Fresh arch limit t address extSize)
    (hlimit : limit ≤ 256 ^ arch.ptrSize) (devtype chars : Nat) (bytes : ByteMemory) {objects : List DeviceObject}
    (drvObject : List UInt8) {o : DeviceObject} (ho : getObjectFromAddr objects address = some o) :
    DeviceKnown arch (returned arch t.state ⟨t.state.guest.mgr, bytes⟩ objects drvObject address extSize
        devtype chars) (address, extSize) ∧
      (returned arch t.state ⟨t.state.guest.mgr, bytes⟩ objects drvObject address extSize devtype
        chars).guest.bytes.readInt (address + nextDeviceField arch) arch.ptrSize = 0 := by
  obtain ⟨h1, h2, h3, h4, h5⟩ := device_layout arch
  obtain ⟨hlen, hdriver, hnext, hext⟩ := finished_fields devtype chars h.driverLt (hf.lt hlimit).2.2
  have hread : ∀ offset, offset + arch.ptrSize ≤ sizeofDevice arch →
      (bytes.writeBytes address (finalBytes arch t.state address extSize devtype chars)).readInt
        (address + offset) arch.ptrSize =
      getField offset arch.ptrSize (finalBytes arch t.state address extSize devtype chars) := by
    intro offset hoff
    refine readInt_writeBytes_field ?_
    unfold finalBytes
    omega
  have hfound : getObjectFromAddr (setObject objects address
      (finalBytes arch t.state address extSize devtype chars)) address =
        some { o with object := finalBytes arch t.state address extSize devtype chars } := by
    rw [getObject_setObject, ho]
    simp
  have hzero := (hread (nextDeviceField arch) (by omega)).trans hnext
  have halloc : Allocated t.state.guest.mgr address (sizeofDevice arch + extSize) := by
    rw [Nat.add_comm]
    exact hf.allocated
  refine ⟨⟨⟨(hread driverObjectField (by omega)).trans hdriver,
    (hread (deviceExtensionField arch) (by omega)).trans hext, halloc⟩, _, hfound, hlen, hdriver, hext, ?_⟩,
    hzero⟩
  exact hnext.trans hzero.symm

/-- The objects are in allocations, also the new one. -/
theorem Inv.set_objects (h : Inv arch outside limit t) (hf : Fresh arch limit t address extSize)
    {objects : List DeviceObject} (object : List UInt8)
    (hobjects : objects.map DeviceObject.address = t.state.objects.map DeviceObject.address ++ [address]) :
    ∀ o ∈ setObject objects address object, ∃ n, Allocated t.state.guest.mgr o.address n := by
  intro o ho
  have hmem : o.address ∈ (setObject objects address object).map DeviceObject.address :=
    List.mem_map_of_mem ho
  rw [setObject_addresses, hobjects] at hmem
  rcases List.mem_append.mp hmem with hold | hnew
  · obtain ⟨o', ho', heq⟩ := List.mem_map.mp hold
    exact heq ▸ h.objects o' ho'
  · rw [List.mem_singleton.mp hnew]
    exact ⟨_, hf.allocated⟩

theorem Inv.attach_first (h : Inv arch outside limit t) (hnil : t.created = [])
    (hf : Fresh arch limit t address extSize) (hlimit : limit ≤ 256 ^ arch.ptrSize) :
    ∃ s, attachDevice arch t.state address name extSize devtype chars = (.ok address, s) ∧
      Inv arch outside limit ⟨s, t.created ++ [(address, extSize)]⟩ := by
  obtain ⟨hend, hlt, -⟩ := hf.lt hlimit
  have hlink := h.linkDevice_first hnil hlt
    (t.state.objects ++ [⟨address, name, startObject arch t.state.drvAddress⟩])
  have ho := getObject_added hf.unknown name (startObject arch t.state.drvAddress)
  refine ⟨_, h.attach_ok hf hlimit ho rfl hlink, ?_⟩
  obtain ⟨hknown, hnext⟩ := h.returned_known hf hlimit devtype chars
    (t.state.guest.bytes.writeBytes t.state.drvAddress (driverBytes arch t.state address))
    (driverBytes arch t.state address) ho
  obtain ⟨hdlen, hdfield⟩ := driverBytes_spec arch t.state hlt
  have hne : t.state.drvAddress ≠ address := fun heq => hf.other (heq ▸ List.mem_cons_self)
  have happart := h.driver.apart h.mgr hf.allocated hne
  have hlayout := driver_layout arch
  have hlen := (finished_fields devtype chars h.driverLt (hf.lt hlimit).2.2).1
  have hhead : ((t.state.guest.bytes.writeBytes t.state.drvAddress (driverBytes arch t.state address)).writeBytes
      address (finalBytes arch t.state address extSize devtype chars)).readInt
        (t.state.drvAddress + deviceObjectField arch) arch.ptrSize = address := by
    unfold finalBytes
    rw [readInt_writeBytes_apart (by omega), readInt_writeBytes_field (by omega), hdfield]
  exact
    { mgr := h.mgr
      below := h.below
      few := by
        rw [hnil]
        exact Nat.le_succ 1
      driver := h.driver
      driverLt := h.driverLt
      devicesLt := by
        intro d hd
        rw [hnil] at hd
        rw [List.mem_singleton.mp hd]
        have := hf.le
        omega
      distinct := by
        rw [hnil]
        exact List.nodup_cons.mpr ⟨fun hin => hne (List.mem_singleton.mp hin), List.nodup_singleton address⟩
      objects := h.set_objects hf _ (by simp)
      links := by
        rw [hnil]
        exact ⟨hhead, Nat.ne_of_gt hf.pos, hnext⟩
      known := by
        intro d hd
        rw [hnil] at hd
        rw [List.mem_singleton.mp hd]
        exact hknown }

theorem Inv.attach_second (h : Inv arch outside limit t) {d : Nat × Nat} (hone : t.created = [d])
    (hf : Fresh arch limit t address extSize) (hlimit : limit ≤ 256 ^ arch.ptrSize) :
    ∃ s, attachDevice arch t.state address name extSize devtype chars = (.ok address, s) ∧
      Inv arch outside limit ⟨s, t.created ++ [(address, extSize)]⟩ := by
  obtain ⟨h1, h2, h3, h4, h5⟩ := device_layout arch
  obtain ⟨hend, hlt, -⟩ := hf.lt hlimit
  have hd : d ∈ t.created := by
    rw [hone]
    exact List.mem_cons_self
  obtain ⟨hsound, o, hfound, holen, hodriver, hoext, honext⟩ := h.known d hd
  have hlinks := h.links
  have hdistinct := h.distinct
  have hother := hf.other
  rw [hone] at hlinks hdistinct hother
  have hnextZero : getField (nextDeviceField arch) arch.ptrSize o.object = 0 := honext.trans hlinks.2.2
  have hbefore := getObject_before hfound ⟨address, name, startObject arch t.state.drvAddress⟩
  have hlink := h.linkDevice_second hone address hbefore holen hnextZero
  have hne : address ≠ d.1 := fun heq => hother (by simp [heq])
  have hnew : getObjectFromAddr (setObject (t.state.objects ++
      [⟨address, name, startObject arch t.state.drvAddress⟩]) d.1
      (setPointer arch.ptrSize (nextDeviceField arch) address o.object)) address =
        some ⟨address, name, startObject arch t.state.drvAddress⟩ := by
    rw [getObject_setObject, getObject_added hf.unknown, Option.map_some, if_neg hne]
  refine ⟨_, h.attach_ok hf hlimit hnew rfl hlink, ?_⟩
  obtain ⟨hknown, hnext⟩ := h.returned_known hf hlimit devtype chars
    (t.state.guest.bytes.writeBytes d.1 (setPointer arch.ptrSize (nextDeviceField arch) address o.object))
    (t.state.guest.bytes.readBytes t.state.drvAddress (sizeofDriver arch)) hnew
  have hplen : (setPointer arch.ptrSize (nextDeviceField arch) address o.object).length = sizeofDevice arch := by
    rw [setPointer_length (by omega), holen]
  have hpnext : getField (nextDeviceField arch) arch.ptrSize
      (setPointer arch.ptrSize (nextDeviceField arch) address o.object) = address := by
    rw [getField_setPointer (by omega), Nat.mod_eq_of_lt hlt]
  have hpdriver : getField driverObjectField arch.ptrSize
      (setPointer arch.ptrSize (nextDeviceField arch) address o.object) = t.state.drvAddress := by
    rw [getField_setPointer_apart (by omega) (by omega), hodriver]
  have hpext : getField (deviceExtensionField arch) arch.ptrSize
      (setPointer arch.ptrSize (nextDeviceField arch) address o.object) =
        if d.2 = 0 then 0 else d.1 + sizeofDevice arch := by
    rw [getField_setPointer_apart (by omega) (by omega), hoext]
  have hdalloc : Allocated t.state.guest.mgr d.1 (sizeofDevice arch + d.2) := hsound.inside
  have hdrvNe : t.state.drvAddress ≠ d.1 := fun heq => (List.nodup_cons.mp hdistinct).1 (by simp [heq])
  have hdrvNew : t.state.drvAddress ≠ address := fun heq => hother (by simp [heq])
  have hdrvApart := h.driver.apart h.mgr hf.allocated hdrvNew
  have hdrvFirst := h.driver.apart h.mgr hdalloc hdrvNe
  have hfirstApart := hdalloc.apart h.mgr hf.allocated hne.symm
  have hlayout := driver_layout arch
  have hlen := (finished_fields devtype chars h.driverLt (hf.lt hlimit).2.2).1
  have hold : ∀ offset, offset + arch.ptrSize ≤ sizeofDevice arch →
      ((t.state.guest.bytes.writeBytes d.1
        (setPointer arch.ptrSize (nextDeviceField arch) address o.object)).writeBytes address
          (finalBytes arch t.state address extSize devtype chars)).readInt (d.1 + offset) arch.ptrSize =
        getField offset arch.ptrSize (setPointer arch.ptrSize (nextDeviceField arch) address o.object) := by
    intro offset hoff
    unfold finalBytes
    rw [readInt_writeBytes_apart (by omega), readInt_writeBytes_field (by omega)]
  have hhead : ((t.state.guest.bytes.writeBytes d.1
      (setPointer arch.ptrSize (nextDeviceField arch) address o.object)).writeBytes address
        (finalBytes arch t.state address extSize devtype chars)).readInt
          (t.state.drvAddress + deviceObjectField arch) arch.ptrSize = d.1 := by
    unfold finalBytes
    rw [readInt_writeBytes_apart (by omega), readInt_writeBytes_apart (by omega)]
    exact hlinks.1
  have hoKept : getObjectFromAddr (setObject (setObject (t.state.objects ++
      [⟨address, name, startObject arch t.state.drvAddress⟩]) d.1
      (setPointer arch.ptrSize (nextDeviceField arch) address o.object)) address
      (finalBytes arch t.state address extSize devtype chars)) d.1 =
        some { o with object := setPointer arch.ptrSize (nextDeviceField arch) address o.object } := by
    rw [getObject_setObject, getObject_setObject, hbefore]
    simp only [Option.map_some, if_pos, if_neg hne.symm]
  exact
    { mgr := h.mgr
      below := h.below
      few := by
        rw [hone]
        exact le_rfl
      driver := h.driver
      driverLt := h.driverLt
      devicesLt := by
        intro e he
        rcases List.mem_append.mp he with hin | hin
        · exact h.devicesLt e hin
        · rw [List.mem_singleton.mp hin]
          have := hf.le
          omega
      distinct := by
        rw [hone]
        refine List.nodup_cons.mpr ⟨fun hin => ?_, List.nodup_cons.mpr ⟨fun hin => ?_, List.nodup_singleton address⟩⟩
        · rcases List.mem_cons.mp hin with heq | hin
          · exact hdrvNe heq
          · exact hdrvNew (List.mem_singleton.mp hin)
        · exact hne (List.mem_singleton.mp hin).symm
      objects := h.set_objects hf _ (by simp [setObject_addresses])
      links := by
        rw [hone]
        refine ⟨hhead, hlinks.2.1, ?_, Nat.ne_of_gt hf.pos, hnext⟩
        exact (hold (nextDeviceField arch) (by omega)).trans hpnext
      known := by
        intro e he
        rcases List.mem_append.mp he with hin | hin
        · rw [hone] at hin
          rw [List.mem_singleton.mp hin]
          refine ⟨⟨?_, ?_, hdalloc⟩, _, hoKept, hplen, hpdriver, hpext, ?_⟩
          · exact (hold driverObjectField (by omega)).trans hpdriver
          · exact (hold (deviceExtensionField arch) (by omega)).trans hpext
          · exact (hold (nextDeviceField arch) (by omega)).symm
        · rw [List.mem_singleton.mp hin]
          exact hknown }

theorem Inv.attach_third (h : Inv arch outside limit t) (htwo : t.created.length = 2)
    (hf : Fresh arch limit t address extSize) (name : PyStr) (devtype chars : Nat) :
    (attachDevice arch t.state address name extSize devtype chars).1 = .error .attributeError := by
  obtain ⟨d, e, hde⟩ := List.length_eq_two.mp htwo
  have hd : d ∈ t.created := by
    rw [hde]
    exact List.mem_cons_self
  obtain ⟨-, o, hfound, -, -, -, honext⟩ := h.known d hd
  have hlinks := h.links
  rw [hde] at hlinks
  have hnext : getField (nextDeviceField arch) arch.ptrSize o.object ≠ 0 := by
    rw [honext, hlinks.2.2.1]
    exact hlinks.2.2.2.1
  have hlink := h.linkDevice_third hde address
    (getObject_before hfound ⟨address, name, startObject arch t.state.drvAddress⟩) hnext
  have hadd := addObject_new hf.unknown name (startObject arch t.state.drvAddress)
  unfold startObject at hadd hlink
  unfold attachDevice
  simp only [hadd, hlink]

end Steps

section Law

variable {arch : Arch} {env : MemEnv} {outside : Nat → Prop} {limit : Nat} {t : Session ε}

/-- Before any device was created: the driver object is allocated and points to no device, and each known
object is in an allocation. -/
structure Start (arch : Arch) (outside : Nat → Prop) (limit : Nat) (t : Session ε) : Prop where
  mgr : t.state.guest.mgr.Inv outside
  below : t.state.guest.mgr.Below limit
  driver : Allocated t.state.guest.mgr t.state.drvAddress (sizeofDriver arch)
  driverLt : t.state.drvAddress < 256 ^ arch.ptrSize
  objects : ∀ o ∈ t.state.objects, ∃ n, Allocated t.state.guest.mgr o.address n
  created : t.created = []
  empty : t.state.guest.bytes.readInt (t.state.drvAddress + deviceObjectField arch) arch.ptrSize = 0

theorem Start.inv (h : Start arch outside limit t) : Inv arch outside limit t where
  mgr := h.mgr
  below := h.below
  few := by simp [h.created]
  driver := h.driver
  driverLt := h.driverLt
  devicesLt := by simp [h.created]
  distinct := by simp [h.created]
  objects := h.objects
  links := by
    rw [h.created]
    exact h.empty
  known := by simp [h.created]

omit [PageEngine ε] in
theorem mem_linkFields {d : Nat × Nat} (hd : d ∈ t.created) {f : Nat}
    (hf : f ∈ [d.1 + driverObjectField, d.1 + nextDeviceField arch, d.1 + deviceExtensionField arch]) :
    f ∈ linkFields arch t :=
  List.mem_cons_of_mem _ (List.mem_flatMap.mpr ⟨d, hd, hf⟩)

/-- A write that leaves the links keeps the invariant. -/
theorem Inv.guestWrite (h : Inv arch outside limit t) {address : Nat} {data : List UInt8}
    (ha : Allowed arch t (.guestWrite address data)) :
    Inv arch outside limit (t.step arch env (.guestWrite address data)) := by
  have hsame : ∀ f ∈ linkFields arch t, (t.state.guest.bytes.writeBytes address data).readInt f arch.ptrSize =
      t.state.guest.bytes.readInt f arch.ptrSize := by
    intro f hf
    have happart := ha f hf
    exact readInt_writeBytes_apart (by omega)
  have hfields : ∀ d ∈ t.created, ∀ f ∈ [d.1 + driverObjectField, d.1 + nextDeviceField arch,
      d.1 + deviceExtensionField arch],
      (t.state.guest.bytes.writeBytes address data).readInt f arch.ptrSize =
        t.state.guest.bytes.readInt f arch.ptrSize := fun d hd f hf => hsame f (mem_linkFields hd hf)
  exact
    { mgr := h.mgr
      below := h.below
      few := h.few
      driver := h.driver
      driverLt := h.driverLt
      devicesLt := h.devicesLt
      distinct := h.distinct
      objects := h.objects
      links := by
        have hhead := hsame (t.state.drvAddress + deviceObjectField arch) List.mem_cons_self
        refine (hhead.symm ▸ h.links : LinksFrom arch t.state.guest.bytes _ _).congr fun x hx => ?_
        obtain ⟨d, hd, rfl⟩ := List.mem_map.mp hx
        exact hfields d hd _ (by simp)
      known := by
        intro d hd
        obtain ⟨⟨hdriver, hext, hinside⟩, o, ho, hlen, hodriver, hoext, honext⟩ := h.known d hd
        refine ⟨⟨?_, ?_, hinside⟩, o, ho, hlen, hodriver, hoext, ?_⟩
        · exact (hfields d hd _ (by simp)).trans hdriver
        · exact (hfields d hd _ (by simp)).trans hext
        · exact honext.trans (hfields d hd _ (by simp)).symm }

variable [LawfulPageEngine ε]

theorem Inv.allocate (h : Inv arch outside limit t) (he : env.Limited limit) (size : Nat) (tag : PyStr) :
    Inv arch outside limit (t.step arch env (.allocate size tag)) := by
  have hstep : ∀ mgr, (memMap env t.state.guest.mgr { size := size, tag := some tag }).2 = mgr →
      t.step arch env (.allocate size tag) =
        ⟨{ t.state with guest := { t.state.guest with mgr := mgr } }, t.created⟩ := by
    rintro _ rfl
    rfl
  obtain ⟨r, mgr, hm⟩ : ∃ r mgr, memMap env t.state.guest.mgr { size := size, tag := some tag } = (r, mgr) :=
    ⟨_, _, rfl⟩
  rw [hstep mgr (congrArg Prod.snd hm)]
  cases r with
  | error e =>
    have hsame := memMap_error h.mgr hm
    exact h.grow (hsame ▸ h.mgr) (hsame ▸ h.below) (fun b n hb => hsame ▸ hb) t.state.kernelObjectId
  | ok base =>
    obtain ⟨hi, hb, -, -, -, hkeep⟩ := memMap_allocated h.mgr he h.below rfl hm
    exact h.grow hi hb (fun b n hbn => (hkeep b n hbn).1) t.state.kernelObjectId

/-- After both allocations, the device is fresh. -/
theorem Inv.allocated (h : Inv arch outside limit t) (he : env.Limited limit) {extSize address file : Nat}
    {tag : PyStr} {mgr mgr' : MemoryManager ε}
    (hdevice : memMap env t.state.guest.mgr (deviceArgs arch extSize tag) = (.ok address, mgr))
    (hfile : memMap env mgr (fileArgs arch) = (.ok file, mgr')) :
    Inv arch outside limit ⟨(t.state.withMgr mgr).withMgr mgr', t.created⟩ ∧
      Fresh arch limit ⟨(t.state.withMgr mgr).withMgr mgr', t.created⟩ address extSize := by
  obtain ⟨hi, hb, hnew, hpos, hle, hkeep⟩ := memMap_allocated h.mgr he h.below rfl hdevice
  obtain ⟨hi', hb', -, -, -, hkeep'⟩ := memMap_allocated hi he hb rfl hfile
  refine ⟨h.grow hi' hb' (fun b n hbn => (hkeep' b n (hkeep b n hbn).1).1) _,
    ⟨(hkeep' _ _ hnew).1, ?_, ?_, hpos, hle⟩⟩
  · intro hin
    rcases List.mem_cons.mp hin with heq | hin
    · exact (hkeep _ _ h.driver).2 heq.symm
    · obtain ⟨d, hd, heq⟩ := List.mem_map.mp hin
      exact (hkeep _ _ (h.known d hd).sound.inside).2 heq
  · intro hin
    obtain ⟨o, ho, heq⟩ := List.mem_map.mp hin
    obtain ⟨n, hn⟩ := h.objects o ho
    exact (hkeep _ _ hn).2 heq

/-- A call returns exactly when it is good, and then it keeps the invariant. -/
theorem Inv.create_iff (h : Inv arch outside limit t) (he : env.Limited limit)
    (hlimit : limit ≤ 256 ^ arch.ptrSize) (name : PyStr) (extSize devtype chars : Nat) (tag : PyStr) :
    ((∃ address, (t.state.createDeviceObject arch env name extSize devtype chars tag).1 = .ok address) ↔
        Good arch env t (.createDevice name extSize devtype chars tag)) ∧
      (Good arch env t (.createDevice name extSize devtype chars tag) →
        Inv arch outside limit (t.step arch env (.createDevice name extSize devtype chars tag))) := by
  unfold Session.step createDeviceObject Good
  simp only
  cases hdevice : memMap env t.state.guest.mgr
      (deviceArgs arch extSize (deviceName name tag t.state.kernelObjectId).2) with
  | mk r mgr =>
    cases r with
    | error e =>
      refine ⟨iff_of_false ?_ ?_, ?_⟩
      · rintro ⟨address, heq⟩
        cases heq
      · rintro ⟨-, ⟨address, heq⟩, -⟩
        cases heq
      · rintro ⟨-, ⟨address, heq⟩, -⟩
        cases heq
    | ok address =>
      simp only
      cases hfile : memMap env mgr (fileArgs arch) with
      | mk r mgr' =>
        cases r with
        | error e =>
          refine ⟨iff_of_false ?_ ?_, ?_⟩
          · rintro ⟨address, heq⟩
            cases heq
          · rintro ⟨-, -, file, heq⟩
            cases heq
          · rintro ⟨-, -, file, heq⟩
            cases heq
        | ok file =>
          obtain ⟨hinv, hfresh⟩ := h.allocated he hdevice hfile
          simp only
          by_cases hfew : t.created.length < 2
          · obtain ⟨s, hs, hnext⟩ : ∃ s, attachDevice arch ((t.state.withMgr mgr).withMgr mgr') address
                (deviceName name tag t.state.kernelObjectId).1 extSize devtype chars = (.ok address, s) ∧
                Inv arch outside limit ⟨s, t.created ++ [(address, extSize)]⟩ := by
              by_cases hnone : t.created = []
              · exact hinv.attach_first hnone hfresh hlimit
              · have hpos := List.length_pos_iff.mpr hnone
                obtain ⟨d, hone⟩ := List.length_eq_one_iff.mp (show t.created.length = 1 by omega)
                exact hinv.attach_second hone hfresh hlimit
            rw [hs]
            exact ⟨iff_of_true ⟨address, rfl⟩ ⟨hfew, ⟨address, rfl⟩, file, rfl⟩, fun _ => hnext⟩
          · have htwo : t.created.length = 2 := by
              have := h.few
              omega
            have hraise := hinv.attach_third htwo hfresh (deviceName name tag t.state.kernelObjectId).1 devtype chars
            refine ⟨iff_of_false ?_ fun hgood => hfew hgood.1, fun hgood => absurd hgood.1 hfew⟩
            rintro ⟨a, ha⟩
            rw [hraise] at ha
            cases ha

theorem Inv.step_iff (h : Inv arch outside limit t) (he : env.Limited limit)
    (hlimit : limit ≤ 256 ^ arch.ptrSize) (op : DeviceOp) (ha : Allowed arch t op) :
    (StepLaw arch env t op ↔ Good arch env t op) ∧
      (Good arch env t op → Inv arch outside limit (t.step arch env op)) := by
  cases op with
  | createDevice name extSize devtype chars tag =>
    obtain ⟨hiff, hkeep⟩ := h.create_iff he hlimit name extSize devtype chars tag
    refine ⟨⟨fun hlaw => hiff.mp (hlaw.returns _ _ _ _ _ rfl), fun hgood => ⟨?_, (hkeep hgood).listSound⟩⟩, hkeep⟩
    rintro name extSize devtype chars tag heq
    cases heq
    exact hiff.mpr hgood
  | guestWrite address data =>
    have hkeep : Inv arch outside limit (t.step arch env (.guestWrite address data)) := h.guestWrite ha
    exact ⟨iff_of_true ⟨fun _ _ _ _ _ heq => (nomatch heq), hkeep.listSound⟩ trivial, fun _ => hkeep⟩
  | allocate size tag =>
    have hkeep := h.allocate he size tag
    exact ⟨iff_of_true ⟨fun _ _ _ _ _ heq => (nomatch heq), hkeep.listSound⟩ trivial, fun _ => hkeep⟩

/-- In a run without writes to the links, no call raises and the list is sound after each step exactly when
each device is created for a driver with at most one, and with memory for it. -/
theorem run_deviceList_iff (arch : Arch) (env : MemEnv) (he : env.Limited limit)
    (hlimit : limit ≤ 256 ^ arch.ptrSize) (hstart : Start arch outside limit t) (ops : List DeviceOp)
    (ha : FoldRuns.EachStep (Session.step arch env) (Allowed arch) t ops) :
    FoldRuns.EachStep (Session.step arch env) (StepLaw arch env) t ops ↔
      FoldRuns.EachStep (Session.step arch env) (Good arch env) t ops :=
  FoldRuns.eachStep_iff_of_inv (fun _ op hi hallowed => hi.step_iff he hlimit op hallowed) hstart.inv ha

def driverEnv : MemEnv := ⟨some 0x7FFF0000, none, false, none⟩

/-- A driver object in a zero memory, and no devices. -/
def freshDriver : Session RegionEngine where
  state :=
    { guest := ⟨(memMap driverEnv (MemoryManager.init emptyEngine) { size := 0x1000 }).2, fun _ => 0⟩
      drvAddress := 0x10000
      drvObject := List.replicate 168 0
      objects := []
      devices := []
      kernelObjectId := 4 }
  created := []

theorem start_freshDriver : Start .x86 (Mapped emptyEngine) 0x7FFF0000 freshDriver where
  mgr := memMap_inv (inv_init emptyEngine) _
  below := memMap_below ⟨rfl, by simp [driverEnv]⟩ ⟨by decide, fun h => absurd rfl h⟩ _
  driver := by
    unfold Allocated
    decide
  driverLt := by decide
  objects := by simp [freshDriver]
  created := rfl
  empty := by decide

theorem run_deviceList_iff_freshDriver :
    FoldRuns.EachStep (Session.step .x86 driverEnv) (StepLaw .x86 driverEnv) freshDriver
        [.createDevice [] 0 34 0 [], .allocate 16 [], .createDevice [] 32 34 0 []] ↔
      FoldRuns.EachStep (Session.step .x86 driverEnv) (Good .x86 driverEnv) freshDriver
        [.createDevice [] 0 34 0 [], .allocate 16 [], .createDevice [] 32 34 0 []] :=
  run_deviceList_iff .x86 driverEnv ⟨rfl, by simp [driverEnv]⟩ (by decide) start_freshDriver _ (by
    simp [FoldRuns.eachStep_cons, FoldRuns.eachStep_nil, Allowed])

/-- The third device of a driver raises. -/
theorem createDeviceObject_third :
    ¬FoldRuns.EachStep (Session.step .x86 driverEnv) (StepLaw .x86 driverEnv) freshDriver
      [.createDevice [] 0 34 0 [], .createDevice [] 0 34 0 [], .createDevice [] 0 34 0 []] := by
  intro h
  have hthird := (FoldRuns.eachStep_cons.mp (FoldRuns.eachStep_cons.mp
    (FoldRuns.eachStep_cons.mp h).2).2).1
  obtain ⟨address, hok⟩ := hthird.returns _ _ _ _ _ rfl
  have hraise : ((((freshDriver.step .x86 driverEnv (.createDevice [] 0 34 0 [])).step .x86 driverEnv
      (.createDevice [] 0 34 0 [])).state.createDeviceObject .x86 driverEnv [] 0 34 0 []).1) =
        .error .attributeError := by decide +kernel
  rw [hraise] at hok
  cases hok

end Law

end DriverState

end Speakeasy
