import Speakeasy.MemoryRuns

namespace Speakeasy

section

open PageEngine

def pageNoaccess : Nat := 0x1
def pageReadonly : Nat := 0x2
def pageReadwrite : Nat := 0x4
def pageWritecopy : Nat := 0x8
def pageExecute : Nat := 0x10
def pageExecuteRead : Nat := 0x20
def pageExecuteReadwrite : Nat := 0x40
def pageExecuteWritecopy : Nat := 0x80
def pageGuard : Nat := 0x100

/-- A flag test such as `win_perms & PAGE_GUARD`. -/
def hasFlag (x flag : Nat) : Bool := x &&& flag != 0

/-- `x & ~PAGE_GUARD`. -/
def withoutGuard (x : Nat) : Nat := x - (x &&& pageGuard)

def winPermsToEmuPerms (win : Nat) : Nat :=
  if hasFlag win (pageExecuteReadwrite ||| pageExecuteWritecopy) then permMemRwx
  else if hasFlag win pageNoaccess then permMemNone
  else
    let new := if hasFlag win pageExecute || hasFlag win pageExecuteRead then permMemExec else 0
    let new := if hasFlag win pageExecuteRead || hasFlag win pageReadonly ||
        hasFlag win pageReadwrite || hasFlag win pageWritecopy then new ||| permMemRead else new
    if hasFlag win (pageReadwrite ||| pageWritecopy) then new ||| permMemWrite else new

def emuPermsToWinPerms (emu : Nat) : Nat :=
  if hasFlag emu permMemWrite then
    if hasFlag emu permMemExec then pageExecuteReadwrite else pageReadwrite
  else if hasFlag emu permMemExec then
    if hasFlag emu permMemRead then pageExecuteRead else pageExecute
  else if hasFlag emu permMemRead then pageReadonly
  else pageNoaccess

/-- `uc_to_perms.get(uc_perms, prot)`, where a later entry of the dictionary replaces an earlier. -/
def ucToPerms (uc prot : Nat) : Nat :=
  (((enginePerms.map fun e => (e.2, e.1)).reverse).lookup uc).getD prot

/-- The memory manager with the guard pages of the emulator. -/
structure WinMemory (ε : Type) where
  mgr : MemoryManager ε
  guardPages : Nat → Option Nat

structure WinEnv where
  mem : MemEnv
  ptrSize : Nat
  virtualMemBase : Nat

/-- `(a + page_size - 1) & ~(page_size - 1)`. -/
def pageUp (a : Nat) : Nat := pageOf (a + (pageSize - 1))

theorem pageUp_aligned (a : Nat) : PageAligned (pageUp a) := pageOf_aligned _

theorem le_pageUp (a : Nat) : a ≤ pageUp a := by
  simp only [pageUp, pageOf, pageSize]
  omega

theorem PageAligned.pageUp_eq {a : Nat} (h : PageAligned a) : pageUp a = a := by
  simp only [PageAligned, pageUp, pageOf, pageSize] at *
  omega

theorem PageAligned.pageOf_eq {a : Nat} (h : PageAligned a) : pageOf a = a := by
  simp only [PageAligned, pageOf, pageSize] at *
  omega

namespace WinMemory

variable {ε : Type} [PageEngine ε]

def memProtect (w : WinMemory ε) (addr size perms : Nat) : Except UcError (WinMemory ε) :=
  (EmuEngine.memProtect w.mgr.emuEng addr size perms).map
    fun eng => { w with mgr := { w.mgr with emuEng := eng } }

def setGuardPages (w : WinMemory ε) (address size perms : Nat) :
    Except UcError Unit × WinMemory ε :=
  let base := pageOf address
  let stop := pageUp (address + size)
  let w := { w with guardPages := fun p => if p ∈ pageSteps base stop then some perms
    else w.guardPages p }
  match w.memProtect base (stop - base) permMemNone with
  | .error e => (.error e, w)
  | .ok w => (.ok (), w)

def clearGuardPages (w : WinMemory ε) (address size : Nat) : WinMemory ε :=
  { w with guardPages := fun p => if p ∈ pageSteps (pageOf address) (address + size) then none
    else w.guardPages p }

end WinMemory

/-- The loop of `get_first_unmapped`. Each turn passes the end of a region, so no region is found
twice and one turn for each region, and one to end, are enough. -/
def firstUnmappedLoop (regions : List Region) (address limit : Nat) : Nat → Nat → Nat
  | 0, _ => address
  | fuel + 1, current =>
    if current < limit then
      match regions.find? (fun r => decide (r.Covers current)) with
      | none => current
      | some r => firstUnmappedLoop regions address limit fuel (r.last + 1)
    else address

def getFirstUnmapped (regions : List Region) (address size : Nat) : Nat :=
  firstUnmappedLoop regions address (address + size) (regions.length + 1) address

/-- The regions that the loop can still find. -/
def regionsAbove (regions : List Region) (current : Nat) : List Region :=
  regions.filter (fun r => decide (current ≤ r.last))

theorem regionsAbove_lt {regions : List Region} {current : Nat} {r : Region} (hr : r ∈ regions)
    (hc : r.Covers current) :
    (regionsAbove regions (r.last + 1)).length < (regionsAbove regions current).length := by
  have heq : regionsAbove regions (r.last + 1) =
      (regionsAbove regions current).filter (fun x => decide (r.last + 1 ≤ x.last)) := by
    rw [regionsAbove, regionsAbove, List.filter_filter]
    congr 1
    funext x
    simp only [Region.Covers] at hc
    by_cases h : r.last + 1 ≤ x.last
    · simp [h, show current ≤ x.last by omega]
    · simp [h]
  rw [heq]
  refine List.length_filter_lt_length_iff_exists.mpr ⟨r, ?_, by simp⟩
  simp only [regionsAbove, List.mem_filter, decide_eq_true_eq]
  exact ⟨hr, hc.2⟩

/-- When the first byte is mapped, the loop gives the start back exactly for a mapped range. -/
theorem firstUnmappedLoop_eq_iff {regions : List Region} {address limit fuel current : Nat}
    (hle : address ≤ current) (hfirst : current = address → ∃ r ∈ regions, r.Covers current)
    (hf : (regionsAbove regions current).length < fuel) :
    firstUnmappedLoop regions address limit fuel current = address ↔
      ∀ a, current ≤ a → a < limit → ∃ r ∈ regions, r.Covers a := by
  induction fuel generalizing current with
  | zero => omega
  | succ fuel ih =>
    rw [firstUnmappedLoop]
    split
    next hlt =>
      cases hfind : regions.find? (fun r => decide (r.Covers current)) with
      | none =>
        have hno : ¬∃ r ∈ regions, r.Covers current := by simpa using hfind
        exact iff_of_false (fun heq => hno (hfirst heq)) (fun h => hno (h current le_rfl hlt))
      | some r =>
        have hr := List.mem_of_find?_eq_some hfind
        have hc : r.Covers current := by simpa using List.find?_some hfind
        have hfuel := regionsAbove_lt hr hc
        have hpass := hc.2
        dsimp only
        rw [ih (by omega) (by omega) (by omega)]
        constructor
        · intro h a hl hu
          by_cases ha : a ≤ r.last
          · exact ⟨r, hr, hc.1.trans hl, ha⟩
          · exact h a (by omega) hu
        · exact fun h a hl hu => h a (by omega) hu
    next hge =>
      simp only [true_iff]
      omega

theorem getFirstUnmapped_eq_iff {ε : Type} [PageEngine ε] {e : ε} {address size : Nat}
    (h : Mapped e address) :
    getFirstUnmapped (memRegions e) address size = address ↔
      ∀ a, address ≤ a → a < address + size → Mapped e a := by
  simp only [mapped_iff]
  refine firstUnmappedLoop_eq_iff le_rfl (fun _ => mapped_iff.mp h) ?_
  exact Nat.lt_succ_of_le (List.length_filter_le _ _)

end

section

open PageEngine MemoryManager

def memCommit : Nat := 0x1000
def memReserveState : Nat := 0x2000
def memFreeState : Nat := 0x10000

def errorNotEnoughMemory : Nat := 8
def errorInvalidParameter : Nat := 87
def errorInvalidAddress : Nat := 487

def virtualAllocTag : PyStr := "api.VirtualAlloc".toList

/-- The return value of an API and the last error that it sets. -/
structure ApiReturn where
  rv : Nat
  lastError : Option Nat := none
deriving DecidableEq, Repr

variable {ε : Type} [PageEngine ε]

def maxApplicationAddress (env : WinEnv) : Nat :=
  if env.ptrSize = 4 then 0x7FFEFFFF else 0x7FFFFFFEFFFF

/-- `commit_pages`: apply the protection of a commit to the pages of an existing allocation. -/
def commitPages (w : WinMemory ε) (mm : MemMap) (address size protect : Nat) :
    Except MemError Nat × WinMemory ε :=
  let base := pageOf address
  let stop := min (pageUp (address + size)) (mm.base + mm.size)
  let perms := winPermsToEmuPerms protect
  let w := w.clearGuardPages base (stop - base)
  match w.memProtect base (stop - base) perms with
  | .error e => (.error (.uc e), w)
  | .ok w =>
    if hasFlag protect pageGuard then
      match w.setGuardPages base (stop - base) perms with
      | (.error e, w) => (.error (.uc e), w)
      | (.ok (), w) => (.ok base, w)
    else (.ok base, w)

/-- `while base and base & 0xFFF` of `VirtualAlloc`, for at most `fuel` turns. -/
def searchAligned (env : WinEnv) (s : MemoryManager ε) :
    Nat → (size test base : Nat) → Option (Except MemError (Nat × Nat))
  | fuel, size, test, base =>
    if base ≠ 0 ∧ base % pageSize ≠ 0 then
      match fuel with
      | 0 => none
      | fuel + 1 =>
        match getValidRanges env.mem s size (some test) with
        | .error e => some (.error e)
        | .ok (base, size) => searchAligned env s fuel size (test + pageSize) base
    else some (.ok (base, size))

/-- The part of `VirtualAlloc` that makes a new allocation at `base`. -/
def virtualAllocAt (env : WinEnv) (w : WinMemory ε) (base size flProtect : Nat) :
    Except MemError ApiReturn × WinMemory ε :=
  let perms := winPermsToEmuPerms flProtect
  let args : MapArgs :=
    { size := size, base := some base, perms := perms, tag := some virtualAllocTag, flags := flProtect }
  match memMap env.mem w.mgr args with
  | (.error e, mgr) => (.error e, { w with mgr := mgr })
  | (.ok buf, mgr) =>
    let w := { w with mgr := mgr }
    if hasFlag flProtect pageGuard then
      match w.setGuardPages buf size perms with
      | (.error e, w) => (.error (.uc e), w)
      | (.ok (), w) => (.ok ⟨buf, none⟩, w)
    else (.ok ⟨buf, none⟩, w)

def isVirtualAlloc (mm : MemMap) : Bool :=
  match mm.tag with
  | none => false
  | some t => decide (virtualAllocTag <+: t)

/-- `VirtualAlloc`. The result is `none` only if the search for an aligned base needs more turns. -/
def virtualAlloc (fuel : Nat) (env : WinEnv) (w : WinMemory ε)
    (lpAddress dwSize flAllocationType flProtect : Nat) :
    Option (Except MemError ApiReturn × WinMemory ε) :=
  match (w.mgr.getAddressMap lpAddress).filter isVirtualAlloc with
  | some mm =>
    if hasFlag flAllocationType memCommit then
      let (res, w) := commitPages w mm lpAddress dwSize flProtect
      some (res.map (⟨·, none⟩), w)
    else some (.ok ⟨lpAddress, none⟩, w)
  | none =>
    if dwSize = 0 then some (.ok ⟨0, none⟩, w)
    else
      let test := if lpAddress ≠ 0 then pageOf lpAddress else env.virtualMemBase
      match getValidRanges env.mem w.mgr dwSize (some test) with
      | .error .outOfMemory => some (.ok ⟨0, some errorNotEnoughMemory⟩, w)
      | .error e => some (.error e, w)
      | .ok (base, size) =>
        if lpAddress ≠ 0 ∧ base ≠ test then some (.ok ⟨0, some errorInvalidAddress⟩, w)
        else
          match searchAligned env w.mgr fuel size test base with
          | none => none
          | some (.error e) => some (.error e, w)
          | some (.ok (base, size)) => some (virtualAllocAt env w base size flProtect)

/-- Set `prot` on the first allocation that holds an address. -/
def setProt (a new : Nat) : List MemMap → List MemMap
  | [] => []
  | m :: ms => if m.Covers a then { m with prot := some new } :: ms else m :: setProt a new ms

/-- The protection that `VirtualProtect` takes from an allocation, before the guard bit. -/
def savedProtection (mm : MemMap) : Nat :=
  if mm.flags ≠ 0 then mm.flags else emuPermsToWinPerms (mm.prot.getD permMemNone)

/-- `VirtualProtect` up to its store, with the value that it stores through `lpflOldProtect`. -/
def protectPages (w : WinMemory ε) (lpAddress dwSize flNewProtect lpflOldProtect : Nat) :
    Except UcError (ApiReturn × Option Nat) × WinMemory ε :=
  match w.mgr.getAddressMap lpAddress with
  | none => (.ok (⟨0, none⟩, none), w)
  | some mm =>
    if lpflOldProtect = 0 then (.ok (⟨0, none⟩, none), w)
    else
      let addr := pageOf lpAddress
      let size := pageUp dwSize
      let new := winPermsToEmuPerms flNewProtect
      if getFirstUnmapped w.mgr.getMemRegions addr size ≠ addr then
        (.ok (⟨0, some errorInvalidAddress⟩, none), w)
      else
        let oldProt := withoutGuard (savedProtection mm) |||
          (if (w.guardPages addr).isSome then pageGuard else 0)
        match w.memProtect addr size new with
        | .error e => (.error e, w)
        | .ok w =>
          let w := w.clearGuardPages addr size
          match (if hasFlag flNewProtect pageGuard then w.setGuardPages addr size new
            else (.ok (), w)) with
          | (.error e, w) => (.error e, w)
          | (.ok (), w) =>
            (.ok (⟨1, none⟩, some oldProt),
              { w with mgr := { w.mgr with maps := setProt lpAddress new w.mgr.maps } })

/-- The four bytes of a store are mapped. -/
def DwordMapped (e : ε) (address : Nat) : Prop := ∀ i < 4, Mapped e (address + i)

instance (e : ε) (address : Nat) : Decidable (DwordMapped e address) :=
  inferInstanceAs (Decidable (∀ i < 4, _))

/-- `VirtualProtect`. The store comes last, so the pages have changed when it raises. -/
def virtualProtect (w : WinMemory ε) (lpAddress dwSize flNewProtect lpflOldProtect : Nat) :
    Except UcError (ApiReturn × Option Nat) × WinMemory ε :=
  match protectPages w lpAddress dwSize flNewProtect lpflOldProtect with
  | (.ok (r, some oldProt), w) =>
    if DwordMapped w.mgr.emuEng lpflOldProtect then (.ok (r, some oldProt), w) else (.error .writeUnmapped, w)
  | (res, w) => (res, w)

structure MemoryBasicInformation where
  baseAddress : Nat := 0
  allocationBase : Nat := 0
  allocationProtect : Nat := 0
  regionSize : Nat := 0
  state : Nat := 0
  protect : Nat := 0
  type : Nat := 0
deriving DecidableEq, Repr

def MemoryBasicInformation.sizeof (env : WinEnv) : Nat := if env.ptrSize = 4 then 28 else 48

/-- The first start of an allocation or a reservation after a page, or the end that is given. -/
def nextStart (page stop : Nat) (maps : List MemMap) : Nat :=
  maps.foldl (fun stop m => if page < m.base ∧ m.base < stop then m.base else stop) stop

/-- `VirtualQuery`: the record that it writes, or the error that it sets when it returns 0. -/
def virtualQuery (env : WinEnv) (w : WinMemory ε) (lpAddress lpBuffer dwLength : Nat) :
    Except Nat MemoryBasicInformation :=
  if dwLength < MemoryBasicInformation.sizeof env ∨ lpBuffer = 0 then .error errorInvalidParameter
  else
    let page := pageOf lpAddress
    match w.mgr.getAddressMap lpAddress with
    | none =>
      match w.mgr.getReserveMap lpAddress with
      | some reserve => .ok {
          baseAddress := page
          allocationBase := reserve.base
          regionSize := reserve.base + reserve.size - page
          state := memReserveState }
      | none =>
        let stop := maxApplicationAddress env + 1
        if stop ≤ lpAddress then .error errorInvalidParameter
        else .ok {
          baseAddress := page
          regionSize := nextStart page stop (w.mgr.maps ++ w.mgr.memReserves) - page
          state := memFreeState
          protect := pageNoaccess }
    | some mm =>
      let mmProt := mm.prot.getD permMemNone
      let (base, size, prot) :=
        match w.mgr.getMemRegions.find? (fun r => decide (r.Covers lpAddress)) with
        | some r => (r.first, r.last + 1 - r.first, ucToPerms r.perms mmProt)
        | none => (mm.base, mm.size, mmProt)
      .ok {
        baseAddress := base
        allocationBase := mm.base
        allocationProtect := emuPermsToWinPerms mmProt
        regionSize := size
        state := memCommit
        protect := match w.guardPages page with
          | some perms => emuPermsToWinPerms perms ||| pageGuard
          | none => emuPermsToWinPerms prot
        type := 0 }

end

end Speakeasy
