import Speakeasy.VirtualQueryAnswers
import Mathlib.Data.Nat.Bitwise

namespace Speakeasy

section

open PageEngine MemoryManager

/-- The protections of the calls, each with or without the guard flag. -/
def validProtections : List Nat :=
  let basic := [pageNoaccess, pageReadonly, pageReadwrite, pageExecuteRead, pageExecuteReadwrite]
  basic ++ basic.map (· ||| pageGuard)

theorem ne_zero_of_valid : ∀ q ∈ validProtections, q ≠ 0 := by decide

theorem guard_of_valid : ∀ q ∈ validProtections,
    (appliedGuard q).isSome = hasFlag q pageGuard ∧
      q = withoutGuard q + if hasFlag q pageGuard then pageGuard else 0 := by
  decide

/-- The engine gives the permissions of a valid protection back. -/
theorem ucToPerms_of_valid (prot : Nat) {q : Nat} (hq : q ∈ validProtections) :
    ucToPerms (ucPerms (appliedPerms q)) prot = appliedPerms q := by
  have h : ∀ q ∈ validProtections, (((enginePerms.map fun e => (e.2, e.1)).reverse).lookup
      (ucPerms (appliedPerms q))) = some (appliedPerms q) := by decide
  rw [ucToPerms, h q hq, Option.getD_some]

/-- What `VirtualQuery` makes of the permissions and the guard page entry of a page. -/
theorem reported_of_valid : ∀ q ∈ validProtections,
    (match appliedGuard q with
      | some perms => emuPermsToWinPerms perms ||| pageGuard
      | none => emuPermsToWinPerms (appliedPerms q)) = q := by
  decide

theorem withoutGuard_bit (x : Nat) : withoutGuard x / pageGuard % 2 = 0 := by
  have h : x &&& pageGuard = (x.testBit 8).toNat * 2 ^ 8 := Nat.and_two_pow x 8
  have hbit : (x.testBit 8).toNat = x / 256 % 2 := Nat.toNat_testBit x 8
  rw [withoutGuard, h, hbit]
  simp only [pageGuard]
  omega

theorem withoutGuard_or (x : Nat) : withoutGuard x ||| pageGuard = withoutGuard x + pageGuard := by
  have hbit := withoutGuard_bit x
  generalize withoutGuard x = y at *
  simp only [pageGuard] at *
  have hlow : y % 256 ||| 256 = 256 + y % 256 := by
    have := Nat.two_pow_add_eq_or_of_lt (i := 8) (Nat.mod_lt y (by decide)) 1
    rw [Nat.lor_comm]
    simpa using this.symm
  have hy : y = 2 ^ 9 * (y / 512) ||| y % 256 := by
    rw [← Nat.two_pow_add_eq_or_of_lt (i := 9) (by omega)]
    omega
  calc y ||| 256 = 2 ^ 9 * (y / 512) ||| (y % 256 ||| 256) := by rw [← Nat.lor_assoc, ← hy]
    _ = 2 ^ 9 * (y / 512) + (256 + y % 256) := by
      rw [hlow, ← Nat.two_pow_add_eq_or_of_lt (i := 9) (by omega)]
    _ = y + 256 := by omega

theorem withoutGuard_emuPermsToWinPerms (emu : Nat) :
    withoutGuard (emuPermsToWinPerms emu) = emuPermsToWinPerms emu := by
  unfold emuPermsToWinPerms
  split <;> split <;> (try split) <;> rfl

theorem pageTotal_eq_pageUp {size : Nat} (h : 0 < size) : pageTotal size = pageUp size := by
  unfold pageTotal
  split
  · simp only [pageUp, pageOf, pageSize] at *
    omega
  · split <;> simp only [pageUp, pageOf, pageSize] at * <;> omega

theorem mem_pageSteps_aligned {base size p : Nat} (hb : PageAligned base) :
    p ∈ pageSteps base (base + size) ↔ PageAligned p ∧ base ≤ p ∧ p < base + size := by
  simp only [mem_pageSteps, PageAligned, pageSize] at *
  omega

variable {ε : Type} [PageEngine ε]

/-- The pages of a range get a protection, and no other page changes. -/
structure PagesGet (w w' : WinMemory ε) (base size prot : Nat) : Prop where
  perms : ∀ a, permsAt w'.mgr.emuEng a = if base ≤ a ∧ a < base + size
    then some (ucPerms (appliedPerms prot)) else permsAt w.mgr.emuEng a
  guards : ∀ p, w'.guardPages p = if PageAligned p ∧ base ≤ p ∧ p < base + size
    then appliedGuard prot else w.guardPages p

theorem PagesGet.mapped {w w' : WinMemory ε} {base size prot : Nat} (h : PagesGet w w' base size prot)
    (a : Nat) : Mapped w'.mgr.emuEng a ↔ (base ≤ a ∧ a < base + size) ∨ Mapped w.mgr.emuEng a := by
  by_cases ha : base ≤ a ∧ a < base + size <;> simp [Mapped, h.perms a, ha]

variable [LawfulPageEngine ε]

/-- `mem_map` with a base and whole pages: a fresh page range with one allocation, or no effect. -/
theorem memMap_base_cases (env : MemEnv) {s : MemoryManager ε} (h : s.ReservesAligned) {a : MapArgs}
    (hb : a.base ≠ none) (ht : pageTotal a.size = a.size) :
    (∃ e, MemoryManager.memMap env s a = (.error e, s)) ∨
    ∃ buf eng mm,
      MemoryManager.memMap env s a = (.ok buf, { s with emuEng := eng, maps := s.maps ++ [mm] }) ∧
      mm.base = buf ∧ mm.size = a.size ∧ mm.flags = a.flags ∧ PageRange buf a.size ∧
      (∀ x, buf ≤ x → x < buf + a.size → ¬Mapped s.emuEng x) ∧
      ∀ x, permsAt eng x = if buf ≤ x ∧ x < buf + a.size then some (ucPerms a.perms)
        else permsAt s.emuEng x := by
  simp only [MemoryManager.memMap, hb, false_and, if_false, memMapLarge]
  cases hv : getValidRanges env s a.size a.base with
  | error e => exact Or.inl ⟨e, rfl⟩
  | ok r =>
    obtain ⟨buf, total⟩ := r
    have htotal : total = a.size := (getValidRanges_total hv).trans ht
    subst htotal
    obtain ⟨hr, _, hu⟩ := getValidRanges_spec h hv
    have hfree := fun x hl hu' => (hu x hl hu').1
    obtain ⟨eng, he, hp⟩ := LawfulPageEngine.memMap_exact s.emuEng (ucPerms a.perms) hr hfree
    have he' : EmuEngine.memMap s.emuEng buf a.size a.perms = .ok eng := he
    simp only [he']
    exact Or.inr ⟨buf, eng, _, rfl, rfl, rfl, rfl, hr, hfree, hp⟩

theorem commitPages_spec {w : WinMemory ε} {outside : Nat → Prop} (h : w.mgr.Inv outside)
    {mm : MemMap} (hmm : mm ∈ w.mgr.maps) {address : Nat} (hc : mm.Covers address)
    (hb : PageAligned mm.base) (hs : PageAligned mm.size) (size protect : Nat) :
    ∃ w', commitPages w mm address size protect = (.ok (pageOf address), w') ∧
      w'.mgr = { w.mgr with emuEng := w'.mgr.emuEng } ∧
      PagesGet w w' (pageOf address)
        (min (pageUp (address + size)) (mm.base + mm.size) - pageOf address) protect ∧
      ∀ a, pageOf address ≤ a → a < pageOf address +
        (min (pageUp (address + size)) (mm.base + mm.size) - pageOf address) →
        Mapped w.mgr.emuEng a := by
  have hbase := pageOf_aligned address
  have hlen : PageAligned (min (pageUp (address + size)) (mm.base + mm.size) - pageOf address) := by
    have h1 := pageUp_aligned (address + size)
    have h2 := hb.add hs
    simp only [PageAligned, pageSize] at *
    omega
  have hle : mm.base ≤ pageOf address := hb.le_pageOf.mpr hc.1
  have hm : ∀ a, pageOf address ≤ a → a < pageOf address +
      (min (pageUp (address + size)) (mm.base + mm.size) - pageOf address) →
      Mapped w.mgr.emuEng a := by
    intro a hl hu
    exact h.covers_mapped hmm ⟨by omega, by simp only [MemMap.Covers] at hc; omega⟩
  unfold commitPages
  dsimp only
  generalize min (pageUp (address + size)) (mm.base + mm.size) - pageOf address = len at *
  obtain ⟨eng, he, hp⟩ := (w.clearGuardPages (pageOf address) len).memProtect_spec
    (winPermsToEmuPerms protect) hbase hlen hm
  have hclear : ∀ p, p ∈ pageSteps (pageOf (pageOf address)) (pageOf address + len) ↔
      PageAligned p ∧ pageOf address ≤ p ∧ p < pageOf address + len := by
    intro p
    rw [hbase.pageOf_eq, mem_pageSteps_aligned hbase]
  simp only [he]
  by_cases hg : hasFlag protect pageGuard
  · have hm' := fun a hl hu => (WinMemory.mapped_of_permsAt hp hm a).mpr (hm a hl hu)
    obtain ⟨eng', he', hp'⟩ := WinMemory.setGuardPages_spec
      { w.clearGuardPages (pageOf address) len with mgr := { w.mgr with emuEng := eng } }
      (winPermsToEmuPerms protect) hbase hlen hm'
    simp only [WinMemory.clearGuardPages, mem_pageSteps_aligned hbase, hclear] at he' hp hp' ⊢
    simp only [hg, if_true, he']
    refine ⟨_, rfl, rfl, ⟨fun a => ?_, fun p => ?_⟩, hm⟩
    · rw [hp' a, hp a, appliedPerms, if_pos hg]
      split <;> rfl
    · rw [appliedGuard, if_pos hg]
      dsimp only
      split <;> rfl
  · simp only [hg, Bool.false_eq_true, if_false]
    refine ⟨_, rfl, rfl, ⟨fun a => ?_, fun p => ?_⟩, hm⟩
    · rw [appliedPerms, if_neg hg]
      exact hp a
    · simp only [WinMemory.clearGuardPages, hclear]
      rw [appliedGuard, if_neg hg]

end

section

open PageEngine MemoryManager

/-- A call that gave the pages of a range a protection. -/
structure PageEvent where
  base : Nat
  size : Nat
  prot : Nat

def PageEvent.Covers (e : PageEvent) (a : Nat) : Prop := e.base ≤ a ∧ a < e.base + e.size

instance (e : PageEvent) (a : Nat) : Decidable (e.Covers a) := inferInstanceAs (Decidable (_ ∧ _))

/-- The protection that the last of the calls, which are listed newest first, gave an address. -/
def lastProt (history : List PageEvent) (a : Nat) : Option Nat :=
  (history.find? (fun e => decide (e.Covers a))).map PageEvent.prot

theorem lastProt_cons (e : PageEvent) (history : List PageEvent) (a : Nat) :
    lastProt (e :: history) a = if e.Covers a then some e.prot else lastProt history a := by
  by_cases h : e.Covers a <;> simp [lastProt, h]

inductive ProtectOp
  | virtualAlloc (lpAddress dwSize flAllocationType flProtect : Nat)
  | virtualProtect (lpAddress dwSize flNewProtect lpflOldProtect : Nat)

/-- The protection is one of the ten, and a range for `VirtualProtect` begins on a page. -/
def ProtectOp.Valid : ProtectOp → Prop
  | .virtualAlloc _ _ _ flProtect => flProtect ∈ validProtections
  | .virtualProtect lpAddress dwSize flNewProtect _ =>
    PageAligned lpAddress ∧ 0 < dwSize ∧ flNewProtect ∈ validProtections

instance (op : ProtectOp) : Decidable op.Valid := by
  cases op <;> unfold ProtectOp.Valid <;> infer_instance

/-- The memory, the calls that gave pages a protection, and the allocations that calls made, each newest first. -/
structure ProtectSession (ε : Type) where
  win : WinMemory ε
  history : List PageEvent
  allocs : List PageEvent

variable {ε : Type} [PageEngine ε]

/-- The pages of an allocation that a commit covers, or the pages of a new allocation. -/
def allocEvent (w : WinMemory ε) (lpAddress dwSize flAllocationType flProtect : Nat)
    (res : Except MemError ApiReturn) : Option PageEvent :=
  match (w.mgr.getAddressMap lpAddress).filter isVirtualAlloc, res with
  | some mm, .ok _ =>
    if hasFlag flAllocationType memCommit then
      some ⟨pageOf lpAddress,
        min (pageUp (lpAddress + dwSize)) (mm.base + mm.size) - pageOf lpAddress, flProtect⟩
    else none
  | none, .ok r => if r.rv ≠ 0 then some ⟨r.rv, pageUp dwSize, flProtect⟩ else none
  | _, .error _ => none

def protectEvent (lpAddress dwSize flNewProtect : Nat)
    (res : Except UcError (ApiReturn × Option Nat)) : Option PageEvent :=
  match res with
  | .ok (⟨1, _⟩, _) => some ⟨pageOf lpAddress, pageUp dwSize, flNewProtect⟩
  | _ => none

/-- The pages of a new allocation, also of one at address 0. -/
def newAllocation (w : WinMemory ε) (lpAddress dwSize flProtect : Nat) (res : Except MemError ApiReturn) :
    Option PageEvent :=
  match (w.mgr.getAddressMap lpAddress).filter isVirtualAlloc, res with
  | none, .ok r => if dwSize ≠ 0 ∧ r.lastError = none then some ⟨r.rv, pageUp dwSize, flProtect⟩ else none
  | _, _ => none

namespace ProtectSession

def init (w : WinMemory ε) : ProtectSession ε := ⟨w, [], []⟩

/-- One call, with the event that it adds, also when the store of `VirtualProtect` raises. The search of
`VirtualAlloc` for an aligned base ends at once, so it needs no fuel. -/
def step (env : WinEnv) (t : ProtectSession ε) : ProtectOp → ProtectSession ε
  | .virtualAlloc lpAddress dwSize flAllocationType flProtect =>
    match virtualAlloc 0 env t.win lpAddress dwSize flAllocationType flProtect with
    | none => t
    | some (res, w) =>
      ⟨w, (allocEvent t.win lpAddress dwSize flAllocationType flProtect res).toList ++ t.history,
        (newAllocation t.win lpAddress dwSize flProtect res).toList ++ t.allocs⟩
  | .virtualProtect lpAddress dwSize flNewProtect lpflOldProtect =>
    ⟨(virtualProtect t.win lpAddress dwSize flNewProtect lpflOldProtect).2,
      (protectEvent lpAddress dwSize flNewProtect
        (protectPages t.win lpAddress dwSize flNewProtect lpflOldProtect).1).toList ++ t.history, t.allocs⟩

def run (env : WinEnv) (t : ProtectSession ε) (ops : List ProtectOp) : ProtectSession ε :=
  ops.foldl (step env) t

end ProtectSession

/-- A state from which protections are counted: the manager has mapped all memory, guard pages are
mapped, and `VirtualAlloc` has made whole pages. -/
structure ProtectStart (w : WinMemory ε) : Prop where
  inv : w.mgr.Inv (fun _ => False)
  guards_mapped : ∀ p, w.guardPages p ≠ none → Mapped w.mgr.emuEng p
  whole : ∀ m ∈ w.mgr.maps, isVirtualAlloc m = true → PageAligned m.base ∧ PageAligned m.size

/-- The allocations that calls made are in the manager, with the flags of their calls. -/
def MadeWith (w : WinMemory ε) (allocs : List PageEvent) : Prop :=
  ∀ a q, lastProt allocs a = some q → q ∈ validProtections ∧ ∃ mm, w.mgr.getAddressMap a = some mm ∧ mm.flags = q

omit [PageEngine ε] in
theorem MadeWith.congr {w w' : WinMemory ε} {allocs : List PageEvent} (h : MadeWith w allocs)
    (hmaps : w'.mgr.maps = w.mgr.maps) : MadeWith w' allocs := by
  intro a q hq
  obtain ⟨hv, mm, hmm, hflags⟩ := h a q hq
  refine ⟨hv, mm, ?_, hflags⟩
  unfold getAddressMap at hmm ⊢
  rwa [hmaps]

omit [PageEngine ε] in
/-- A new allocation lies where there was none. -/
theorem MadeWith.append {w w' : WinMemory ε} {allocs : List PageEvent} {mm : MemMap} {prot : Nat} (h : MadeWith w allocs)
    (hv : prot ∈ validProtections) (hmaps : w'.mgr.maps = w.mgr.maps ++ [mm]) (hflags : mm.flags = prot)
    (hfree : ∀ a, mm.Covers a → w.mgr.getAddressMap a = none) :
    MadeWith w' (⟨mm.base, mm.size, prot⟩ :: allocs) := by
  intro a q hq
  have hfind : w'.mgr.getAddressMap a =
      (w.mgr.getAddressMap a).or (if mm.Covers a then some mm else none) := by
    unfold getAddressMap
    rw [hmaps, List.find?_append, List.find?_singleton]
    simp only [decide_eq_true_eq]
  rw [lastProt_cons] at hq
  split at hq
  next hcovers =>
    have hcovers : mm.Covers a := hcovers
    rw [Option.some.injEq] at hq
    subst hq
    refine ⟨hv, mm, ?_, hflags⟩
    rw [hfind, hfree a hcovers, if_pos hcovers]
    rfl
  next =>
    obtain ⟨hold, mm', hmm', hflags'⟩ := h a q hq
    refine ⟨hold, mm', ?_, hflags'⟩
    rw [hfind, hmm']
    rfl

omit [PageEngine ε] in
theorem find_setProt {b new a : Nat} {ms : List MemMap} {mm : MemMap}
    (h : ms.find? (fun m => decide (m.Covers a)) = some mm) :
    ∃ mm', (setProt b new ms).find? (fun m => decide (m.Covers a)) = some mm' ∧ mm'.flags = mm.flags := by
  induction ms with
  | nil => cases h
  | cons m ms ih =>
    rw [setProt]
    by_cases hcovers : m.Covers a
    · have hhead : ∀ (m' : MemMap) (rest : List MemMap), m'.base = m.base → m'.size = m.size →
          (m' :: rest).find? (fun m => decide (m.Covers a)) = some m' := by
        intro m' rest hbase hsize
        apply List.find?_cons_of_pos
        rw [decide_eq_true_eq, MemMap.Covers, hbase, hsize]
        exact hcovers
      rw [hhead m ms rfl rfl, Option.some.injEq] at h
      subst h
      split
      next => exact ⟨_, hhead _ _ rfl rfl, rfl⟩
      next => exact ⟨_, hhead _ _ rfl rfl, rfl⟩
    · have htail : ∀ (m' : MemMap) (rest : List MemMap), m'.base = m.base → m'.size = m.size →
          (m' :: rest).find? (fun m => decide (m.Covers a)) = rest.find? (fun m => decide (m.Covers a)) := by
        intro m' rest hbase hsize
        apply List.find?_cons_of_neg
        rw [decide_eq_true_eq, MemMap.Covers, hbase, hsize]
        exact hcovers
      rw [htail m ms rfl rfl] at h
      split
      next => exact ⟨mm, (htail { m with prot := some new } ms rfl rfl).trans h, rfl⟩
      next =>
        obtain ⟨mm', hfind, hflags⟩ := ih h
        exact ⟨mm', (htail _ _ rfl rfl).trans hfind, hflags⟩

omit [PageEngine ε] in
theorem MadeWith.setProt {w w' : WinMemory ε} {allocs : List PageEvent} {b new : Nat} (h : MadeWith w allocs)
    (hmaps : w'.mgr.maps = Speakeasy.setProt b new w.mgr.maps) : MadeWith w' allocs := by
  intro a q hq
  obtain ⟨hv, mm, hmm, hflags⟩ := h a q hq
  obtain ⟨mm', hfind, hsame⟩ := @find_setProt b new a _ _ hmm
  refine ⟨hv, mm', ?_, hsame.trans hflags⟩
  unfold getAddressMap
  rwa [hmaps]

/-- The engine and the guard pages hold what the last call gave every page. -/
structure ProtectInv (t : ProtectSession ε) : Prop where
  start : ProtectStart t.win
  made : MadeWith t.win t.allocs
  covered : ∀ p q, PageAligned p → lastProt t.history p = some q → q ∈ validProtections ∧
    permsAt t.win.mgr.emuEng p = some (ucPerms (appliedPerms q)) ∧
    t.win.guardPages p = appliedGuard q

theorem ProtectInv.mapped {t : ProtectSession ε} (h : ProtectInv t) {p q : Nat} (hp : PageAligned p)
    (hq : lastProt t.history p = some q) : Mapped t.win.mgr.emuEng p := by
  simp [Mapped, (h.covered p q hp hq).2.1]

/-- A range gets a protection. The event is added, or the range was not mapped before. -/
theorem ProtectInv.pagesGet {t : ProtectSession ε} (h : ProtectInv t) {w' : WinMemory ε}
    {base size prot : Nat} (hg : PagesGet t.win w' base size prot) (hv : prot ∈ validProtections)
    (hi : w'.mgr.Inv (fun _ => False))
    (hw : ∀ m ∈ w'.mgr.maps, isVirtualAlloc m = true → PageAligned m.base ∧ PageAligned m.size)
    {history : List PageEvent}
    (hh : history = ⟨base, size, prot⟩ :: t.history ∨ (history = t.history ∧
      ∀ a, base ≤ a → a < base + size → ¬Mapped t.win.mgr.emuEng a))
    {allocs : List PageEvent} (hm : MadeWith w' allocs) : ProtectInv ⟨w', history, allocs⟩ := by
  have hold : ∀ p q, PageAligned p → ¬(base ≤ p ∧ p < base + size) →
      lastProt t.history p = some q → q ∈ validProtections ∧
        permsAt w'.mgr.emuEng p = some (ucPerms (appliedPerms q)) ∧
        w'.guardPages p = appliedGuard q := by
    intro p q hp hno hq
    rw [hg.perms p, hg.guards p, if_neg hno, if_neg (fun h => hno h.2)]
    exact h.covered p q hp hq
  refine ⟨⟨hi, fun p hp => ?_, hw⟩, hm, fun p q hp hq => ?_⟩
  · rw [hg.mapped]
    rw [hg.guards p] at hp
    split at hp
    next hr => exact Or.inl hr.2
    next => exact Or.inr (h.start.guards_mapped p hp)
  · rcases hh with rfl | ⟨rfl, hfree⟩
    · rw [lastProt_cons] at hq
      split at hq
      next hc =>
        cases hq
        refine ⟨hv, ?_, ?_⟩
        · exact (hg.perms p).trans (if_pos hc)
        · exact (hg.guards p).trans (if_pos ⟨hp, hc⟩)
      next hc => exact hold p q hp hc hq
    · exact hold p q hp (fun hr => hfree p hr.1 hr.2 (h.mapped hp hq)) hq

variable [LawfulPageEngine ε]

theorem isVirtualAlloc_setProt {a new : Nat} {ms : List MemMap}
    (h : ∀ m ∈ ms, isVirtualAlloc m = true → PageAligned m.base ∧ PageAligned m.size) :
    ∀ m ∈ setProt a new ms, isVirtualAlloc m = true → PageAligned m.base ∧ PageAligned m.size := by
  induction ms with
  | nil => exact h
  | cons x ms ih =>
    rw [setProt]
    split
    · rintro m hm
      rcases List.mem_cons.mp hm with rfl | hm
      · exact h x List.mem_cons_self
      · exact h m (List.mem_cons_of_mem _ hm)
    · rintro m hm
      rcases List.mem_cons.mp hm with rfl | hm
      · exact h m List.mem_cons_self
      · exact ih (fun m hm => h m (List.mem_cons_of_mem _ hm)) m hm

/-- A new allocation of `VirtualAlloc` gets its protection on all its pages. -/
theorem virtualAllocAt_spec {env : WinEnv} {w : WinMemory ε} (h : ProtectStart w) {base total : Nat}
    (ht : pageTotal total = total) (flProtect : Nat) :
    (∃ e, virtualAllocAt env w base total flProtect = (.error e, w)) ∨
    ∃ buf w', virtualAllocAt env w base total flProtect = (.ok ⟨buf, none⟩, w') ∧
      PagesGet w w' buf total flProtect ∧ w'.mgr.Inv (fun _ => False) ∧
      (∀ m ∈ w'.mgr.maps, isVirtualAlloc m = true → PageAligned m.base ∧ PageAligned m.size) ∧
      (∃ mm, w'.mgr.maps = w.mgr.maps ++ [mm] ∧ mm.base = buf ∧ mm.size = total ∧ mm.flags = flProtect) ∧
      ∀ a, buf ≤ a → a < buf + total → ¬Mapped w.mgr.emuEng a := by
  let args : MapArgs :=
    { size := total, base := some base, perms := winPermsToEmuPerms flProtect,
      tag := some virtualAllocTag, flags := flProtect }
  have hinv : (memMap env.mem w.mgr args).2.Inv (fun _ => False) := memMap_inv h.inv args
  have hcases := memMap_base_cases env.mem (a := args) h.inv.reserves (by simp [args]) ht
  simp only [args] at hinv hcases
  rcases hcases with ⟨e, he⟩ | ⟨buf, eng, mm, he, hbase, hsize, hflags, hr, hfree, hp⟩
  · exact Or.inl ⟨e, by simp only [virtualAllocAt, he]⟩
  · refine Or.inr ⟨buf, ?_⟩
    simp only [virtualAllocAt, he] at hinv ⊢
    have hwhole : ∀ m ∈ w.mgr.maps ++ [mm], isVirtualAlloc m = true →
        PageAligned m.base ∧ PageAligned m.size := by
      intro m hm hva
      rcases List.mem_append.mp hm with hm | hm
      · exact h.whole m hm hva
      · cases List.mem_singleton.mp hm
        exact ⟨hbase ▸ hr.base_aligned, hsize ▸ hr.size_aligned⟩
    by_cases hg : hasFlag flProtect pageGuard
    · have hm : ∀ a, buf ≤ a → a < buf + total → Mapped eng a := by
        intro a hl hu
        simp [Mapped, hp a, hl, hu]
      obtain ⟨eng', hs, hp'⟩ := WinMemory.setGuardPages_spec
        ⟨{ w.mgr with emuEng := eng, maps := w.mgr.maps ++ [mm] }, w.guardPages⟩
        (winPermsToEmuPerms flProtect) hr.base_aligned hr.size_aligned hm
      simp only [hg, if_true, hs]
      refine ⟨_, rfl, ⟨fun a => ?_, fun p => ?_⟩, ?_, hwhole, ⟨mm, rfl, hbase, hsize, hflags⟩, hfree⟩
      · rw [hp' a, hp a, appliedPerms, if_pos hg]
        split <;> rfl
      · simp only [mem_pageSteps_aligned hr.base_aligned, appliedGuard, if_pos hg]
      · exact hinv.congr rfl (WinMemory.mapped_of_permsAt hp' hm) rfl rfl rfl rfl
    · simp only [hg, Bool.false_eq_true, if_false]
      refine ⟨_, rfl, ⟨fun a => ?_, fun p => ?_⟩, hinv, hwhole, ⟨mm, rfl, hbase, hsize, hflags⟩, hfree⟩
      · rw [appliedPerms, if_neg hg]
        exact hp a
      · rw [appliedGuard, if_neg hg]
        split
        next hr =>
          -- The page was not mapped, so it has no guard page entry yet.
          by_contra hne
          exact hfree p hr.2.1 hr.2.2 (h.guards_mapped p hne)
        next => rfl

end

end Speakeasy
