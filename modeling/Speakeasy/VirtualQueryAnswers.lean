import Speakeasy.WinSessions

namespace Speakeasy

open PageEngine MemoryManager

section

variable {ε : Type}

def Reserved (s : MemoryManager ε) (a : Nat) : Prop := ∃ r ∈ s.memReserves, r.Covers a

instance (s : MemoryManager ε) (a : Nat) : Decidable (Reserved s a) :=
  inferInstanceAs (Decidable (∃ r ∈ s.memReserves, r.Covers a))

def MemoryBasicInformation.Covers (m : MemoryBasicInformation) (a : Nat) : Prop :=
  m.baseAddress ≤ a ∧ a < m.baseAddress + m.regionSize

instance (m : MemoryBasicInformation) (a : Nat) : Decidable (m.Covers a) :=
  inferInstanceAs (Decidable (_ ∧ _))

end

section

variable {ε : Type} [PageEngine ε]

/-- An allocation holds the address, or its page is not mapped. -/
def Accounted (s : MemoryManager ε) (a : Nat) : Prop :=
  Mapped s.emuEng a → ∃ m ∈ s.maps, m.Covers a

instance (s : MemoryManager ε) (a : Nat) : Decidable (Accounted s a) :=
  inferInstanceAs (Decidable (_ → ∃ m ∈ s.maps, m.Covers a))

/-- What `VirtualQuery` says of an address, by the three sources that it reads. -/
inductive Answer (env : WinEnv) (w : WinMemory ε) (a : Nat) (m : MemoryBasicInformation) : Prop
  | commit (r : Region) : Mapped w.mgr.emuEng a → r ∈ memRegions w.mgr.emuEng → r.Covers a →
    m.baseAddress = r.first → m.regionSize = r.last + 1 - r.first → m.state = memCommit →
    Answer env w a m
  | reserve (r : MemMap) : ¬Mapped w.mgr.emuEng a → r ∈ w.mgr.memReserves → r.Covers a →
    m.baseAddress = pageOf a → m.regionSize = r.base + r.size - pageOf a →
    m.state = memReserveState → Answer env w a m
  | free : ¬Mapped w.mgr.emuEng a → ¬Reserved w.mgr a → m.baseAddress = pageOf a →
    m.regionSize = nextStart (pageOf a) (maxApplicationAddress env + 1)
      (w.mgr.maps ++ w.mgr.memReserves) - pageOf a →
    m.state = memFreeState → Answer env w a m

/-- Every page that is mapped begins inside an allocation. -/
theorem MemoryManager.Inv.accounted_of_aligned {s : MemoryManager ε} (h : s.Inv (fun _ => False))
    {a : Nat} (ha : PageAligned a) : Accounted s a := by
  intro hm
  obtain ⟨x, hx, hc⟩ := (h.sound.owned a hm).resolve_right id
  obtain ⟨m, hmem, rfl⟩ := List.mem_map.mp hx
  simp only [Extent.BlockCovers, MemMap.extent] at hc
  rcases h.block_shape m hmem with ⟨hb, hs⟩ | hs
  · exact ⟨m, hmem, by simp only [MemMap.Covers]; omega⟩
  · -- The block of a small allocation is one page, and its first allocation starts it.
    obtain ⟨y, hy, hsame, hbase⟩ := h.sound.headed _ hx
    obtain ⟨n, hn, rfl⟩ := List.mem_map.mp hy
    have hr := (h.block_range m hmem).base_aligned
    have hin := (h.extent_inside hn).1
    refine ⟨n, hn, ?_⟩
    simp only [MemMap.extent, MemMap.Covers, PageAligned, pageSize] at *
    omega

namespace QueryInv

variable {s : MemoryManager ε}

end QueryInv

variable [LawfulPageEngine ε]

end

end Speakeasy
