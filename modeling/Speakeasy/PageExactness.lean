import Speakeasy.ProtectionReports

namespace Speakeasy

open PageEngine MemoryManager

section

variable {address size a : Nat}

end

variable {ε : Type} [PageEngine ε]

/-- Regions have whole pages, so all addresses of a page have the same permissions. -/
theorem permsAt_pageOf [LawfulPageEngine ε] {e : ε} (a : Nat) : permsAt e (pageOf a) = permsAt e a := by
  apply Option.ext
  intro perms
  rw [permsAt_eq_some, permsAt_eq_some]
  have hcovers : ∀ r ∈ memRegions e, (r.Covers (pageOf a) ↔ r.Covers a) := by
    intro r hr
    obtain ⟨hfirst, hlast, _⟩ := LawfulPageEngine.valid e r hr
    simp only [Region.Covers, PageAligned, pageOf, pageSize] at *
    omega
  constructor
  · rintro ⟨r, hr, hcov, hperms⟩
    exact ⟨r, hr, (hcovers r hr).mp hcov, hperms⟩
  · rintro ⟨r, hr, hcov, hperms⟩
    exact ⟨r, hr, (hcovers r hr).mpr hcov, hperms⟩

section

variable {w w' : WinMemory ε} {lpAddress dwSize flNewProtect lpflOldProtect rv n : Nat} {err old : Option Nat}

end

end Speakeasy
