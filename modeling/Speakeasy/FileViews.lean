import Speakeasy.FileMapping

namespace Speakeasy

section

open PageEngine MemoryManager

namespace MemoryManager

variable {ε : Type} [PageEngine ε] {outside : Nat → Prop} {s : MemoryManager ε}

/-- No other allocation holds the address. -/
theorem Inv.getAddressMap_eq (h : s.Inv outside) {m : MemMap} (hm : m ∈ s.maps) {a : Nat}
    (ha : m.Covers a) : s.getAddressMap a = some m := by
  have hsome : (s.getAddressMap a).isSome := by
    unfold getAddressMap
    rw [List.find?_isSome]
    exact ⟨m, hm, decide_eq_true ha⟩
  obtain ⟨mm, hmm⟩ := Option.isSome_iff_exists.mp hsome
  obtain ⟨hmem, hcovers⟩ := mem_of_getAddressMap hmm
  have hsymm : Std.Symm fun m n : MemMap => ∀ a, ¬(m.Covers a ∧ n.Covers a) :=
    ⟨fun _ _ hne a hboth => hne a ⟨hboth.2, hboth.1⟩⟩
  by_contra hne
  have hother : mm ≠ m := fun heq => hne (heq ▸ hmm)
  exact h.maps_apart.forall hmem hm hother a ⟨hcovers, ha⟩

end MemoryManager

namespace ViewSession

variable {ε : Type} [PageEngine ε]

/-- Each live view has an allocation of its own, and its mapping records it. -/
structure Placed (outside : Nat → Prop) (s : ViewSession ε) : Prop where
  mgr : s.mem.mgr.Inv outside
  mapped : ∀ v ∈ s.live, ∃ m ∈ s.mem.mgr.maps, m.base = v.base ∧ m.size = v.size ∧ m.free = false
  recorded : ∀ v ∈ s.live, ∃ view, (v.base, view) ∈ s.viewsOf v.mapping ∧ view.offset = v.offset ∧
    view.size = v.size
  distinct : s.live.Pairwise fun v w => v.base ≠ w.base

variable {outside : Nat → Prop} {s : ViewSession ε}

theorem Placed.eq_of_base (h : Placed outside s) {v w : LiveView} (hv : v ∈ s.live) (hw : w ∈ s.live)
    (heq : v.base = w.base) : v = w := by
  have hsymm : Std.Symm fun v w : LiveView => v.base ≠ w.base := ⟨fun _ _ hne => hne.symm⟩
  by_contra hne
  exact h.distinct.forall hv hw hne heq

theorem Placed.eq_of_contains (h : Placed outside s) {v w : LiveView} (hv : v ∈ s.live)
    (hw : w ∈ s.live) {a : Nat} (hva : v.Contains a) (hwa : w.Contains a) : v = w := by
  obtain ⟨m, hm, hmb, hms, -⟩ := h.mapped v hv
  obtain ⟨n, hn, hnb, hns, -⟩ := h.mapped w hw
  apply h.eq_of_base hv hw
  by_contra hne
  rw [← hmb, ← hnb] at hne
  have hapart := h.mgr.apart_of_base_ne hm hn hne
  unfold LiveView.Contains at hva hwa
  omega

theorem Placed.rangeMapped (h : Placed outside s) {v : LiveView} (hv : v ∈ s.live) {a size : Nat}
    (hle : v.base ≤ a) (hend : a + size ≤ v.base + v.size) : s.mem.RangeMapped a size := by
  obtain ⟨m, hm, hmb, hms, -⟩ := h.mapped v hv
  intro i hi
  apply h.mgr.covers_mapped hm
  constructor
  · omega
  · omega

theorem writeEach_ok {g : GuestMemory ε} {data : List UInt8} {addrs : List Nat}
    (h : ∀ a ∈ addrs, g.RangeMapped a data.length) :
    writeEach g data addrs =
      (.ok (), { g with bytes := g.bytes.writeAll (addrs.map fun a => (a, data)) }) := by
  induction addrs generalizing g with
  | nil => rfl
  | cons a addrs ih =>
    have hfirst := h a List.mem_cons_self
    have hrest := fun b hb => h b (List.mem_cons_of_mem _ hb)
    unfold writeEach GuestMemory.memWrite
    rw [if_pos hfirst]
    exact ih hrest

/-- All copies of a write lie at the same offset in their views. -/
theorem Placed.writeAddrs_eq (h : Placed outside s) {v : LiveView} (hv : v ∈ s.live) {addr : Nat}
    (hc : v.Contains addr) :
    s.writeAddrs addr =
      ((s.broadcastBases addr).1 ++ [v.base]).map fun base => base + (addr - v.base) := by
  obtain ⟨m, hm, hmb, hms, -⟩ := h.mapped v hv
  have hcovers : m.Covers addr := by
    unfold LiveView.Contains at hc
    constructor
    · omega
    · omega
  have hmap := h.mgr.getAddressMap_eq hm hcovers
  have hself : v.base + (addr - v.base) = addr := Nat.add_sub_of_le hc.1
  have hoffset : (s.broadcastBases addr).1 ≠ [] → (s.broadcastBases addr).2 = addr - v.base := by
    intro hne
    unfold broadcastBases at hne ⊢
    rw [hmap] at hne ⊢
    simp only at hne ⊢
    split at hne
    next hshared =>
      rw [if_pos hshared]
      split at hne
      next =>
        rw [hmb]
      next => exact absurd rfl hne
    next => exact absurd rfl hne
  unfold writeAddrs
  rw [List.map_append, List.map_singleton, hself]
  cases hbases : (s.broadcastBases addr).1 with
  | nil => rfl
  | cons base bases =>
    rw [hoffset (by rw [hbases]; exact List.cons_ne_nil _ _)]

/-- The view is the one that holds the address, or one to which the write is copied. -/
def Reached (s : ViewSession ε) (v : LiveView) (addr : Nat) (w : LiveView) : Prop :=
  w = v ∨ w.base ∈ (s.broadcastBases addr).1

/-- What a write in a live view changes when it is copied to live views only. -/
theorem Placed.memWrite (h : Placed outside s) {v : LiveView} (hv : v ∈ s.live) {addr : Nat}
    (hc : v.Contains addr) {data : List UInt8} (hend : addr + data.length ≤ v.base + v.size)
    (htargets : ∀ base ∈ (s.broadcastBases addr).1, ∃ w ∈ s.live, w.base = base ∧
      addr - v.base + data.length ≤ w.size) :
    ∃ bytes, s.memWrite addr data = (.ok (), { s with mem := ⟨s.mem.mgr, bytes⟩ }) ∧
      (∀ w ∈ s.live, ∀ r < w.size, Reached s v addr w → addr - v.base ≤ r →
        r < addr - v.base + data.length →
        bytes (w.base + r) = data.getD (r - (addr - v.base)) 0) ∧
      (∀ w ∈ s.live, ∀ r < w.size, (Reached s v addr w → r < addr - v.base ∨
        addr - v.base + data.length ≤ r) → bytes (w.base + r) = s.mem.bytes (w.base + r)) ∧
      ∀ x, (∀ w ∈ s.live, Reached s v addr w → ¬ w.Contains x) → bytes x = s.mem.bytes x := by
  have haddrs := h.writeAddrs_eq hv hc
  -- Each copy lies inside the live view at its base.
  have hcopy : ∀ a ∈ s.writeAddrs addr, ∃ w ∈ s.live, Reached s v addr w ∧
      a = w.base + (addr - v.base) ∧ addr - v.base + data.length ≤ w.size := by
    intro a ha
    rw [haddrs] at ha
    obtain ⟨base, hbase, hab⟩ := List.mem_map.mp ha
    rcases List.mem_append.mp hbase with hbase | hbase
    · obtain ⟨w, hw, hwb, hfits⟩ := htargets base hbase
      refine ⟨w, hw, Or.inr (hwb ▸ hbase), ?_, hfits⟩
      rw [hwb]
      exact hab.symm
    · rw [List.mem_singleton.mp hbase] at hab
      have := hc.1
      exact ⟨v, hv, Or.inl rfl, hab.symm, by omega⟩
  have hmapped : ∀ a ∈ s.writeAddrs addr, s.mem.RangeMapped a data.length := by
    intro a ha
    obtain ⟨w, hw, -, hab, hfits⟩ := hcopy a ha
    exact h.rangeMapped hw (by omega) (by omega)
  have hcontains : ∀ a ∈ s.writeAddrs addr, ∀ x, a ≤ x → x < a + data.length →
      ∃ w ∈ s.live, Reached s v addr w ∧ w.Contains x ∧ a = w.base + (addr - v.base) := by
    intro a ha x hle hlt
    obtain ⟨w, hw, hreached, hab, hfits⟩ := hcopy a ha
    exact ⟨w, hw, hreached, ⟨by omega, by omega⟩, hab⟩
  refine ⟨s.mem.bytes.writeAll ((s.writeAddrs addr).map fun a => (a, data)), ?_, ?_, ?_, ?_⟩
  · unfold ViewSession.memWrite
    rw [writeEach_ok hmapped]
  · intro w hw r hr hreached hle hlt
    have hmem : w.base + (addr - v.base) ∈ s.writeAddrs addr := by
      rw [haddrs]
      apply List.mem_map_of_mem
      rcases hreached with hwv | hbase
      · rw [hwv]
        exact List.mem_append_right _ List.mem_cons_self
      · exact List.mem_append_left _ hbase
    have hone : ∀ b ∈ s.writeAddrs addr, b ≤ w.base + r → w.base + r < b + data.length →
        b = w.base + (addr - v.base) := by
      intro b hb hble hblt
      obtain ⟨u, hu, -, hux, hbu⟩ := hcontains b hb _ hble hblt
      rw [h.eq_of_contains hw hu (a := w.base + r) ⟨by omega, by omega⟩ hux]
      exact hbu
    rw [ByteMemory.writeAll_const hmem (by omega) (by omega) hone]
    congr 1
    omega
  · intro w hw r hr hout
    apply ByteMemory.writeAll_outside
    intro x hx
    obtain ⟨a, ha, hax⟩ := List.mem_map.mp hx
    rw [← hax]
    show w.base + r < a ∨ a + data.length ≤ w.base + r
    by_contra hover
    obtain ⟨u, hu, hreached, hux, hau⟩ := hcontains a ha (w.base + r) (by omega) (by omega)
    have hwu := h.eq_of_contains hw hu (a := w.base + r) ⟨by omega, by omega⟩ hux
    rw [← hwu] at hreached hau
    have := hout hreached
    omega
  · intro x hx
    apply ByteMemory.writeAll_outside
    intro y hy
    obtain ⟨a, ha, hay⟩ := List.mem_map.mp hy
    rw [← hay]
    show x < a ∨ a + data.length ≤ x
    by_contra hover
    obtain ⟨w, hw, hreached, hwx, -⟩ := hcontains a ha x (by omega) (by omega)
    exact hx w hw hreached hwx

end ViewSession

end

section

open PageEngine MemoryManager

theorem LiveView.meets_iff {v : LiveView} {offset size : Nat} :
    v.Meets offset size ↔ ∃ f, (offset ≤ f ∧ f < offset + size) ∧ v.offset ≤ f ∧ f < v.offset + v.size := by
  unfold LiveView.Meets
  constructor
  · intro h
    exact ⟨max offset v.offset, by omega, by omega⟩
  · intro ⟨f, hf, hv⟩
    omega

namespace ViewSession

variable {ε : Type} [PageEngine ε] {outside : Nat → Prop} {s : ViewSession ε}

/-- Another live view of the same range of the same mapping. -/
structure SameRange (s : ViewSession ε) (n w : LiveView) : Prop where
  live : w ∈ s.live
  ne : w ≠ n
  mapping : w.mapping = n.mapping
  offset : w.offset = n.offset
  size : w.size = n.size

/-- The recorded view is copied to the new one. -/
def Copied (n : LiveView) (v : Nat × MapView) : Prop :=
  v.1 ≠ n.base ∧ v.2.size = n.size ∧ v.2.offset = n.offset

theorem Placed.setBytes (h : Placed outside s) (bytes : ByteMemory) :
    Placed outside { s with mem := ⟨s.mem.mgr, bytes⟩ } :=
  ⟨h.mgr, h.mapped, h.recorded, h.distinct⟩

theorem getD_readBytes {m : ByteMemory} {a size r : Nat} (hr : r < size) :
    (m.readBytes a size).getD r 0 = m (a + r) := by
  unfold ByteMemory.readBytes
  simp [hr]

section

variable {n : LiveView} (hn : n ∈ s.live) (hpos : 0 < n.size)
include hn hpos

/-- Writing to the new view what the others hold changes the new view only. -/
theorem Placed.copyOne (h : Placed outside s) {c : Nat → UInt8}
    (htargets : ∀ base ∈ (s.broadcastBases n.base).1, ∃ w, SameRange s n w ∧ w.base = base)
    (hsame : ∀ w, SameRange s n w → ∀ r < n.size, s.mem.bytes (w.base + r) = c r) {w : LiveView}
    (hw : SameRange s n w) :
    s.mem.memRead w.base n.size = .ok (s.mem.bytes.readBytes w.base n.size) ∧
    ∃ bytes, s.memWrite n.base (s.mem.bytes.readBytes w.base n.size) =
        (.ok (), { s with mem := ⟨s.mem.mgr, bytes⟩ }) ∧
      (∀ u ∈ s.live, u ≠ n → ∀ r < u.size, bytes (u.base + r) = s.mem.bytes (u.base + r)) ∧
      ∀ r < n.size, bytes (n.base + r) = c r := by
  have hmapped : s.mem.RangeMapped w.base n.size :=
    h.rangeMapped hw.live (Nat.le_refl _) (by rw [hw.size])
  have hcontains : n.Contains n.base := ⟨Nat.le_refl _, by omega⟩
  have hlength := ByteMemory.readBytes_length s.mem.bytes w.base n.size
  have hinside : n.base + (s.mem.bytes.readBytes w.base n.size).length ≤ n.base + n.size := by
    rw [hlength]
  obtain ⟨bytes, hwrite, hin, hout, -⟩ := h.memWrite hn hcontains hinside (by
    intro base hbase
    obtain ⟨u, hu, hub⟩ := htargets base hbase
    refine ⟨u, hu.live, hub, ?_⟩
    rw [hlength, hu.size]
    omega)
  rw [hlength] at hin hout
  have hread : ∀ r < n.size, bytes (n.base + r) = c r := by
    intro r hr
    rw [hin n hn r hr (Or.inl rfl) (by omega) (by omega), Nat.sub_self, Nat.sub_zero,
      getD_readBytes hr]
    exact hsame w hw r hr
  refine ⟨if_pos hmapped, bytes, hwrite, ?_, hread⟩
  intro u hu hun r hr
  by_cases hreached : Reached s n n.base u
  · have hsameu : SameRange s n u := by
      obtain ⟨x, hx, hxb⟩ := htargets u.base (hreached.resolve_left hun)
      rw [← h.eq_of_base hx.live hu hxb]
      exact hx
    have hr : r < n.size := hsameu.size ▸ hr
    rw [hin u hu r (hsameu.size ▸ hr) hreached (by omega) (by omega), Nat.sub_self, Nat.sub_zero,
      getD_readBytes hr, hsame w hw r hr, hsame u hsameu r hr]
  · exact hout u hu r hr fun hr => absurd hr hreached

/-- The loop over the recorded views: the new view has the bytes of the others, or nothing is copied. -/
theorem Placed.copyViews (h : Placed outside s) {c : Nat → UInt8} {view : MapView}
    (hbase : view.base = n.base) (hsize : view.size = n.size) (hoffset : view.offset = n.offset)
    (views : List (Nat × MapView))
    (htargets : (∃ v ∈ views, Copied n v) →
      ∀ base ∈ (s.broadcastBases n.base).1, ∃ w, SameRange s n w ∧ w.base = base)
    (hcopied : ∀ v ∈ views, Copied n v → ∃ w, SameRange s n w ∧ w.base = v.1)
    (hsame : ∀ w, SameRange s n w → ∀ r < n.size, s.mem.bytes (w.base + r) = c r) :
    ∃ bytes, s.copyViews view views = (.ok (), { s with mem := ⟨s.mem.mgr, bytes⟩ }) ∧
      (∀ u ∈ s.live, u ≠ n → ∀ r < u.size, bytes (u.base + r) = s.mem.bytes (u.base + r)) ∧
      ((∃ v ∈ views, Copied n v) → ∀ r < n.size, bytes (n.base + r) = c r) ∧
      ((∀ r < n.size, s.mem.bytes (n.base + r) = c r) → ∀ r < n.size, bytes (n.base + r) = c r) := by
  induction views generalizing s with
  | nil =>
    refine ⟨s.mem.bytes, rfl, fun _ _ _ _ _ => rfl, ?_, fun hc => hc⟩
    intro ⟨v, hv, _⟩
    cases hv
  | cons v views ih =>
    obtain ⟨base, view'⟩ := v
    unfold ViewSession.copyViews
    rw [hbase, hsize, hoffset]
    by_cases hcopy : base ≠ n.base ∧ view'.size = n.size ∧ view'.offset = n.offset
    · rw [if_pos hcopy]
      have hmem : (base, view') ∈ (base, view') :: views := List.mem_cons_self
      obtain ⟨w, hw, hwb⟩ := hcopied _ hmem hcopy
      have hwb : w.base = base := hwb
      have htargets := htargets ⟨_, hmem, hcopy⟩
      obtain ⟨hread, bytes, hwrite, hothers, hnew⟩ := h.copyOne hn hpos htargets hsame hw
      rw [← hwb, hread]
      simp only [hwrite]
      have hsame' : ∀ u, SameRange { s with mem := ⟨s.mem.mgr, bytes⟩ } n u → ∀ r < n.size,
          bytes (u.base + r) = c r := by
        intro u hu r hr
        have hu : SameRange s n u := ⟨hu.live, hu.ne, hu.mapping, hu.offset, hu.size⟩
        rw [hothers u hu.live hu.ne r (hu.size ▸ hr)]
        exact hsame u hu r hr
      obtain ⟨bytes', hrest, hothers', -, hkeep⟩ := ih (s := { s with mem := ⟨s.mem.mgr, bytes⟩ })
        hn (h.setBytes bytes)
        (by
          intro _ b hb
          obtain ⟨u, hu, hub⟩ := htargets b hb
          exact ⟨u, ⟨hu.live, hu.ne, hu.mapping, hu.offset, hu.size⟩, hub⟩)
        (by
          intro u hu huc
          obtain ⟨x, hx, hxb⟩ := hcopied u (List.mem_cons_of_mem _ hu) huc
          exact ⟨x, ⟨hx.live, hx.ne, hx.mapping, hx.offset, hx.size⟩, hxb⟩) hsame'
      refine ⟨bytes', hrest, ?_, fun _ => hkeep hnew, fun _ => hkeep hnew⟩
      intro u hu hun r hr
      exact (hothers' u hu hun r hr).trans (hothers u hu hun r hr)
    · rw [if_neg hcopy]
      obtain ⟨bytes, hrest, hothers, hnew, hkeep⟩ := ih hn h
        (fun ⟨u, hu, huc⟩ => htargets ⟨u, List.mem_cons_of_mem _ hu, huc⟩)
        (fun u hu huc => hcopied u (List.mem_cons_of_mem _ hu) huc) hsame
      refine ⟨bytes, hrest, hothers, ?_, hkeep⟩
      intro ⟨u, hu, huc⟩
      rcases List.mem_cons.mp hu with heq | hu
      · rw [heq] at huc
        exact absurd huc hcopy
      · exact hnew ⟨u, hu, huc⟩

end

/-- A new view, which is live and recorded, with what the call is to copy to it and from it. -/
structure FillReady (outside : Nat → Prop) (s : ViewSession ε) (n : LiveView)
    (data : Option (List UInt8)) : Prop where
  placed : Placed outside s
  live : n ∈ s.live
  pos : 0 < n.size
  fits : ∀ d ∈ data, d.length ≤ n.size
  targets : data.isSome ∨ (∃ v ∈ s.viewsOf n.mapping, Copied n v) →
    ∀ base ∈ (s.broadcastBases n.base).1, ∃ w, SameRange s n w ∧ w.base = base
  all : (s.broadcastBases n.base).1 = [] ∨
    ∀ w, SameRange s n w → w.base ∈ (s.broadcastBases n.base).1
  copied : ∀ v ∈ s.viewsOf n.mapping, Copied n v → ∃ w, SameRange s n w ∧ w.base = v.1

/-- The other views of the range are among the views that are copied. -/
theorem Placed.sameRange_copied (h : Placed outside s) {n w : LiveView} (hn : n ∈ s.live)
    (hw : SameRange s n w) : ∃ v ∈ s.viewsOf n.mapping, Copied n v := by
  obtain ⟨view, hview, hoffset, hsize⟩ := h.recorded w hw.live
  rw [hw.mapping] at hview
  refine ⟨_, hview, ?_, hsize.trans hw.size, hoffset.trans hw.offset⟩
  exact fun heq => hw.ne (h.eq_of_base hw.live hn heq)

/-- The file data reaches the other views of the range together, or none of them. -/
theorem FillReady.writeData {n : LiveView} {data : Option (List UInt8)} (h : FillReady outside s n data)
    {view : MapView} (hbase : view.base = n.base) {c : Nat → UInt8}
    (hsame : ∀ w, SameRange s n w → ∀ r < n.size, s.mem.bytes (w.base + r) = c r) :
    ∃ (bytes : ByteMemory) (c' : Nat → UInt8), s.writeData view data = (.ok (), { s with mem := ⟨s.mem.mgr, bytes⟩ }) ∧
      (∀ u ∈ s.live, u ≠ n → ¬ SameRange s n u →
        ∀ r < u.size, bytes (u.base + r) = s.mem.bytes (u.base + r)) ∧
      ∀ w, SameRange s n w → ∀ r < n.size, bytes (w.base + r) = c' r := by
  cases data with
  | none => exact ⟨s.mem.bytes, c, rfl, fun _ _ _ _ _ _ => rfl, hsame⟩
  | some d =>
    have hpos := h.pos
    have hfits := h.fits d rfl
    have hcontains : n.Contains n.base := ⟨Nat.le_refl _, by omega⟩
    have htargets := h.targets (Or.inl rfl)
    have hinside : n.base + d.length ≤ n.base + n.size := by omega
    obtain ⟨bytes, hwrite, hin, hout, -⟩ := h.placed.memWrite h.live hcontains hinside (by
      intro base hb
      obtain ⟨w, hw, hwb⟩ := htargets base hb
      refine ⟨w, hw.live, hwb, ?_⟩
      rw [hw.size]
      omega)
    have hwrite' : s.writeData view (some d) = (.ok (), { s with mem := ⟨s.mem.mgr, bytes⟩ }) := by
      show s.memWrite view.base d = _
      rw [hbase, hwrite]
    have hothers : ∀ u ∈ s.live, u ≠ n → ¬ SameRange s n u →
        ∀ r < u.size, bytes (u.base + r) = s.mem.bytes (u.base + r) := by
      intro u hu hun hnot r hr
      apply hout u hu r hr
      intro hreached
      obtain ⟨w, hw, hwb⟩ := htargets u.base (hreached.resolve_left hun)
      exact absurd (h.placed.eq_of_base hw.live hu hwb ▸ hw) hnot
    rcases h.all with hnone | hall
    · refine ⟨bytes, c, hwrite', hothers, ?_⟩
      intro w hw r hr
      rw [← hsame w hw r hr]
      apply hout w hw.live r (hw.size ▸ hr)
      intro hreached
      have := hreached.resolve_left hw.ne
      rw [hnone] at this
      cases this
    · refine ⟨bytes, fun r => if r < d.length then d.getD r 0 else c r, hwrite', hothers, ?_⟩
      intro w hw r hr
      show _ = if r < d.length then d.getD r 0 else c r
      by_cases hlt : r < d.length
      · rw [if_pos hlt, hin w hw.live r (hw.size ▸ hr) (Or.inr (hall w hw)) (by omega) (by omega),
          Nat.sub_self, Nat.sub_zero]
      · rw [if_neg hlt, ← hsame w hw r hr]
        exact hout w hw.live r (hw.size ▸ hr) fun _ => by omega

/-- After the call the new view and the others of its range hold the same bytes, and no other live view
has changed. -/
theorem FillReady.fill {n : LiveView} {data : Option (List UInt8)} (h : FillReady outside s n data)
    {view : MapView} (hbase : view.base = n.base) (hsize : view.size = n.size)
    (hoffset : view.offset = n.offset) {c : Nat → UInt8}
    (hsame : ∀ w, SameRange s n w → ∀ r < n.size, s.mem.bytes (w.base + r) = c r) :
    ∃ t bytes, s.writeData view data = (.ok (), t) ∧
      t.copyViews view (t.viewsOf n.mapping) = (.ok (), { s with mem := ⟨s.mem.mgr, bytes⟩ }) ∧
      (∀ u ∈ s.live, u ≠ n → ¬ SameRange s n u →
        ∀ r < u.size, bytes (u.base + r) = s.mem.bytes (u.base + r)) ∧
      ∀ w, SameRange s n w → ∀ r < n.size, bytes (w.base + r) = bytes (n.base + r) := by
  obtain ⟨bytes, c', hwrite, hothers, hsame'⟩ := h.writeData hbase hsame
  have hiff : ∀ w, SameRange { s with mem := ⟨s.mem.mgr, bytes⟩ } n w ↔ SameRange s n w :=
    fun w => ⟨fun hw => ⟨hw.live, hw.ne, hw.mapping, hw.offset, hw.size⟩,
      fun hw => ⟨hw.live, hw.ne, hw.mapping, hw.offset, hw.size⟩⟩
  obtain ⟨bytes', hcopy, hothers', hnew, -⟩ := (h.placed.setBytes bytes).copyViews
    (s := { s with mem := ⟨s.mem.mgr, bytes⟩ }) (n := n) h.live h.pos hbase hsize hoffset (s.viewsOf n.mapping)
    (by
      intro hc base hb
      obtain ⟨w, hw, hwb⟩ := h.targets (Or.inr hc) base hb
      exact ⟨w, (hiff w).mpr hw, hwb⟩)
    (by
      intro v hv hc
      obtain ⟨w, hw, hwb⟩ := h.copied v hv hc
      exact ⟨w, (hiff w).mpr hw, hwb⟩)
    (fun w hw => hsame' w ((hiff w).mp hw))
  refine ⟨_, bytes', hwrite, hcopy, ?_, ?_⟩
  · intro u hu hun hnot r hr
    exact (hothers' u hu hun r hr).trans (hothers u hu hun hnot r hr)
  · intro w hw r hr
    rw [hothers' w hw.live hw.ne r (hw.size ▸ hr)]
    show bytes (w.base + r) = _
    rw [hsame' w hw r hr, hnew (h.placed.sameRange_copied h.live hw) r hr]

end ViewSession

end

end Speakeasy
