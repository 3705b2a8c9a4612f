import Speakeasy.MemoryRuns
import Speakeasy.FileViewMaps

namespace Speakeasy

open PageEngine MemoryManager

namespace ViewSession

variable {ε : Type} [PageEngine ε] [LawfulPageEngine ε] {outside : Nat → Prop} {env : MemEnv}
  {s : ViewSession ε} {content : Nat → Nat → UInt8}

section

variable {mgr : MemoryManager ε} {m : Nat} {fm : FileMap} {view : MapView} {mm : MemMap}
  (hm : s.mappings[m]? = some fm) (hmgr : mgr.Inv outside) (hmaps : mgr.maps = s.mem.mgr.maps ++ [mm])
  (hbase : mm.base = view.base) (hsize : mm.size = view.size) (hfree : mm.free = false)
  (hpos : 0 < view.size)
include hm hmgr hmaps hbase hsize hfree hpos

omit [LawfulPageEngine ε] in
theorem Placed.fillReady (h : Placed outside s) {data : Option (List UInt8)}
    (hdata : ∀ d ∈ data, d.length ≤ view.size)
    (hfits : MapFits s m mm.shared data.isSome view.base view.offset view.size) :
    FillReady outside (s.allocated mgr m view) ⟨m, view.base, view.offset, view.size⟩ data := by
  have hplaced := h.allocated hm hmgr hmaps hbase hsize hfree
  have hviews : (s.allocated mgr m view).viewsOf m = (fm.addView view).views :=
    viewsOf_addView_self (s := { s with mem := s.mem.remap mgr }) hm view
  have hold : ∀ v ∈ (s.allocated mgr m view).viewsOf m, v.1 ≠ view.base → v ∈ s.viewsOf m := by
    intro v hv hne
    rw [hviews] at hv
    rw [viewsOf_eq hm]
    exact (FileMap.mem_addView_iff hne).mp hv
  have hsame : ∀ w ∈ s.live, w.mapping = m → w.offset = view.offset → w.size = view.size →
      SameRange (s.allocated mgr m view) ⟨m, view.base, view.offset, view.size⟩ w := by
    intro w hw hmap hoff hws
    refine ⟨List.mem_append_left _ hw, ?_, hmap, hoff, hws⟩
    intro heq
    exact h.base_ne hmgr hmaps hbase hw (congrArg LiveView.base heq)
  have hbases := fun b => mem_broadcastBases_allocated (b := b) hm hmgr hmaps hbase hsize hpos
    hfits.unshadowed
  refine ⟨hplaced, List.mem_append_right _ List.mem_cons_self, hpos, hdata, ?_, ?_, ?_⟩
  · intro hwhen b hb
    obtain ⟨hshared, hne, v, hv, hvb⟩ := (hbases b).mp hb
    have hwhen : data.isSome = true ∨
        ∃ v ∈ s.viewsOf m, v.1 ≠ view.base ∧ v.2.size = view.size ∧ v.2.offset = view.offset := by
      rcases hwhen with hdata | ⟨u, hu, huc⟩
      · exact Or.inl hdata
      · exact Or.inr ⟨u, hold u hu huc.1, huc⟩
    obtain ⟨w, hw, hmap, hwb, hoff, hws⟩ := hfits.targets hshared hwhen v hv (hvb ▸ hne)
    exact ⟨w, hsame w hw hmap hoff hws, hwb.trans hvb⟩
  · by_cases hshared : mm.shared = true
    · right
      intro w hw
      have hws : w ∈ s.live := by
        rcases List.mem_append.mp hw.live with hws | hwn
        · exact hws
        · exact absurd (List.mem_singleton.mp hwn) hw.ne
      obtain ⟨view', hview, -⟩ := h.recorded w hws
      have hmap : w.mapping = m := hw.mapping
      rw [hmap] at hview
      exact (hbases _).mpr ⟨hshared, h.base_ne hmgr hmaps hbase hws, _, hview, rfl⟩
    · left
      apply List.eq_nil_iff_forall_not_mem.mpr
      intro b hb
      exact hshared ((hbases b).mp hb).1
  · intro v hv hc
    obtain ⟨w, hw, hmap, hwb, hoff, hws⟩ := hfits.copied v (hold v hv hc.1) hc.1 hc.2.1 hc.2.2
    exact ⟨w, hsame w hw hmap hoff hws, hwb⟩

omit [LawfulPageEngine ε] in
/-- A new view that fits the others shows the contents of its mapping. -/
theorem Placed.returnView (h : Placed outside s) (hr : Reflects content s) {data : Option (List UInt8)}
    (hdata : ∀ d ∈ data, d.length ≤ view.size)
    (hfits : MapFits s m mm.shared data.isSome view.base view.offset view.size) :
    let s' := (returnView m view (({ s with mem := s.mem.remap mgr } : ViewSession ε).fillView m view
      data)).2
    Placed outside s' ∧ ∃ content', Reflects content' s' := by
  have hready := h.fillReady hm hmgr hmaps hbase hsize hfree hpos hdata hfits
  have hplaced := hready.placed
  have hbytes : ∀ v ∈ s.live, ∀ r < v.size,
      (s.allocated mgr m view).mem.bytes (v.base + r) = content v.mapping (v.offset + r) := by
    intro v hv r hlt
    rw [← hr v hv r hlt]
    exact if_neg fun hnew => hnew.2 (h.mapped_byte hv hlt)
  have hold : ∀ {w : LiveView}, w ∈ (s.allocated mgr m view).live →
      w ≠ ⟨m, view.base, view.offset, view.size⟩ → w ∈ s.live := by
    intro w hw hne
    rcases List.mem_append.mp hw with hw | hw
    · exact hw
    · exact absurd (List.mem_singleton.mp hw) hne
  have hstart : view.base = (⟨m, view.base, view.offset, view.size⟩ : LiveView).base := rfl
  obtain ⟨t, bytes, hwrite, hcopy, hothers, hsame⟩ := hready.fill hstart rfl rfl
    (c := fun r => content m (view.offset + r)) (by
      intro w hw r hlt
      rw [hbytes w (hold hw.live hw.ne) r (hw.size ▸ hlt), hw.mapping, hw.offset])
  have hresult : (ViewSession.returnView m view (({ s with mem := s.mem.remap mgr } : ViewSession ε).fillView
      m view data)).2 = { s.allocated mgr m view with mem := ⟨mgr, bytes⟩ } := by
    have hwrite' := writeData_live (s.allocated mgr m view) s.live view data
    rw [hwrite] at hwrite'
    have hcopy' := copyViews_live t s.live view (t.viewsOf m)
    have hcopy : ViewSession.copyViews t view (t.viewsOf m) = _ := hcopy
    rw [hcopy] at hcopy'
    have hadd : ({ s with mem := s.mem.remap mgr } : ViewSession ε).addView m view =
        { s.allocated mgr m view with live := s.live } := rfl
    have hviews : ViewSession.viewsOf { t with live := s.live } m = t.viewsOf m := rfl
    unfold fillView
    rw [hadd, hwrite']
    simp only [hviews, hcopy']
    rfl
  simp only [hresult]
  refine ⟨hplaced.setBytes bytes, fun m' f =>
    if m' = m ∧ view.offset ≤ f ∧ f < view.offset + view.size then bytes (view.base + (f - view.offset))
    else content m' f, ?_⟩
  intro v hv r hlt
  show bytes (v.base + r) = if v.mapping = m ∧ view.offset ≤ v.offset + r ∧
    v.offset + r < view.offset + view.size then bytes (view.base + (v.offset + r - view.offset))
    else content v.mapping (v.offset + r)
  by_cases hnew : v = ⟨m, view.base, view.offset, view.size⟩
  · rw [hnew] at hlt ⊢
    have hlt : r < view.size := hlt
    show bytes (view.base + r) = if m = m ∧ view.offset ≤ view.offset + r ∧
      view.offset + r < view.offset + view.size then bytes (view.base + (view.offset + r - view.offset))
      else content m (view.offset + r)
    rw [if_pos ⟨rfl, by omega, by omega⟩, Nat.add_sub_cancel_left]
  · have hvs := hold hv hnew
    by_cases hrange : v.mapping = m ∧ view.offset ≤ v.offset + r ∧ v.offset + r < view.offset + view.size
    · have hmeets : v.Meets view.offset view.size :=
        LiveView.meets_iff.mpr ⟨v.offset + r, hrange.2, by omega, by omega⟩
      obtain ⟨hoff, hvsize⟩ := hfits.meeting v hvs hrange.1 hmeets
      rw [if_pos hrange, hoff, Nat.add_sub_cancel_left]
      exact hsame v ⟨hv, hnew, hrange.1, hoff, hvsize⟩ r (hvsize ▸ hlt)
    · rw [if_neg hrange, ← hbytes v hvs r hlt]
      apply hothers v hv hnew _ r hlt
      intro hsr
      have hoff : v.offset = view.offset := hsr.offset
      have hvsize : v.size = view.size := hsr.size
      exact hrange ⟨hsr.mapping, by omega, by omega⟩

end

omit [LawfulPageEngine ε] in
theorem placeView_error {m : Nat} {a : ViewArgs} {shared : Bool} {tag : Option PyStr}
    {total base size : Nat} {data : Option (List UInt8)} (hzero : base ≠ 0) {e : MemError}
    {mgr : MemoryManager ε} (hmap : MemoryManager.memMap env s.mem.mgr
      { size := total, base := some base, perms := a.perms, tag := tag, shared := shared } =
        (.error e, mgr)) :
    (s.placeView env m a shared tag total base size data).2 = { s with mem := s.mem.remap mgr } := by
  unfold placeView
  rw [if_neg hzero]
  simp only [hmap]

omit [LawfulPageEngine ε] in
theorem placeView_ok {m : Nat} {a : ViewArgs} {shared : Bool} {tag : Option PyStr}
    {total base size : Nat} {data : Option (List UInt8)} (hzero : base ≠ 0) {buf : Nat}
    {mgr : MemoryManager ε} (hmap : MemoryManager.memMap env s.mem.mgr
      { size := total, base := some base, perms := a.perms, tag := tag, shared := shared } =
        (.ok buf, mgr)) :
    (s.placeView env m a shared tag total base size data).2 =
      (returnView m ⟨buf, a.fullOffset, size, a.access⟩
        (({ s with mem := s.mem.remap mgr } : ViewSession ε).fillView m
          ⟨buf, a.fullOffset, size, a.access⟩ data)).2 := by
  unfold placeView
  rw [if_neg hzero]
  simp only [hmap]

/-- The allocation of a view in the range that was found, or no change. -/
theorem Placed.placeView (h : Placed outside s) (hr : Reflects content s) (he : env.ReservedAligned)
    {m : Nat} {fm : FileMap} (hm : s.mappings[m]? = some fm) {a : ViewArgs} {len : Nat}
    {addr : Option Nat} {base size total : Nat}
    (hrange : getValidRanges env s.mem.mgr len addr = .ok (base, size)) (htotal : pageTotal total = size)
    {shared : Bool} {tag : Option PyStr} {data : Option (List UInt8)} (hdata : ∀ d ∈ data, d.length ≤ size)
    (hfits : base ≠ 0 → MapFits s m shared data.isSome base a.fullOffset size) :
    Placed outside (s.placeView env m a shared tag total base size data).2 ∧
      ∃ content', Reflects content' (s.placeView env m a shared tag total base size data).2 := by
  by_cases hzero : base = 0
  · unfold ViewSession.placeView
    rw [if_pos hzero]
    exact ⟨h, content, hr⟩
  · rcases hmap : MemoryManager.memMap env s.mem.mgr
      { size := total, base := some base, perms := a.perms, tag := tag, shared := shared } with ⟨r, mgr⟩
    have hinv : (MemoryManager.memMap env s.mem.mgr
        { size := total, base := some base, perms := a.perms, tag := tag, shared := shared }).2.Inv
          outside := memMap_inv h.mgr _
    rw [hmap] at hinv
    cases r with
    | error e =>
      rw [placeView_error hzero hmap, memMap_error h.mgr hmap, GuestMemory.remap_self]
      exact ⟨h, content, hr⟩
    | ok buf =>
      obtain ⟨mm, hagain, hmaps, hbuf, hfree, hshared⟩ := memMap_based h.mgr rfl hmap
      obtain ⟨heq, hsize⟩ := getValidRanges_again h.mgr.reserves he htotal hrange hagain
      have hpos : 0 < size := (getValidRanges_spec h.mgr.reserves hrange).1.size_pos
      rw [placeView_ok hzero hmap]
      have hfits := hfits hzero
      rw [← heq] at hfits
      have hstart : mm.base = (⟨buf, a.fullOffset, size, a.access⟩ : MapView).base := hbuf
      exact h.returnView hm hinv hmaps hstart hsize hfree hpos hr hdata (hshared ▸ hfits)

/-- The length of the view that a call asks for. -/
def viewLength (loadPe : LoadPe) (a : ViewArgs) (fm : FileMap) : Nat :=
  match fm.backedFile with
  | some contents =>
    if fm.prot &&& secImage ≠ 0 then ((loadPe (a.fileData contents)).map Prod.fst).getD 0
    else (a.fileData contents).length
  | none => if a.bytesToMap = 0 then fm.size - a.fullOffset else a.bytesToMap

omit [LawfulPageEngine ε] in
theorem getViewRange_cases {baseAddress len base size : Nat}
    (h : s.getViewRange env baseAddress len = .ok (base, size)) :
    base = 0 ∨ ∃ addr, getValidRanges env s.mem.mgr len addr = .ok (base, size) := by
  unfold getViewRange at h
  split at h
  next => exact Or.inr ⟨none, h⟩
  next =>
    split at h
    next b t hb =>
      cases h
      by_cases heq : b = baseAddress
      · rw [if_pos heq]
        exact Or.inr ⟨_, hb⟩
      · rw [if_neg heq]
        exact Or.inl rfl
    next => cases h

/-- The call makes no view, or one that fits the other views of its mapping. -/
def ViewFits (env : MemEnv) (loadPe : LoadPe) (s : ViewSession ε) (a : ViewArgs) : Prop :=
  ∀ m ∈ a.mapping, ∀ fm ∈ s.mappings[m]?, ∀ base size,
    s.getViewRange env a.baseAddress (viewLength loadPe a fm) = .ok (base, size) → base ≠ 0 →
      MapFits s m (!fm.isImage) fm.backedFile.isSome base a.fullOffset size

/-- `pefile` maps at most the size of the image. -/
def PeBounded (loadPe : LoadPe) : Prop :=
  ∀ data size image, loadPe data = some (size, image) → image.length ≤ size

theorem Placed.placeRange (h : Placed outside s) (hr : Reflects content s) (he : env.ReservedAligned)
    {m : Nat} {fm : FileMap} (hm : s.mappings[m]? = some fm) {a : ViewArgs} {len base size : Nat}
    (hrange : s.getViewRange env a.baseAddress len = .ok (base, size)) {total : Nat}
    (htotal : total = len ∨ total = size) {shared : Bool} {tag : Option PyStr}
    {data : Option (List UInt8)} (hdata : ∀ d ∈ data, d.length ≤ len)
    (hfits : base ≠ 0 → MapFits s m shared data.isSome base a.fullOffset size) :
    Placed outside (s.placeView env m a shared tag total base size data).2 ∧
      ∃ content', Reflects content' (s.placeView env m a shared tag total base size data).2 := by
  rcases getViewRange_cases hrange with hzero | ⟨addr, hrange⟩
  · unfold ViewSession.placeView
    rw [if_pos hzero]
    exact ⟨h, content, hr⟩
  · have hsize := getValidRanges_total hrange
    have hle := le_pageTotal len
    apply h.placeView hr he hm hrange _ _ hfits
    · rcases htotal with htotal | htotal
      · rw [htotal, hsize]
      · rw [htotal, hsize, pageTotal_idem]
    · intro d hd
      have := hdata d hd
      omega

/-- A call of `map_view` keeps what the live views show. -/
theorem Placed.mapView (h : Placed outside s) (hr : Reflects content s) (he : env.ReservedAligned)
    {loadPe : LoadPe} (hpe : PeBounded loadPe) {a : ViewArgs} (hfits : ViewFits env loadPe s a) :
    Placed outside (s.mapView env loadPe a).2 ∧
      ∃ content', Reflects content' (s.mapView env loadPe a).2 := by
  unfold ViewSession.mapView
  cases hm : a.mapping with
  | none => exact ⟨h, content, hr⟩
  | some m =>
    cases hfm : s.mappings[m]? with
    | none =>
      simp only [Option.bind_some, hfm, Option.map_none]
      exact ⟨h, content, hr⟩
    | some fm =>
      simp only [Option.bind_some, hfm, Option.map_some]
      have hfits := hfits m hm fm hfm
      split
      next => exact ⟨h, content, hr⟩
      next =>
        unfold viewLength at hfits
        cases hfile : fm.backedFile with
        | some contents =>
          simp only [hfile] at hfits ⊢
          have himage : fm.isImage = decide (fm.prot &&& secImage ≠ 0) := by
            unfold FileMap.isImage
            rw [hfile]
            rfl
          rw [himage] at hfits
          by_cases hprot : fm.prot &&& secImage ≠ 0
          · simp only [if_pos hprot, decide_eq_true hprot] at hfits ⊢
            cases hload : loadPe (a.fileData contents) with
            | none => exact ⟨h, content, hr⟩
            | some pe =>
              obtain ⟨imageSize, mappedImage⟩ := pe
              simp only [hload, Option.map_some, Option.getD_some] at hfits ⊢
              cases hrange : s.getViewRange env a.baseAddress imageSize with
              | error e => exact ⟨h, content, hr⟩
              | ok range =>
                obtain ⟨base, size⟩ := range
                have hfits : base ≠ 0 →
                    MapFits s m false (some mappedImage).isSome base a.fullOffset size :=
                  hfits base size hrange
                apply h.placeRange hr he hfm hrange (Or.inl rfl) _ hfits
                intro d hd
                cases hd
                exact hpe _ _ _ hload
          · simp only [if_neg hprot, decide_eq_false hprot] at hfits ⊢
            cases hrange : s.getViewRange env a.baseAddress (a.fileData contents).length with
            | error e => exact ⟨h, content, hr⟩
            | ok range =>
              obtain ⟨base, size⟩ := range
              have hfits : base ≠ 0 → MapFits s m true (some (a.fileData contents)).isSome base
                  a.fullOffset size := hfits base size hrange
              apply h.placeRange hr he hfm hrange (Or.inr rfl) _ hfits
              intro d hd
              cases hd
              exact Nat.le_refl _
        | none =>
          simp only [hfile] at hfits ⊢
          have himage : fm.isImage = false := by
            unfold FileMap.isImage
            rw [hfile]
            rfl
          rw [himage] at hfits
          cases hrange : s.getViewRange env a.baseAddress
              (if a.bytesToMap = 0 then fm.size - a.fullOffset else a.bytesToMap) with
          | error e => exact ⟨h, content, hr⟩
          | ok range =>
            obtain ⟨base, size⟩ := range
            have hfits : base ≠ 0 → MapFits s m true (none : Option (List UInt8)).isSome base
                a.fullOffset size := hfits base size hrange
            apply h.placeRange hr he hfm hrange (Or.inr rfl) _ hfits
            intro d hd
            cases hd

end ViewSession

namespace ViewSession

variable {ε : Type} [PageEngine ε]

/-- Two live views of one mapping hold equal bytes at equal file offsets. -/
def ViewsAgree (s : ViewSession ε) : Prop :=
  ∀ v ∈ s.live, ∀ w ∈ s.live, v.mapping = w.mapping → ∀ f, v.offset ≤ f → f < v.offset + v.size →
    w.offset ≤ f → f < w.offset + w.size →
      s.mem.bytes (v.base + (f - v.offset)) = s.mem.bytes (w.base + (f - w.offset))

/-- A write at an address in a live view succeeds, and changes live views of its mapping only. -/
def WriteConfined (s : ViewSession ε) (addr : Nat) (data : List UInt8) : Prop :=
  ∀ v ∈ s.live, v.Contains addr → (s.memWrite addr data).1 = .ok () ∧
    ∀ x, (∀ w ∈ s.live, w.mapping = v.mapping → ¬ w.Contains x) →
      (s.memWrite addr data).2.mem.bytes x = s.mem.bytes x

def run (env : MemEnv) (loadPe : LoadPe) (s : ViewSession ε) (ops : List ViewOp) : ViewSession ε :=
  ops.foldl (step env loadPe) s

structure ViewLaw (env : MemEnv) (loadPe : LoadPe) (s : ViewSession ε) (ops : List ViewOp) : Prop where
  agree : ∀ pre, pre <+: ops → ViewsAgree (s.run env loadPe pre)
  confined : ∀ pre addr data, pre ++ [.memWrite addr data] <+: ops →
    WriteConfined (s.run env loadPe pre) addr data

/-- The condition on the state before a step. -/
def StepFits (env : MemEnv) (loadPe : LoadPe) (s : ViewSession ε) : ViewOp → Prop
  | .createMapping .. => True
  | .mapView a => ViewFits env loadPe s a
  | .unmapView _ => True
  | .memOp op => op.ReserveAligned
  | .memWrite addr data => ∃ v ∈ s.live, v.Contains addr ∧ WriteFits s v addr data.length

def RunFits (env : MemEnv) (loadPe : LoadPe) : ViewSession ε → List ViewOp → Prop
  | _, [] => True
  | s, op :: ops => StepFits env loadPe s op ∧ RunFits env loadPe (s.step env loadPe op) ops

/-- The live views are placed, and show the contents of the mappings. -/
def Steady (outside : Nat → Prop) (s : ViewSession ε) : Prop :=
  Placed outside s ∧ ∃ content, Reflects content s

variable {outside : Nat → Prop} {env : MemEnv} {loadPe : LoadPe} {s : ViewSession ε}

theorem Steady.viewsAgree (h : Steady outside s) : ViewsAgree s := by
  obtain ⟨-, content, hr⟩ := h
  intro v hv w hw hmap f hvle hvlt hwle hwlt
  rw [hr v hv (f - v.offset) (by omega), hr w hw (f - w.offset) (by omega), hmap,
    Nat.add_sub_of_le hvle, Nat.add_sub_of_le hwle]

theorem Steady.writeConfined (h : Steady outside s) {addr : Nat} {data : List UInt8}
    (hfits : StepFits env loadPe s (.memWrite addr data)) : WriteConfined s addr data := by
  obtain ⟨hplaced, content, hr⟩ := h
  obtain ⟨w, hw, hwc, hfits⟩ := hfits
  intro v hv hvc
  have heq := hplaced.eq_of_contains hv hw hvc hwc
  obtain ⟨bytes, hwrite, -, hframe⟩ := hfits.write hplaced hr hw hwc
  rw [hwrite, heq]
  exact ⟨rfl, hframe⟩

theorem steady_initial (e : ε) : Steady (Mapped e) (initial e) := by
  refine ⟨⟨inv_init e, ?_, ?_, List.Pairwise.nil⟩, fun _ _ => 0, ?_⟩
  · intro v hv
    cases hv
  · intro v hv
    cases hv
  · intro v hv
    cases hv

variable [LawfulPageEngine ε] (he : env.ReservedAligned) (hpe : PeBounded loadPe)
include he hpe

theorem Steady.step (h : Steady outside s) {op : ViewOp} (hfits : StepFits env loadPe s op) :
    Steady outside (s.step env loadPe op) := by
  obtain ⟨hplaced, content, hr⟩ := h
  cases op with
  | createMapping backedFile size prot => exact ⟨hplaced.createMapping backedFile size prot, content, hr⟩
  | mapView a => exact hplaced.mapView hr he hpe hfits
  | unmapView addr =>
    show Steady outside (s.unmapView env addr).2
    unfold unmapView
    split
    next => exact ⟨hplaced.memOp trivial, content, hr.memOp hplaced _⟩
    next => exact ⟨hplaced, content, hr⟩
  | memOp op => exact ⟨hplaced.memOp hfits, content, hr.memOp hplaced op⟩
  | memWrite addr data =>
    obtain ⟨v, hv, hvc, hfits⟩ := hfits
    obtain ⟨bytes, hwrite, hr', -⟩ := hfits.write hplaced hr hv hvc
    show Steady outside (s.memWrite addr data).2
    rw [hwrite]
    exact ⟨hplaced.setBytes bytes, _, hr'⟩

theorem Steady.viewLaw (h : Steady outside s) {ops : List ViewOp} (hfits : RunFits env loadPe s ops) :
    ViewLaw env loadPe s ops := by
  induction ops generalizing s with
  | nil =>
    refine ⟨?_, ?_⟩
    · intro pre hpre
      rw [List.prefix_nil.mp hpre]
      exact h.viewsAgree
    · intro pre addr data hpre
      have hnil := List.prefix_nil.mp hpre
      exact absurd hnil (List.append_ne_nil_of_right_ne_nil _ (List.cons_ne_nil _ _))
  | cons op ops ih =>
    have hrest := ih (h.step he hpe hfits.1) hfits.2
    refine ⟨?_, ?_⟩
    · intro pre hpre
      cases pre with
      | nil => exact h.viewsAgree
      | cons x pre =>
        obtain ⟨hx, hpre⟩ := List.cons_prefix_cons.mp hpre
        rw [hx]
        exact hrest.agree pre hpre
    · intro pre addr data hpre
      cases pre with
      | nil =>
        obtain ⟨hop, -⟩ := List.cons_prefix_cons.mp hpre
        rw [← hop] at hfits
        exact h.writeConfined hfits.1
      | cons x pre =>
        obtain ⟨hx, hpre⟩ := List.cons_prefix_cons.mp hpre
        rw [hx]
        exact hrest.confined pre addr data hpre

/-- In a run whose steps meet the condition, the live views of a mapping agree and the writes are
confined to them. -/
theorem run_viewLaw (e : ε) {ops : List ViewOp} (hfits : RunFits env loadPe (initial e) ops) :
    ViewLaw env loadPe (initial e) ops :=
  (steady_initial e).viewLaw he hpe hfits

end ViewSession

def wholeView (offset : Nat) : ViewArgs := ⟨some 0, 4, 3, 0, offset, 0x1000, 0⟩

def noPe : LoadPe := fun _ => none

def writeThenShare : List ViewOp :=
  [.createMapping none 0x1000 4, .mapView (wholeView 0), .memWrite 0x10000 [1], .mapView (wholeView 0)]

namespace ViewSession

theorem viewFits_first : ViewFits plainEnv noPe
    ((initial emptyEngine).run plainEnv noPe (writeThenShare.take 1)) (wholeView 0) := by
  intro m hm fm hfm base size hrange hzero
  cases hm
  have hlive : ((initial emptyEngine).run plainEnv noPe (writeThenShare.take 1)).live = [] := by decide
  have hviews : ((initial emptyEngine).run plainEnv noPe (writeThenShare.take 1)).viewsOf 0 = [] := by
    decide
  refine ⟨?_, ?_, ?_, ?_⟩
  · intro _ m' hm'
    exact absurd hm' (Nat.not_lt_zero m')
  · rw [hlive]
    intro w hw
    cases hw
  · rw [hviews]
    intro v hv
    cases hv
  · rw [hviews]
    intro _ _ v hv
    cases hv

theorem writeFits_second : StepFits plainEnv noPe
    ((initial emptyEngine).run plainEnv noPe (writeThenShare.take 2)) (.memWrite 0x10000 [1]) := by
  have hlive : ((initial emptyEngine).run plainEnv noPe (writeThenShare.take 2)).live =
      [⟨0, 0x10000, 0, 0x1000⟩] := by decide
  have hbases : (((initial emptyEngine).run plainEnv noPe (writeThenShare.take 2)).broadcastBases
      0x10000).1 = [] := by decide
  refine ⟨⟨0, 0x10000, 0, 0x1000⟩, ?_, by decide, by decide, ?_, ?_⟩
  · rw [hlive]
    exact List.mem_cons_self
  · rw [hbases]
    intro base hbase
    cases hbase
  · rw [hlive]
    intro w hw _ hne
    exact absurd (List.mem_singleton.mp hw) hne

theorem viewFits_third : ViewFits plainEnv noPe
    ((initial emptyEngine).run plainEnv noPe (writeThenShare.take 3)) (wholeView 0) := by
  intro m hm fm hfm base size hrange hzero
  cases hm
  have hlive : ((initial emptyEngine).run plainEnv noPe (writeThenShare.take 3)).live =
      [⟨0, 0x10000, 0, 0x1000⟩] := by decide
  have hviews : ((initial emptyEngine).run plainEnv noPe (writeThenShare.take 3)).viewsOf 0 =
      [(0x10000, ⟨0x10000, 0, 0x1000, 4⟩)] := by decide
  have hmappings : ((initial emptyEngine).run plainEnv noPe (writeThenShare.take 3)).mappings[0]? =
      some ⟨none, 0x1000, 4, [(0x10000, ⟨0x10000, 0, 0x1000, 4⟩)]⟩ := by decide
  have hfound : ((initial emptyEngine).run plainEnv noPe (writeThenShare.take 3)).getViewRange plainEnv
      0 0x1000 = .ok (0x11000, 0x1000) := by decide +kernel
  rw [hmappings] at hfm
  cases hfm
  obtain ⟨hbase, hsize⟩ := Prod.mk.inj (Except.ok.inj (hfound.symm.trans hrange))
  have hsame : ∀ v ∈ [((0x10000, ⟨0x10000, 0, 0x1000, 4⟩) : Nat × MapView)], ∃ w ∈
      [(⟨0, 0x10000, 0, 0x1000⟩ : LiveView)], w.mapping = 0 ∧ w.base = v.1 ∧ w.offset = 0 ∧
        w.size = 0x1000 := by decide
  rw [← hbase, ← hsize]
  refine ⟨?_, ?_, ?_, ?_⟩
  · intro _ m' hm'
    exact absurd hm' (Nat.not_lt_zero m')
  · rw [hlive]
    intro w hw _ _
    rw [List.mem_singleton.mp hw]
    exact ⟨rfl, rfl⟩
  · rw [hviews, hlive]
    intro v hv _ _ _
    exact hsame v hv
  · rw [hviews, hlive]
    intro _ _ v hv _
    exact hsame v hv

theorem run_viewLaw_writeThenShare : ViewLaw plainEnv noPe (initial emptyEngine) writeThenShare :=
  run_viewLaw (by intro r hr; cases hr) (by intro _ _ _ h; cases h) emptyEngine
    ⟨trivial, viewFits_first, writeFits_second, viewFits_third, trivial⟩

/-- A view of the second page is unmapped before the write in the view of the first page. -/
def unmapThenWrite : List ViewOp :=
  [.createMapping none 0x2000 4, .mapView (wholeView 0), .mapView (wholeView 0x1000),
    .unmapView 0x11000, .memWrite 0x10000 [1]]

theorem run_not_viewLaw : ¬ ViewLaw plainEnv noPe (initial emptyEngine) unmapThenWrite := by
  intro h
  have hlive : ((initial emptyEngine).run plainEnv noPe (unmapThenWrite.take 4)).live =
      [⟨0, 0x10000, 0, 0x1000⟩] := by decide
  have hwrite : (((initial emptyEngine).run plainEnv noPe (unmapThenWrite.take 4)).memWrite
      0x10000 [1]).1 ≠ .ok () := by decide
  apply hwrite
  apply (h.confined (unmapThenWrite.take 4) 0x10000 [1] (List.prefix_refl _) ⟨0, 0x10000, 0, 0x1000⟩ _
    (by decide)).1
  rw [hlive]
  exact List.mem_cons_self

end ViewSession

end Speakeasy
