import Speakeasy.ApiImage

namespace Speakeasy

theorem nextFree_not_mem {fuel candidate : Nat} {used : List Nat}
    (h : (used.filter fun x => candidate ≤ x).length ≤ fuel) :
    nextFree fuel candidate used ∉ used := by
  induction fuel generalizing candidate with
  | zero =>
    intro hmem
    have : candidate ∈ used.filter fun x => candidate ≤ x := by simpa [nextFree] using hmem
    rw [List.length_eq_zero_iff.mp (Nat.le_zero.mp h)] at this
    exact absurd this List.not_mem_nil
  | succ fuel ih =>
    rw [nextFree]
    split
    next hmem =>
      apply ih
      have hlt := List.length_filter_lt_length_iff_exists (l := used.filter fun x => candidate ≤ x)
        (p := fun x => candidate + 1 ≤ x)
      have : ((used.filter fun x => candidate ≤ x).filter fun x => candidate + 1 ≤ x).length <
          (used.filter fun x => candidate ≤ x).length :=
        hlt.mpr ⟨candidate, by simpa using hmem, by simp⟩
      rw [List.filter_filter] at this
      have hsame : (used.filter fun x => decide (candidate + 1 ≤ x) && decide (candidate ≤ x)) =
          used.filter fun x => candidate + 1 ≤ x := by
        apply List.filter_congr
        intro x _
        simp
        omega
      rw [hsame] at this
      omega
    next hmem => exact hmem

/-- What the loop gives: each export in its place, and no ordinal that is not recorded. -/
theorem assignLoop_spec {candidate : Nat} {used used' : List Nat} {specs : List ApiExportSpec}
    {assigned : List (ApiExportSpec × Nat)}
    (h : assignLoop candidate used specs = (assigned, used')) :
    assigned.map Prod.fst = specs ∧ (∀ o ∈ used, o ∈ used') ∧
      (∀ x ∈ assigned, x.1.ordinal = some x.2 ∨ x.2 ∈ used') ∧
      ∀ o ∈ used', o ∈ used ∨ o ∈ assigned.map Prod.snd := by
  induction specs generalizing candidate used assigned used' with
  | nil =>
    cases h
    exact ⟨rfl, fun _ ho => ho, by simp, fun _ ho => Or.inl ho⟩
  | cons spec specs ih =>
    rw [assignLoop] at h
    split at h
    next ordinal hordinal =>
      cases hrest : assignLoop candidate used specs with
      | mk rest final =>
        rw [hrest] at h
        cases h
        obtain ⟨hfst, hkept, hgiven, hfrom⟩ := ih hrest
        refine ⟨by rw [List.map_cons, hfst], hkept, ?_, ?_⟩
        · intro x hx
          rcases List.mem_cons.mp hx with rfl | hx
          · exact Or.inl hordinal
          · exact hgiven x hx
        · intro o ho
          exact (hfrom o ho).imp_right (List.mem_cons_of_mem _)
    next hordinal =>
      cases hrest : assignLoop (nextFree used.length candidate used)
          (nextFree used.length candidate used :: used) specs with
      | mk rest final =>
        simp only [hrest] at h
        cases h
        obtain ⟨hfst, hkept, hgiven, hfrom⟩ := ih hrest
        refine ⟨by rw [List.map_cons, hfst], ?_, ?_, ?_⟩
        · intro o ho
          exact hkept o (List.mem_cons_of_mem _ ho)
        · intro x hx
          rcases List.mem_cons.mp hx with rfl | hx
          · exact Or.inr (hkept _ List.mem_cons_self)
          · exact hgiven x hx
        · intro o ho
          rw [List.map_cons, List.mem_cons]
          rcases hfrom o ho with ho | ho
          · rcases List.mem_cons.mp ho with rfl | ho
            · exact Or.inr (Or.inl rfl)
            · exact Or.inl ho
          · exact Or.inr (Or.inr ho)

/-- An automatic ordinal is no explicit one, and no two exports get the same. -/
theorem assignLoop_fresh {candidate : Nat} {used used' : List Nat} {specs : List ApiExportSpec}
    {assigned : List (ApiExportSpec × Nat)}
    (h : assignLoop candidate used specs = (assigned, used')) :
    (∀ x ∈ assigned, x.1.ordinal = none → x.2 ∉ used) ∧
      (assigned.filter fun x => x.1.ordinal = none).Pairwise fun x y => x.2 ≠ y.2 := by
  induction specs generalizing candidate used assigned used' with
  | nil =>
    cases h
    exact ⟨by simp, List.Pairwise.nil⟩
  | cons spec specs ih =>
    rw [assignLoop] at h
    split at h
    next ordinal hordinal =>
      cases hrest : assignLoop candidate used specs with
      | mk rest final =>
        rw [hrest] at h
        cases h
        obtain ⟨hfresh, hdistinct⟩ := ih hrest
        refine ⟨?_, ?_⟩
        · intro x hx hnone
          rcases List.mem_cons.mp hx with rfl | hx
          · exact absurd (hordinal.symm.trans hnone) (by simp)
          · exact hfresh x hx hnone
        · rw [List.filter_cons_of_neg (by simp [hordinal])]
          exact hdistinct
    next hordinal =>
      have hfree : nextFree used.length candidate used ∉ used :=
        nextFree_not_mem (List.length_filter_le ..)
      cases hrest : assignLoop (nextFree used.length candidate used)
          (nextFree used.length candidate used :: used) specs with
      | mk rest final =>
        simp only [hrest] at h
        cases h
        obtain ⟨hfresh, hdistinct⟩ := ih hrest
        refine ⟨?_, ?_⟩
        · intro x hx hnone
          rcases List.mem_cons.mp hx with rfl | hx
          · exact hfree
          · intro hmem
            exact hfresh x hx hnone (List.mem_cons_of_mem _ hmem)
        · rw [List.filter_cons_of_pos (by simp [hordinal])]
          apply List.Pairwise.cons _ hdistinct
          intro x hx heq
          rw [List.mem_filter, decide_eq_true_iff] at hx
          apply hfresh x hx.1 hx.2
          rw [← heq]
          exact List.mem_cons_self

/-- The dictionary of the targets: one export of each ordinal, and all of one kind. -/
theorem collectTargets_spec {targets targets' : PyDict Nat ApiExportSpec}
    {assigned : List (ApiExportSpec × Nat)} (h : collectTargets targets assigned = .ok targets') :
    (∀ o s, targets.lookup o = some s →
      ∃ s', targets'.lookup o = some s' ∧ s'.kind = s.kind ∧ s'.forwarder = s.forwarder) ∧
    (∀ x ∈ assigned,
      ∃ s', targets'.lookup x.2 = some s' ∧ s'.kind = x.1.kind ∧ s'.forwarder = x.1.forwarder) ∧
    ∀ o s, targets'.lookup o = some s → targets.lookup o = some s ∨ (s, o) ∈ assigned := by
  induction assigned generalizing targets with
  | nil =>
    cases h
    exact ⟨fun o s hs => ⟨s, hs, rfl, rfl⟩, by simp, fun o s hs => Or.inl hs⟩
  | cons x assigned ih =>
    obtain ⟨spec, ordinal⟩ := x
    have hrest : collectTargets (targets.insert ordinal spec) assigned = .ok targets' ∧
        ∀ s, targets.lookup ordinal = some s → spec.kind = s.kind ∧ spec.forwarder = s.forwarder := by
      rw [collectTargets] at h
      split at h
      next hnone =>
        refine ⟨h, fun s hs => ?_⟩
        exact absurd (hnone.symm.trans hs) (by simp)
      next previous hprevious =>
        by_cases hsame : (previous.kind, previous.forwarder) ≠ (spec.kind, spec.forwarder)
        · rw [if_pos hsame] at h
          cases h
        · rw [if_neg hsame] at h
          refine ⟨h, fun s hs => ?_⟩
          have hs : previous = s := Option.some.inj (hprevious.symm.trans hs)
          have := Prod.mk.inj (not_not.mp hsame)
          rw [← hs, this.1, this.2]
          exact ⟨rfl, rfl⟩
    obtain ⟨hkept, hgiven, hfrom⟩ := ih hrest.1
    have hhere := hkept ordinal spec (AList.lookup_insert _)
    refine ⟨?_, ?_, ?_⟩
    · intro o s hs
      by_cases ho : o = ordinal
      · subst ho
        obtain ⟨s', hs', hkind, hforwarder⟩ := hhere
        have := hrest.2 s hs
        exact ⟨s', hs', hkind.trans this.1, hforwarder.trans this.2⟩
      · exact hkept o s (by rw [AList.lookup_insert_ne ho, hs])
    · intro y hy
      rcases List.mem_cons.mp hy with rfl | hy
      · exact hhere
      · exact hgiven y hy
    · intro o s hs
      rcases hfrom o s hs with hs | hs
      · by_cases ho : o = ordinal
        · subst ho
          rw [AList.lookup_insert] at hs
          cases hs
          exact Or.inr List.mem_cons_self
        · rw [AList.lookup_insert_ne ho] at hs
          exact Or.inl hs
      · exact Or.inr (List.mem_cons_of_mem _ hs)

namespace ExportLayout

structure Valid (l : ExportLayout) (specs : List ApiExportSpec) : Prop where
  specs_eq : l.assigned.map Prod.fst = specs
  names_eq : l.names = (specs.filterMap ApiExportSpec.name).dedup
  range : ∀ x ∈ l.assigned, l.ordinalBase ≤ x.2 ∧ x.2 < l.ordinalBase + l.span
  span_le : l.span ≤ 0x10000
  targeted : ∀ x ∈ l.assigned,
    ∃ s, l.targets.lookup x.2 = some s ∧ s.kind = x.1.kind ∧ s.forwarder = x.1.forwarder
  target_mem : ∀ o s, l.targets.lookup o = some s → (s, o) ∈ l.assigned

theorem ofSpecs_valid {specs : List ApiExportSpec} {l : ExportLayout} (h : ofSpecs specs = .ok l) :
    l.Valid specs := by
  unfold ofSpecs at h
  cases hassigned : assignLoop 1 (specs.filterMap ApiExportSpec.ordinal) specs with
  | mk assigned used =>
    rw [hassigned] at h
    obtain ⟨hfst, hkept, hgiven, hfrom⟩ := assignLoop_spec hassigned
    by_cases hspan : (if used = [] then 0 else used.max?.getD 0 - used.min?.getD 1 + 1) > 0x10000 ∨
        (specs.filterMap ApiExportSpec.name).dedup.length > 0x10000
    · simp only [if_pos hspan] at h
      cases h
    · simp only [if_neg hspan] at h
      cases htargets : collectTargets ∅ assigned with
      | error e =>
        rw [htargets] at h
        cases h
      | ok targets =>
        rw [htargets] at h
        cases h
        obtain ⟨-, htargeted, hmem⟩ := collectTargets_spec htargets
        have hused : ∀ x ∈ assigned, x.2 ∈ used := by
          intro x hx
          rcases hgiven x hx with hx' | hx'
          · apply hkept
            rw [List.mem_filterMap]
            exact ⟨x.1, hfst ▸ List.mem_map_of_mem hx, hx'⟩
          · exact hx'
        refine ⟨hfst, rfl, ?_, not_lt.mp fun hlt => hspan (Or.inl hlt), htargeted, ?_⟩
        · intro x hx
          have hx := hused x hx
          have hne : used ≠ [] := List.ne_nil_of_mem hx
          have hmin : used.min?.getD 1 ≤ x.2 := by
            cases hmin : used.min? with
            | none => exact absurd (List.min?_eq_none_iff.mp hmin) hne
            | some m => exact (List.min?_eq_some_iff.mp hmin).2 x.2 hx
          have hmax : x.2 ≤ used.max?.getD 0 := by
            cases hmax : used.max? with
            | none => exact absurd (List.max?_eq_none_iff.mp hmax) hne
            | some m => exact (List.max?_eq_some_iff.mp hmax).2 x.2 hx
          simp only [if_neg hne]
          omega
        · intro o s hs
          exact (hmem o s hs).resolve_left (by simp)

end ExportLayout

section

@[simp] theorem asciiBytes_length (s : PyStr) : (asciiBytes s).length = s.length := List.length_map ..

theorem mem_sortedTargets {targets : PyDict Nat ApiExportSpec} {x : Nat × ApiExportSpec} :
    x ∈ sortedTargets targets ↔ targets.lookup x.1 = some x.2 := by
  simp only [sortedTargets, List.mem_filterMap, List.mem_insertionSort, Option.map_eq_some_iff]
  constructor
  · rintro ⟨o, -, s, hs, rfl⟩
    exact hs
  · intro h
    exact ⟨x.1, AList.lookup_isSome.mp (by rw [h]; rfl), x.2, h, rfl⟩

theorem sortedTargets_pairwise (targets : PyDict Nat ApiExportSpec) :
    (sortedTargets targets).Pairwise fun x y => x.1 ≠ y.1 := by
  have hnodup : (targets.keys.insertionSort (· ≤ ·)).Nodup :=
    (List.perm_insertionSort (· ≤ ·) targets.keys).nodup_iff.mpr targets.nodupKeys
  apply List.Pairwise.filterMap _ _ hnodup
  intro o o' hne x hx y hy
  obtain ⟨s, -, rfl⟩ := Option.map_eq_some_iff.mp hx
  obtain ⟨s', -, rfl⟩ := Option.map_eq_some_iff.mp hy
  exact hne

/-- A string with its zero, in the bytes from `lo` on. -/
structure StringAt (edataRva lo : Nat) (edata : ByteBuffer) (rva : Nat) (value : PyStr) : Prop where
  ascii : IsAscii value
  le : edataRva + lo ≤ rva
  end_le : rva + value.length + 1 ≤ edataRva + edata.size
  read : edata.bytes.readBytes (rva - edataRva) (value.length + 1) = asciiBytes value ++ [0]

section

variable {κ : Type} [DecidableEq κ] {edataRva lo : Nat} {edata edata' : ByteBuffer}

theorem StringAt.mono {rva : Nat} {value : PyStr} (h : StringAt edataRva lo edata rva value)
    (he : edata.Extends edata') : StringAt edataRva lo edata' rva value where
  ascii := h.ascii
  le := h.le
  end_le := h.end_le.trans (Nat.add_le_add_left he.size_le _)
  read := by
    have := h.le
    have := h.end_le
    rw [he.read _ _ (by omega), h.read]

theorem StringAt.lower {rva lo' : Nat} {value : PyStr} (h : StringAt edataRva lo edata rva value)
    (hlo : lo' ≤ lo) : StringAt edataRva lo' edata rva value :=
  ⟨h.ascii, (Nat.add_le_add_left hlo _).trans h.le, h.end_le, h.read⟩

theorem stringAt_extend {value : PyStr} (h : IsAscii value) :
    StringAt edataRva edata.size (edata.extend (asciiBytes value ++ [0])) (edataRva + edata.size)
      value where
  ascii := h
  le := Nat.le_refl _
  end_le := by
    simp
    omega
  read := by
    have hlen : (asciiBytes value ++ [0]).length = value.length + 1 := by simp
    rw [Nat.add_sub_cancel_left, ← hlen]
    exact ByteMemory.readBytes_writeBytes_self _ _ _

/-- Every key has the RVA of a string that it came with. -/
theorem stringRvas_spec {rvas rvas' : PyDict κ Nat} {strings : List (κ × PyStr)}
    (h : stringRvas edataRva edata rvas strings = .ok (rvas', edata')) :
    edata.Extends edata' ∧
      (∀ key, (rvas.lookup key).isSome → (rvas'.lookup key).isSome) ∧
      (∀ x ∈ strings, (rvas'.lookup x.1).isSome) ∧
      ∀ key rva, rvas'.lookup key = some rva → rvas.lookup key = some rva ∨
        ∃ value, (key, value) ∈ strings ∧ StringAt edataRva edata.size edata' rva value := by
  induction strings generalizing edata rvas with
  | nil =>
    cases h
    exact ⟨.refl _, fun _ hk => hk, fun _ hx => absurd hx List.not_mem_nil, fun _ _ hr => Or.inl hr⟩
  | cons x strings ih =>
    obtain ⟨key, value⟩ := x
    rw [stringRvas, encodeAscii] at h
    by_cases hascii : IsAscii value
    · rw [if_pos hascii] at h
      obtain ⟨hext, hkept, hall, hfrom⟩ := ih h
      have hext' := ByteBuffer.extends_extend edata (asciiBytes value ++ [0])
      have hkept' : ∀ key', key' = key ∨ (rvas.lookup key').isSome → (rvas'.lookup key').isSome := by
        intro key' hkey
        apply hkept
        by_cases heq : key' = key
        · rw [heq, AList.lookup_insert]
          rfl
        · rw [AList.lookup_insert_ne heq]
          exact hkey.resolve_left heq
      refine ⟨hext'.trans hext, fun key' hkey => hkept' key' (Or.inr hkey), ?_, ?_⟩
      · intro x hx
        rcases List.mem_cons.mp hx with rfl | hx
        · exact hkept' _ (Or.inl rfl)
        · exact hall x hx
      · intro key' rva hrva
        rcases hfrom key' rva hrva with hrva | ⟨value', hmem, hat⟩
        · by_cases heq : key' = key
          · subst heq
            rw [AList.lookup_insert] at hrva
            cases hrva
            exact Or.inr ⟨value, List.mem_cons_self, (stringAt_extend hascii).mono hext⟩
          · rw [AList.lookup_insert_ne heq] at hrva
            exact Or.inl hrva
        · exact Or.inr ⟨value', List.mem_cons_of_mem _ hmem, hat.lower hext'.size_le⟩
    · rw [if_neg hascii] at h
      cases h

theorem stringRvas_lookup {rvas' : PyDict κ Nat} {strings : List (κ × PyStr)}
    (h : stringRvas edataRva edata ∅ strings = .ok (rvas', edata'))
    (hsame : ∀ x ∈ strings, ∀ y ∈ strings, x.1 = y.1 → x.2 = y.2) {x : κ × PyStr}
    (hx : x ∈ strings) :
    ∃ rva, rvas'.lookup x.1 = some rva ∧ StringAt edataRva edata.size edata' rva x.2 := by
  obtain ⟨-, -, hall, hfrom⟩ := stringRvas_spec h
  obtain ⟨rva, hrva⟩ := Option.isSome_iff_exists.mp (hall x hx)
  rcases hfrom x.1 rva hrva with hnone | ⟨value, hmem, hat⟩
  · simp at hnone
  · have : value = x.2 := hsame _ hmem x hx rfl
    exact ⟨rva, hrva, this ▸ hat⟩

end

namespace ExportLayout

def tablesSize (l : ExportLayout) : Nat := 40 + l.span * 4 + l.names.length * 6

theorem mem_forwarders {l : ExportLayout} {x : Nat × PyStr} :
    x ∈ l.forwarders ↔ ∃ s, l.targets.lookup x.1 = some s ∧ s.forwarder = some x.2 := by
  simp only [forwarders, List.mem_filterMap, Option.map_eq_some_iff]
  constructor
  · rintro ⟨y, hy, f, hf, rfl⟩
    exact ⟨y.2, mem_sortedTargets.mp hy, hf⟩
  · rintro ⟨s, hs, hf⟩
    exact ⟨(x.1, s), mem_sortedTargets.mpr hs, x.2, hf, rfl⟩

end ExportLayout

namespace ExportStrings

/-- The strings lie behind the tables, whose bytes are zero, and before the end of the directory. -/
structure Valid (l : ExportLayout) (s : ExportStrings) : Prop where
  size_le : s.exportSize ≤ s.edata.size
  tables_le : l.tablesSize ≤ s.exportSize
  zero : ∀ a count, a + count ≤ l.tablesSize →
    s.edata.bytes.readBytes a count = List.replicate count 0
  name : ∀ x ∈ l.named, ∃ rva, s.nameRvas.lookup x.1 = some rva ∧
    StringAt l.edataRva l.tablesSize s.edata rva x.1
  forwarder : ∀ x ∈ l.forwarders, ∃ rva, s.forwardRvas.lookup x.1 = some rva ∧
    StringAt l.edataRva l.tablesSize s.edata rva x.2 ∧
      rva + x.2.length + 1 ≤ l.edataRva + s.exportSize

theorem exportStrings_valid {l : ExportLayout} {name : PyStr} {s : ExportStrings}
    (h : exportStrings l name = .ok s) (hne : l.assigned ≠ []) : s.Valid l := by
  unfold exportStrings at h
  cases hdll : dllString l name with
  | error e => rw [hdll] at h; cases h
  | ok dll =>
  obtain ⟨dllRva, edata⟩ := dll
  rw [hdll] at h
  simp only at h
  cases hnames : stringRvas l.edataRva edata ∅ (l.named.map fun x => (x.1, x.1)) with
  | error e => rw [hnames] at h; cases h
  | ok names =>
  obtain ⟨nameRvas, edata'⟩ := names
  rw [hnames] at h
  simp only at h
  cases hforwards : stringRvas l.edataRva edata' ∅ l.forwarders with
  | error e => rw [hforwards] at h; cases h
  | ok forwards =>
  obtain ⟨forwardRvas, edata''⟩ := forwards
  rw [hforwards] at h
  cases h
  have hdll : (ByteBuffer.filled l.tablesSize 0).Extends edata := by
    rw [dllString, if_neg hne] at hdll
    simp only at hdll
    cases hencode : encodeAscii (dllName name) with
    | error e => rw [hencode] at hdll; cases hdll
    | ok bytes =>
      rw [hencode] at hdll
      cases hdll
      exact ByteBuffer.extends_extend _ _
  have hext := (stringRvas_spec hnames).1
  have hext' := (stringRvas_spec hforwards).1
  have hpad := ByteBuffer.extends_extend edata''
    (List.replicate (alignPage (max 1 edata''.size) - edata''.size) 0)
  have htables : l.tablesSize ≤ edata.size := hdll.size_le
  refine ⟨hpad.size_le, (htables.trans hext.size_le).trans hext'.size_le, ?_, ?_, ?_⟩
  · intro a count ha
    rw [(((hdll.trans hext).trans hext').trans hpad).read a count ha, ByteBuffer.readBytes_filled]
  · intro x hx
    obtain ⟨rva, hrva, hat⟩ := stringRvas_lookup hnames (by
      intro y hy z hz
      obtain ⟨v, -, rfl⟩ := List.mem_map.mp hy
      obtain ⟨w, -, rfl⟩ := List.mem_map.mp hz
      exact fun heq => heq) (List.mem_map_of_mem (f := fun x : PyStr × Nat => (x.1, x.1)) hx)
    exact ⟨rva, hrva, ((hat.lower htables).mono hext').mono hpad⟩
  · intro x hx
    obtain ⟨rva, hrva, hat⟩ := stringRvas_lookup hforwards (by
      intro y hy z hz heq
      obtain ⟨s, hs, hy⟩ := ExportLayout.mem_forwarders.mp hy
      obtain ⟨s', hs', hz⟩ := ExportLayout.mem_forwarders.mp hz
      rw [← heq, hs] at hs'
      cases hs'
      exact Option.some.inj (hy.symm.trans hz)) hx
    exact ⟨rva, hrva, (hat.lower (htables.trans hext.size_le)).mono hpad, hat.end_le⟩

end ExportStrings

end

end Speakeasy
