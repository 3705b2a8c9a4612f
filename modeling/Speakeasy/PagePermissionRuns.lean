import Speakeasy.ApiRegistry
import Speakeasy.WinSessions
import Mathlib.Data.List.Sort

namespace Speakeasy

open PageEngine

/-- Adjacent pages with the same permissions. -/
structure PageRun where
  base : Nat
  size : Nat
  perms : Nat
deriving DecidableEq

/-- The pages of a run, each with its permissions. -/
def PageRun.pages (pageSize : Nat) (r : PageRun) : List (Nat × Nat) :=
  (List.range (r.size / pageSize)).map fun i => (r.base + i * pageSize, r.perms)

/-- One turn of the loop of `get_page_protection_runs`. -/
def addPage (pageSize : Nat) (runs : List PageRun) (page : Nat × Nat) : List PageRun :=
  match runs.getLast? with
  | some run =>
    if run.perms = page.2 ∧ run.base + run.size = page.1 then
      runs.dropLast ++ [⟨run.base, run.size + pageSize, page.2⟩]
    else runs ++ [⟨page.1, pageSize, page.2⟩]
  | none => runs ++ [⟨page.1, pageSize, page.2⟩]

/-- The pages of a dictionary in ascending order. -/
def sortedPages (pagePerms : PyDict Nat Nat) : List (Nat × Nat) :=
  (pagePerms.keys.insertionSort (· ≤ ·)).map fun base => (base, (pagePerms.lookup base).getD 0)

def getPageProtectionRuns (pagePerms : PyDict Nat Nat) (pageSize : Nat) : List PageRun :=
  (sortedPages pagePerms).foldl (addPage pageSize) []

/-- The runs say what the pages are: in ascending order, apart, no two that could be one, and page by page. -/
structure RunsOf (pageSize : Nat) (pages : List (Nat × Nat)) (runs : List PageRun) : Prop where
  whole : ∀ r ∈ runs, ∃ n, 0 < n ∧ r.size = n * pageSize
  ordered : runs.Pairwise fun r s => r.base + r.size ≤ s.base
  maximal : runs.Pairwise fun r s => r.base + r.size = s.base → r.perms ≠ s.perms
  expand : runs.flatMap (PageRun.pages pageSize) = pages

section Runs

variable {pageSize : Nat} {pages rest : List (Nat × Nat)} {runs : List PageRun} {page : Nat × Nat}

theorem pages_single (hsize : 0 < pageSize) (page : Nat × Nat) :
    PageRun.pages pageSize ⟨page.1, pageSize, page.2⟩ = [page] := by
  show (List.range (pageSize / pageSize)).map _ = _
  rw [Nat.div_self hsize]
  show [(page.1 + 0 * pageSize, page.2)] = _
  rw [Nat.zero_mul, Nat.add_zero]

theorem pages_extend (hsize : 0 < pageSize) {base n perms : Nat} :
    PageRun.pages pageSize ⟨base, n * pageSize + pageSize, perms⟩ =
      PageRun.pages pageSize ⟨base, n * pageSize, perms⟩ ++ [(base + n * pageSize, perms)] := by
  have hn : n * pageSize / pageSize = n := Nat.mul_div_cancel n hsize
  have hn' : (n * pageSize + pageSize) / pageSize = n + 1 := by rw [Nat.add_div_right _ hsize, hn]
  unfold PageRun.pages
  simp only
  rw [hn, hn', List.range_succ, List.map_append]
  rfl

/-- The last page of a run is one of the pages. -/
theorem RunsOf.last_mem (h : RunsOf pageSize pages runs) (hsize : 0 < pageSize) {r : PageRun} (hr : r ∈ runs) :
    ∃ p ∈ pages, p.1 + pageSize = r.base + r.size := by
  obtain ⟨n, hn, hrsize⟩ := h.whole r hr
  obtain ⟨k, rfl⟩ := Nat.exists_eq_succ_of_ne_zero (show n ≠ 0 by omega)
  refine ⟨(r.base + k * pageSize, r.perms), ?_, ?_⟩
  · rw [← h.expand, List.mem_flatMap]
    refine ⟨r, hr, List.mem_map.mpr ⟨k, ?_, rfl⟩⟩
    rw [hrsize, Nat.mul_div_cancel _ hsize]
    exact List.mem_range.mpr (Nat.lt_succ_self k)
  · rw [hrsize, Nat.succ_mul, Nat.add_assoc]

/-- A page behind all others begins a run of its own. -/
theorem RunsOf.append (h : RunsOf pageSize pages runs) (hsize : 0 < pageSize)
    (hbefore : ∀ p ∈ pages, p.1 + pageSize ≤ page.1)
    (hlast : ∀ run ∈ runs.getLast?, ¬(run.perms = page.2 ∧ run.base + run.size = page.1)) :
    RunsOf pageSize (pages ++ [page]) (runs ++ [⟨page.1, pageSize, page.2⟩]) where
  whole r hr := by
    rcases List.mem_append.mp hr with hr | hr
    · exact h.whole r hr
    · rw [List.mem_singleton.mp hr]
      exact ⟨1, Nat.one_pos, (Nat.one_mul _).symm⟩
  ordered := by
    apply List.pairwise_append.mpr ⟨h.ordered, List.pairwise_singleton _ _, ?_⟩
    intro r hr s hs
    obtain ⟨p, hp, hend⟩ := h.last_mem hsize hr
    have hle := hbefore p hp
    rw [List.mem_singleton.mp hs]
    show r.base + r.size ≤ page.1
    omega
  maximal := by
    apply List.pairwise_append.mpr ⟨h.maximal, List.pairwise_singleton _ _, ?_⟩
    intro r hr s hs
    rw [List.mem_singleton.mp hs]
    show r.base + r.size = page.1 → r.perms ≠ page.2
    intro hend hperms
    rcases List.eq_nil_or_concat runs with hnil | ⟨init, run, hruns⟩
    · rw [hnil] at hr
      cases hr
    · have hget : runs.getLast? = some run := by rw [hruns, List.concat_eq_append, List.getLast?_concat]
      rw [hruns, List.concat_eq_append, List.mem_append, List.mem_singleton] at hr
      rcases hr with hr | rfl
      · have hord := h.ordered
        rw [hruns, List.concat_eq_append] at hord
        have hle := (List.pairwise_append.mp hord).2.2 r hr run (List.mem_singleton_self run)
        have hrun : run ∈ runs := List.mem_of_getLast? hget
        obtain ⟨n, hn, hrsize⟩ := h.whole run hrun
        obtain ⟨p, hp, hpend⟩ := h.last_mem hsize hrun
        have hbound := hbefore p hp
        have hpos : 0 < run.size := by
          rw [hrsize]
          exact Nat.mul_pos hn hsize
        omega
      · exact hlast r hget ⟨hperms, hend⟩
  expand := by
    rw [List.flatMap_append, h.expand, List.flatMap_singleton, pages_single hsize]

/-- A page that the last run ends at, with its permissions, becomes part of it. -/
theorem RunsOf.extend {init : List PageRun} {run : PageRun} (h : RunsOf pageSize pages (init ++ [run]))
    (hsize : 0 < pageSize) (hperms : run.perms = page.2) (hend : run.base + run.size = page.1) :
    RunsOf pageSize (pages ++ [page]) (init ++ [⟨run.base, run.size + pageSize, page.2⟩]) where
  whole r hr := by
    rcases List.mem_append.mp hr with hr | hr
    · exact h.whole r (List.mem_append_left _ hr)
    · obtain ⟨n, -, hrsize⟩ := h.whole run (List.mem_append_right _ (List.mem_singleton_self run))
      rw [List.mem_singleton.mp hr]
      exact ⟨n + 1, Nat.succ_pos n, by rw [hrsize, Nat.succ_mul]⟩
  ordered := by
    obtain ⟨hinit, -, hcross⟩ := List.pairwise_append.mp h.ordered
    apply List.pairwise_append.mpr ⟨hinit, List.pairwise_singleton _ _, ?_⟩
    intro r hr s hs
    rw [List.mem_singleton.mp hs]
    exact hcross r hr run (List.mem_singleton_self run)
  maximal := by
    obtain ⟨hinit, -, hcross⟩ := List.pairwise_append.mp h.maximal
    apply List.pairwise_append.mpr ⟨hinit, List.pairwise_singleton _ _, ?_⟩
    intro r hr s hs
    rw [List.mem_singleton.mp hs, ← hperms]
    exact hcross r hr run (List.mem_singleton_self run)
  expand := by
    obtain ⟨n, -, hrsize⟩ := h.whole run (List.mem_append_right _ (List.mem_singleton_self run))
    have hpages := h.expand
    rw [List.flatMap_append, List.flatMap_singleton] at hpages
    have hrun : run = ⟨run.base, n * pageSize, page.2⟩ := by rw [← hrsize, ← hperms]
    have hpage : (run.base + n * pageSize, page.2) = page := by rw [← hrsize, hend]
    rw [List.flatMap_append, List.flatMap_singleton, ← hpages, hrsize, pages_extend hsize, hpage, ← hrun,
      List.append_assoc]

/-- What one turn of the loop keeps. -/
theorem RunsOf.addPage (h : RunsOf pageSize pages runs) (hsize : 0 < pageSize)
    (hbefore : ∀ p ∈ pages, p.1 + pageSize ≤ page.1) :
    RunsOf pageSize (pages ++ [page]) (addPage pageSize runs page) := by
  unfold Speakeasy.addPage
  cases hlast : runs.getLast? with
  | none => exact h.append hsize hbefore fun run hrun => by rw [hlast] at hrun; cases hrun
  | some run =>
    simp only
    split
    next hjoin =>
      have hruns : runs = runs.dropLast ++ [run] := (List.dropLast_append_getLast? run hlast).symm
      rw [hruns] at h
      exact h.extend hsize hjoin.1 hjoin.2
    next hjoin =>
      refine h.append hsize hbefore fun run' hrun' => ?_
      rw [hlast] at hrun'
      cases hrun'
      exact hjoin

/-- What the whole loop keeps. -/
theorem RunsOf.foldl (hsize : 0 < pageSize) (h : RunsOf pageSize pages runs)
    (hapart : (pages ++ rest).Pairwise fun p q => p.1 + pageSize ≤ q.1) :
    RunsOf pageSize (pages ++ rest) (rest.foldl (Speakeasy.addPage pageSize) runs) := by
  induction rest generalizing pages runs with
  | nil =>
    rw [List.append_nil]
    exact h
  | cons page rest ih =>
    have hcross := (List.pairwise_append.mp hapart).2.2
    have hnext := h.addPage hsize fun p hp => hcross p hp page List.mem_cons_self
    have hassoc : pages ++ page :: rest = (pages ++ [page]) ++ rest := by simp
    rw [hassoc] at hapart ⊢
    exact ih hnext hapart

end Runs

section Dictionary

variable {pageSize : Nat} {pagePerms : PyDict Nat Nat}

theorem aligned_apart {p q : Nat} (hp : p % pageSize = 0) (hq : q % pageSize = 0) (hlt : p < q) : p + pageSize ≤ q := by
  obtain ⟨i, rfl⟩ := Nat.dvd_of_mod_eq_zero hp
  obtain ⟨j, rfl⟩ := Nat.dvd_of_mod_eq_zero hq
  have hij : i < j := Nat.lt_of_mul_lt_mul_left hlt
  have hle := Nat.mul_le_mul_left pageSize hij
  rwa [Nat.mul_succ] at hle

theorem sortedPages_apart (hkeys : ∀ p ∈ pagePerms, p % pageSize = 0) :
    (sortedPages pagePerms).Pairwise fun p q => p.1 + pageSize ≤ q.1 := by
  have hperm := List.perm_insertionSort (· ≤ ·) pagePerms.keys
  have hnodup : (pagePerms.keys.insertionSort (· ≤ ·)).Nodup := hperm.nodup_iff.mpr pagePerms.nodupKeys
  have hsorted : (pagePerms.keys.insertionSort (· ≤ ·)).Pairwise (· ≤ ·) :=
    List.pairwise_insertionSort (· ≤ ·) pagePerms.keys
  unfold sortedPages
  rw [List.pairwise_map]
  apply List.Pairwise.imp_of_mem _ (hsorted.and hnodup)
  intro p q hp hq hpq
  have hmem : ∀ x ∈ pagePerms.keys.insertionSort (· ≤ ·), x ∈ pagePerms :=
    fun x hx => AList.mem_keys.mpr (hperm.mem_iff.mp hx)
  exact aligned_apart (hkeys p (hmem p hp)) (hkeys q (hmem q hq)) (Nat.lt_of_le_of_ne hpq.1 hpq.2)

theorem mem_sortedPages {p perms : Nat} : (p, perms) ∈ sortedPages pagePerms ↔ pagePerms.lookup p = some perms := by
  unfold sortedPages
  rw [List.mem_map]
  constructor
  · rintro ⟨q, hq, heq⟩
    cases heq
    have hmem : p ∈ pagePerms := AList.mem_keys.mpr ((List.perm_insertionSort (· ≤ ·) pagePerms.keys).mem_iff.mp hq)
    obtain ⟨v, hv⟩ := Option.isSome_iff_exists.mp (AList.lookup_isSome.mpr hmem)
    rw [hv]
    rfl
  · intro hlookup
    have hmem : p ∈ pagePerms := AList.lookup_isSome.mp (by rw [hlookup]; rfl)
    refine ⟨p, (List.perm_insertionSort (· ≤ ·) pagePerms.keys).mem_iff.mpr (AList.mem_keys.mp hmem), ?_⟩
    rw [hlookup]
    rfl

theorem runsOf_getPageProtectionRuns (hsize : 0 < pageSize) (hkeys : ∀ p ∈ pagePerms, p % pageSize = 0) :
    RunsOf pageSize (sortedPages pagePerms) (getPageProtectionRuns pagePerms pageSize) := by
  have hstart : RunsOf pageSize [] [] := ⟨fun _ hr => absurd hr List.not_mem_nil, List.Pairwise.nil, List.Pairwise.nil, rfl⟩
  have hrun := @RunsOf.foldl pageSize [] (sortedPages pagePerms) [] hsize hstart (sortedPages_apart hkeys)
  exact hrun

end Dictionary

section Image

variable {ε : Type} [PageEngine ε]

/-- The pages of a section: `range(start, end, self.page_size)`. -/
def sectionPages (base : Nat) (section' : SectionEntry) : List Nat :=
  pageSteps (pageOf (base + section'.virtualAddress)) (pageUp (base + section'.virtualAddress + section'.virtualSize))

def addSectionPages (base : Nat) (pagePerms : PyDict Nat Nat) (section' : SectionEntry) : PyDict Nat Nat :=
  (sectionPages base section').foldl
    (fun d page => d.insert page ((d.lookup page).getD 0 ||| section'.perms)) pagePerms

def protectHeaders (e : ε) (base firstRva : Nat) : Except UcError ε :=
  if firstRva ≠ 0 then EmuEngine.memProtect e base (pageUp firstRva) permMemRead else pure e

def imageRuns (base : Nat) (sections : List SectionEntry) : List PageRun :=
  getPageProtectionRuns (sections.foldl (addSectionPages base) ∅) pageSize

/-- The protection of the sections in `_load_image`. -/
def protectSections (e : ε) (base : Nat) (sections : List SectionEntry) (isShellcode : Bool) : Except UcError ε :=
  if sections ≠ [] ∧ isShellcode = false then do
    let e ← protectHeaders e base (((sections.map SectionEntry.virtualAddress).min?).getD 0)
    (imageRuns base sections).foldlM (fun e r => EmuEngine.memProtect e r.base r.size r.perms) e
  else pure e

/-- A section and a page overlap. -/
def SectionEntry.Touches (base : Nat) (section' : SectionEntry) (page : Nat) : Prop :=
  page < base + section'.virtualAddress + section'.virtualSize ∧ base + section'.virtualAddress < page + pageSize

instance (base : Nat) (section' : SectionEntry) (page : Nat) : Decidable (section'.Touches base page) :=
  inferInstanceAs (Decidable (_ ∧ _))

/-- The permissions of the sections that touch a page, together. -/
def unionPerms (base : Nat) (sections : List SectionEntry) (page : Nat) : Nat :=
  (sections.filter fun s => s.Touches base page).foldl (fun perms s => perms ||| s.perms) 0

theorem mem_sectionPages {base page : Nat} {section' : SectionEntry} :
    page ∈ sectionPages base section' ↔ PageAligned page ∧ section'.Touches base page := by
  unfold sectionPages SectionEntry.Touches
  rw [mem_pageSteps]
  simp only [pageUp, pageOf, pageSize, PageAligned]
  omega

theorem sectionPages_nodup (base : Nat) (section' : SectionEntry) : (sectionPages base section').Nodup := by
  unfold sectionPages pageSteps
  apply List.Nodup.map _ List.nodup_range
  intro i j hij
  simp only [pageSize] at hij
  omega

theorem lookup_insertPages {pages : List Nat} (hnodup : pages.Nodup) (d : PyDict Nat Nat) (perms page : Nat) :
    (pages.foldl (fun d page => d.insert page ((d.lookup page).getD 0 ||| perms)) d).lookup page =
      if page ∈ pages then some ((d.lookup page).getD 0 ||| perms) else d.lookup page := by
  induction pages generalizing d with
  | nil => rfl
  | cons p pages ih =>
    obtain ⟨hp, hnodup⟩ := List.nodup_cons.mp hnodup
    rw [List.foldl_cons, ih hnodup]
    by_cases heq : page = p
    · rw [heq, if_neg hp, if_pos List.mem_cons_self, AList.lookup_insert]
    · rw [AList.lookup_insert_ne heq]
      have hmem : page ∈ p :: pages ↔ page ∈ pages := by simp [heq]
      simp only [hmem]

/-- What the loop over the sections gives a page. -/
theorem lookup_addSections {base page : Nat} (hpage : PageAligned page) (sections : List SectionEntry)
    (d : PyDict Nat Nat) :
    (sections.foldl (addSectionPages base) d).lookup page =
      if ∃ s ∈ sections, s.Touches base page then
        some ((sections.filter fun s => s.Touches base page).foldl (fun perms s => perms ||| s.perms)
          ((d.lookup page).getD 0))
      else d.lookup page := by
  induction sections generalizing d with
  | nil => simp
  | cons s sections ih =>
    have hone : (addSectionPages base d s).lookup page =
        if s.Touches base page then some ((d.lookup page).getD 0 ||| s.perms) else d.lookup page := by
      rw [addSectionPages, lookup_insertPages (sectionPages_nodup base s)]
      simp only [mem_sectionPages, hpage, true_and]
    rw [List.foldl_cons, ih, hone]
    by_cases hs : s.Touches base page
    · rw [if_pos hs, if_pos (show ∃ t ∈ s :: sections, t.Touches base page from ⟨s, List.mem_cons_self, hs⟩),
        List.filter_cons_of_pos (by simpa using hs), List.foldl_cons, Option.getD_some]
      split
      next => rfl
      next hnone =>
        have hempty : sections.filter (fun t => decide (t.Touches base page)) = [] := by
          rw [List.filter_eq_nil_iff]
          intro t ht htouch
          exact hnone ⟨t, ht, of_decide_eq_true htouch⟩
        rw [hempty]
        rfl
    · have hiff : (∃ t ∈ s :: sections, t.Touches base page) ↔ ∃ t ∈ sections, t.Touches base page := by simp [hs]
      rw [if_neg hs, List.filter_cons_of_neg (by simpa using hs)]
      simp only [hiff]

theorem aligned_of_mem_addSections {base page : Nat} (sections : List SectionEntry) (d : PyDict Nat Nat)
    (hd : ∀ p ∈ d, PageAligned p) (h : page ∈ sections.foldl (addSectionPages base) d) : PageAligned page := by
  induction sections generalizing d with
  | nil => exact hd page h
  | cons s sections ih =>
    refine ih (addSectionPages base d s) ?_ h
    intro p hp
    have hsome : ((addSectionPages base d s).lookup p).isSome := AList.lookup_isSome.mpr hp
    rw [addSectionPages, lookup_insertPages (sectionPages_nodup base s)] at hsome
    split at hsome
    next hmem => exact (mem_sectionPages.mp hmem).1
    next => exact hd p (AList.lookup_isSome.mp hsome)

variable [LawfulPageEngine ε] {e : ε}

/-- Protecting ranges that are apart gives each its permissions and leaves the rest. -/
theorem protectRuns_spec {runs : List PageRun} (hrange : ∀ r ∈ runs, PageRange r.base r.size)
    (hordered : runs.Pairwise fun r s => r.base + r.size ≤ s.base)
    (hmapped : ∀ r ∈ runs, ∀ a, r.base ≤ a → a < r.base + r.size → Mapped e a) :
    ∃ e', runs.foldlM (fun e r => EmuEngine.memProtect e r.base r.size r.perms) e = .ok e' ∧
      (∀ r ∈ runs, ∀ a, r.base ≤ a → a < r.base + r.size → permsAt e' a = some (ucPerms r.perms)) ∧
      ∀ a, (∀ r ∈ runs, ¬(r.base ≤ a ∧ a < r.base + r.size)) → permsAt e' a = permsAt e a := by
  induction runs generalizing e with
  | nil => exact ⟨e, rfl, fun _ hr => absurd hr List.not_mem_nil, fun _ _ => rfl⟩
  | cons r runs ih =>
    obtain ⟨hr, hrest⟩ := List.pairwise_cons.mp hordered
    have hown := hmapped r List.mem_cons_self
    obtain ⟨e₁, he₁, hperms⟩ := LawfulPageEngine.memProtect_exact e (ucPerms r.perms) (hrange r List.mem_cons_self) hown
    have hmapped' : ∀ s ∈ runs, ∀ a, s.base ≤ a → a < s.base + s.size → Mapped e₁ a := by
      intro s hs a hlo hhi
      rw [WinMemory.mapped_of_permsAt hperms hown]
      exact hmapped s (List.mem_cons_of_mem _ hs) a hlo hhi
    obtain ⟨e', he', hin, hout⟩ := ih (fun s hs => hrange s (List.mem_cons_of_mem _ hs)) hrest hmapped'
    refine ⟨e', ?_, ?_, ?_⟩
    · rw [List.foldlM_cons, EmuEngine.memProtect, he₁]
      exact he'
    · intro s hs a hlo hhi
      rcases List.mem_cons.mp hs with rfl | hs
      · rw [hout a, hperms a, if_pos ⟨hlo, hhi⟩]
        intro t ht hta
        have hle := hr t ht
        omega
      · exact hin s hs a hlo hhi
    · intro a hnone
      rw [hout a fun s hs => hnone s (List.mem_cons_of_mem _ hs), hperms a, if_neg (hnone r List.mem_cons_self)]

/-- The page of each address of a run is one of the pages that it stands for. -/
theorem PageRun.page_of_mem {r : PageRun} {n a : Nat} (hsize : r.size = n * pageSize) (hlo : r.base ≤ a)
    (hhi : a < r.base + r.size) :
    ∃ p, (p, r.perms) ∈ r.pages pageSize ∧ p ≤ a ∧ a < p + pageSize := by
  have hdiv : r.size / pageSize = n := by rw [hsize, Nat.mul_div_cancel _ (by decide)]
  refine ⟨r.base + (a - r.base) / pageSize * pageSize, List.mem_map.mpr ⟨(a - r.base) / pageSize, ?_, rfl⟩, ?_⟩
  · rw [hdiv, List.mem_range]
    simp only [pageSize] at hsize ⊢
    omega
  · simp only [pageSize]
    omega

theorem unionPerms_rwx {base page : Nat} {sections : List SectionEntry} (hrwx : ∀ s ∈ sections, s.perms = permMemRwx)
    (htouch : ∃ s ∈ sections, s.Touches base page) : unionPerms base sections page = permMemRwx := by
  have hfold : ∀ ss : List SectionEntry, (∀ s ∈ ss, s.perms = permMemRwx) →
      ss.foldl (fun perms s => perms ||| s.perms) permMemRwx = permMemRwx := by
    intro ss
    induction ss with
    | nil => exact fun _ => rfl
    | cons s ss ih =>
      intro hss
      have hkeep : permMemRwx ||| permMemRwx = permMemRwx := by decide
      rw [List.foldl_cons, hss s List.mem_cons_self, hkeep]
      exact ih fun t ht => hss t (List.mem_cons_of_mem _ ht)
  unfold unionPerms
  cases hlist : sections.filter fun s => decide (s.Touches base page) with
  | nil =>
    obtain ⟨s, hs, hst⟩ := htouch
    rw [List.filter_eq_nil_iff] at hlist
    exact absurd (decide_eq_true hst) (hlist s hs)
  | cons s ss =>
    have hall : ∀ t ∈ s :: ss, t.perms = permMemRwx := by
      intro t ht
      rw [← hlist] at ht
      exact hrwx t (List.mem_filter.mp ht).1
    rw [List.foldl_cons, hall s List.mem_cons_self, Nat.zero_or]
    exact hfold ss fun t ht => hall t (List.mem_cons_of_mem _ ht)

section Load

variable {base imageSize : Nat} {sections : List SectionEntry}

omit [PageEngine ε] [LawfulPageEngine ε] in
theorem imageRuns_runsOf (base : Nat) (sections : List SectionEntry) :
    RunsOf pageSize (sortedPages (sections.foldl (addSectionPages base) ∅)) (imageRuns base sections) :=
  runsOf_getPageProtectionRuns (by decide) fun _ hp =>
    aligned_of_mem_addSections sections ∅ (fun q hq => absurd hq (AList.notMem_empty q)) hp

omit [PageEngine ε] [LawfulPageEngine ε] in
/-- The runs of an image stand for the pages that a section touches. -/
theorem mem_imageRuns {page perms : Nat} :
    (page, perms) ∈ (imageRuns base sections).flatMap (PageRun.pages pageSize) ↔
      PageAligned page ∧ (∃ s ∈ sections, s.Touches base page) ∧ perms = unionPerms base sections page := by
  rw [(imageRuns_runsOf base sections).expand, mem_sortedPages]
  constructor
  · intro hlookup
    have haligned : PageAligned page := by
      apply aligned_of_mem_addSections sections ∅ (fun q hq => absurd hq (AList.notMem_empty q))
      exact AList.lookup_isSome.mp (by rw [hlookup]; rfl)
    rw [lookup_addSections haligned] at hlookup
    split at hlookup
    next htouch => exact ⟨haligned, htouch, (Option.some.inj hlookup).symm⟩
    next => cases hlookup
  · rintro ⟨haligned, htouch, rfl⟩
    rw [lookup_addSections haligned, if_pos htouch]
    rfl

omit [PageEngine ε] [LawfulPageEngine ε] in
theorem imageRuns_range {r : PageRun} (hr : r ∈ imageRuns base sections) : PageRange r.base r.size := by
  obtain ⟨n, hn, hsize⟩ := (imageRuns_runsOf base sections).whole r hr
  have hfirst : (r.base, r.perms) ∈ r.pages pageSize := by
    refine List.mem_map.mpr ⟨0, ?_, by rw [Nat.zero_mul, Nat.add_zero]⟩
    rw [hsize, Nat.mul_div_cancel _ (by decide)]
    exact List.mem_range.mpr hn
  refine ⟨(mem_imageRuns.mp (List.mem_flatMap.mpr ⟨r, hr, hfirst⟩)).1, ?_, ?_⟩
  · rw [hsize]
    exact Nat.mul_mod_left n pageSize
  · rw [hsize]
    exact Nat.mul_pos hn (by decide)

omit [PageEngine ε] [LawfulPageEngine ε] in
theorem touched_inside (hbase : PageAligned base) (hinside : ∀ s ∈ sections, s.virtualAddress + s.virtualSize ≤ imageSize)
    {page : Nat} (hpage : PageAligned page) (htouch : ∃ s ∈ sections, s.Touches base page) :
    base ≤ page ∧ page + pageSize ≤ pageUp (base + imageSize) := by
  obtain ⟨s, hs, hst⟩ := htouch
  have hle := hinside s hs
  simp only [SectionEntry.Touches, pageUp, pageOf, pageSize, PageAligned] at hst hpage hbase ⊢
  omega

omit [PageEngine ε] [LawfulPageEngine ε] in
theorem firstRva_le (hinside : ∀ s ∈ sections, s.virtualAddress + s.virtualSize ≤ imageSize) :
    ((sections.map SectionEntry.virtualAddress).min?).getD 0 ≤ imageSize := by
  cases hmin : (sections.map SectionEntry.virtualAddress).min? with
  | none => exact Nat.zero_le _
  | some v =>
    obtain ⟨s, hs, hv⟩ := List.mem_map.mp (List.min?_mem hmin)
    have hle := hinside s hs
    rw [Option.getD_some]
    omega

/-- The headers before the first section become read-only. -/
theorem protectHeaders_spec (hbase : PageAligned base)
    (himage : ∀ a, base ≤ a → a < pageUp (base + imageSize) → Mapped e a) {firstRva : Nat} (hrva : firstRva ≤ imageSize) :
    ∃ e', protectHeaders e base firstRva = .ok e' ∧ ∀ a, Mapped e' a ↔ Mapped e a := by
  by_cases hzero : firstRva = 0
  · exact ⟨e, if_neg (not_not.mpr hzero), fun _ => Iff.rfl⟩
  · have hup := le_pageUp firstRva
    have hin : ∀ a, base ≤ a → a < base + pageUp firstRva → Mapped e a := by
      intro a hlo hhi
      apply himage a hlo
      simp only [pageUp, pageOf, pageSize, PageAligned] at hhi hbase ⊢
      omega
    obtain ⟨e', he', hperms⟩ := LawfulPageEngine.memProtect_exact e (ucPerms permMemRead)
      ⟨hbase, pageUp_aligned firstRva, by omega⟩ hin
    exact ⟨e', (if_pos hzero).trans he', WinMemory.mapped_of_permsAt hperms hin⟩

/-- The runs of an image over its mapped pages. -/
theorem protectImageRuns_spec (hbase : PageAligned base)
    (himage : ∀ a, base ≤ a → a < pageUp (base + imageSize) → Mapped e a)
    (hinside : ∀ s ∈ sections, s.virtualAddress + s.virtualSize ≤ imageSize) :
    ∃ e', (imageRuns base sections).foldlM (fun e r => EmuEngine.memProtect e r.base r.size r.perms) e = .ok e' ∧
      ∀ page, PageAligned page → (∃ s ∈ sections, s.Touches base page) →
        ∀ a, page ≤ a → a < page + pageSize → permsAt e' a = some (ucPerms (unionPerms base sections page)) := by
  have hruns := imageRuns_runsOf base sections
  have hmapped : ∀ r ∈ imageRuns base sections, ∀ a, r.base ≤ a → a < r.base + r.size → Mapped e a := by
    intro r hr a hlo hhi
    obtain ⟨n, -, hsize⟩ := hruns.whole r hr
    obtain ⟨p, hp, hpa, hap⟩ := PageRun.page_of_mem hsize hlo hhi
    obtain ⟨haligned, htouch, -⟩ := mem_imageRuns.mp (List.mem_flatMap.mpr ⟨r, hr, hp⟩)
    obtain ⟨hle, hend⟩ := touched_inside hbase hinside haligned htouch
    exact himage a (by omega) (by omega)
  obtain ⟨e', he', hin, -⟩ := protectRuns_spec (fun r hr => imageRuns_range hr) hruns.ordered hmapped
  refine ⟨e', he', ?_⟩
  intro page hpage htouch a hlo hhi
  obtain ⟨r, hr, hp⟩ := List.mem_flatMap.mp (mem_imageRuns.mpr ⟨hpage, htouch, rfl⟩)
  obtain ⟨i, hi, heq⟩ := List.mem_map.mp hp
  obtain ⟨n, -, hsize⟩ := hruns.whole r hr
  rw [hsize, Nat.mul_div_cancel _ (by decide), List.mem_range] at hi
  obtain ⟨hbaseEq, hpermsEq⟩ := Prod.mk.inj heq
  have hmul := Nat.mul_le_mul_right pageSize (Nat.succ_le_of_lt hi)
  rw [Nat.succ_mul] at hmul
  rw [← hpermsEq]
  apply hin r hr a
  · omega
  · omega

/-- After the load each page that a section touches has the permissions of the sections that touch it. -/
theorem protectSections_spec (hbase : PageAligned base)
    (himage : ∀ a, base ≤ a → a < pageUp (base + imageSize) → permsAt e a = some (ucPerms permMemRwx))
    (hinside : ∀ s ∈ sections, s.virtualAddress + s.virtualSize ≤ imageSize) (isShellcode : Bool)
    (hshellcode : isShellcode = true → ∀ s ∈ sections, s.perms = permMemRwx) :
    ∃ e', protectSections e base sections isShellcode = .ok e' ∧
      ∀ page, PageAligned page → (∃ s ∈ sections, s.Touches base page) →
        ∀ a, page ≤ a → a < page + pageSize → permsAt e' a = some (ucPerms (unionPerms base sections page)) := by
  by_cases hgo : sections ≠ [] ∧ isShellcode = false
  · have hmapped : ∀ a, base ≤ a → a < pageUp (base + imageSize) → Mapped e a := by
      intro a hlo hhi
      rw [Mapped, himage a hlo hhi]
      exact Option.some_ne_none _
    obtain ⟨e₁, he₁, hsame⟩ := protectHeaders_spec hbase hmapped (firstRva_le hinside)
    have hmapped₁ : ∀ a, base ≤ a → a < pageUp (base + imageSize) → Mapped e₁ a :=
      fun a hlo hhi => (hsame a).mpr (hmapped a hlo hhi)
    obtain ⟨e', he', hpages⟩ := protectImageRuns_spec hbase hmapped₁ hinside
    refine ⟨e', ?_, hpages⟩
    rw [protectSections, if_pos hgo, he₁]
    exact he'
  · refine ⟨e, if_neg hgo, ?_⟩
    intro page hpage htouch a hlo hhi
    have hne : sections ≠ [] := by
      rintro rfl
      obtain ⟨s, hs, -⟩ := htouch
      cases hs
    have hshell : isShellcode = true := by
      cases isShellcode with
      | true => rfl
      | false => exact absurd ⟨hne, rfl⟩ hgo
    obtain ⟨hle, hend⟩ := touched_inside hbase hinside hpage htouch
    rw [unionPerms_rwx (hshellcode hshell) htouch]
    exact himage a (by omega) (by omega)

end Load

end Image

/-- The ranges of `get_page_protection_runs` are in ascending order and apart, no two adjacent ones have the same
permissions, and their pages are those of the dictionary. So a load protects each page of the image that a section
touches with the permissions of the sections that touch it. -/
theorem pageProtectionRuns_law (ε : Type) [PageEngine ε] [LawfulPageEngine ε] :
    (∀ (pagePerms : PyDict Nat Nat) (pageSize : Nat), 0 < pageSize → (∀ p ∈ pagePerms, p % pageSize = 0) →
      RunsOf pageSize (sortedPages pagePerms) (getPageProtectionRuns pagePerms pageSize) ∧
        ∀ p perms, (p, perms) ∈ (getPageProtectionRuns pagePerms pageSize).flatMap (PageRun.pages pageSize) ↔
          pagePerms.lookup p = some perms) ∧
    ∀ (e : ε) base imageSize sections isShellcode, PageAligned base →
      (∀ a, base ≤ a → a < pageUp (base + imageSize) → permsAt e a = some (ucPerms permMemRwx)) →
      (∀ s ∈ sections, s.virtualAddress + s.virtualSize ≤ imageSize) →
      (isShellcode = true → ∀ s ∈ sections, s.perms = permMemRwx) →
      ∃ e', protectSections e base sections isShellcode = .ok e' ∧
        ∀ page, PageAligned page → (∃ s ∈ sections, s.Touches base page) →
          ∀ a, page ≤ a → a < page + Speakeasy.pageSize →
            permsAt e' a = some (ucPerms (unionPerms base sections page)) := by
  refine ⟨?_, ?_⟩
  · intro pagePerms pageSize hsize hkeys
    have hruns := runsOf_getPageProtectionRuns hsize hkeys
    refine ⟨hruns, fun p perms => ?_⟩
    rw [hruns.expand, mem_sortedPages]
  · intro e base imageSize sections isShellcode hbase himage hinside hshellcode
    exact protectSections_spec hbase himage hinside isShellcode hshellcode

theorem imageRegion_valid : ∀ r ∈ [(⟨0x400000, 0x402FFF, ucProtAll⟩ : Region)], r.Valid := by decide

/-- An engine with an image of three pages. -/
def imageEngine : RegionEngine where
  regions := [⟨0x400000, 0x402FFF, ucProtAll⟩]
  valid := imageRegion_valid
  apart := List.pairwise_singleton _ _

theorem pageProtectionRuns_law_imageEngine :
    RunsOf 0x1000 (sortedPages ((∅ : PyDict Nat Nat).insert 0x1000 permMemRw))
        (getPageProtectionRuns ((∅ : PyDict Nat Nat).insert 0x1000 permMemRw) 0x1000) ∧
      ∃ e', protectSections imageEngine 0x400000 [⟨[], 0x1000, 0x1800, permMemRx⟩, ⟨[], 0x2800, 0x10, permMemRw⟩] false =
          .ok e' ∧ permsAt e' 0x402FFF = some (ucPerms permMemRwx) := by
  obtain ⟨hruns, hload⟩ := pageProtectionRuns_law RegionEngine
  have hkeys : ∀ p ∈ (∅ : PyDict Nat Nat).insert 0x1000 permMemRw, p % 0x1000 = 0 := by
    intro p hp
    rw [AList.mem_insert] at hp
    rcases hp with rfl | hp
    · rfl
    · exact absurd hp (AList.notMem_empty p)
  refine ⟨(hruns _ 0x1000 (by decide) hkeys).1, ?_⟩
  have himage : ∀ a, 0x400000 ≤ a → a < pageUp (0x400000 + 0x3000) →
      permsAt imageEngine a = some (ucPerms permMemRwx) := by
    intro a hlo hhi
    have hup : pageUp (0x400000 + 0x3000) = 0x403000 := by decide
    rw [permsAt_eq_some]
    refine ⟨⟨0x400000, 0x402FFF, ucProtAll⟩, List.mem_singleton_self _, ⟨hlo, ?_⟩, rfl⟩
    show a ≤ 0x402FFF
    omega
  obtain ⟨e', he', hpages⟩ := hload imageEngine 0x400000 0x3000
    [⟨[], 0x1000, 0x1800, permMemRx⟩, ⟨[], 0x2800, 0x10, permMemRw⟩] false (by decide) himage (by decide) (by decide)
  exact ⟨e', he', hpages 0x402000 (by decide) (by decide) 0x402FFF (by decide) (by decide)⟩

end Speakeasy
