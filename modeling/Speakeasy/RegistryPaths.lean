import Speakeasy.MemoryManager
import Mathlib.Data.List.DropRight

namespace Speakeasy

/-- `str.lower`. It lowers each component of a path on its own, because no case rule looks past a
backslash. Only one character has a lower case of more than one. -/
structure LowerCase where
  str : PyStr → PyStr
  ascii : ∀ s, (∀ c ∈ s, c.toNat < 128) → str s = s.map Char.toLower
  sep : ∀ s t, str (s ++ '\\' :: t) = str s ++ '\\' :: str t
  noSep : ∀ s, '\\' ∉ s → '\\' ∉ str s
  empty : ∀ s, str s = [] → s = []
  length : ∀ s, '\u0130' ∉ s → (str s).length = s.length

def rootPrefixes : List PyStr := ["\\registry\\machine\\".toList, "hklm\\".toList]

def localMachinePrefix : PyStr := "HKEY_LOCAL_MACHINE\\".toList

def controlSetPrefix : PyStr := "hkey_local_machine\\system\\controlset001\\".toList

def currentControlSetPrefix : PyStr := "HKEY_LOCAL_MACHINE\\SYSTEM\\CurrentControlSet\\".toList

/-- `path.rstrip("\\")`. -/
def rstripSep (path : PyStr) : PyStr := path.rdropWhile (· = '\\')

/-- The long name of `HKEY_LOCAL_MACHINE` instead of a short or native one. -/
def replaceRoot (lc : LowerCase) (path : PyStr) : PyStr :=
  match rootPrefixes.find? (fun r => decide (r <+: lc.str path)) with
  | some r => localMachinePrefix ++ path.drop r.length
  | none => path

def replaceControlSet (lc : LowerCase) (path : PyStr) : PyStr :=
  if controlSetPrefix <+: lc.str path then
    currentControlSetPrefix ++ path.drop controlSetPrefix.length
  else path

def normalizeRegPath (lc : LowerCase) (path : PyStr) : PyStr :=
  if path = [] then path else rstripSep (replaceControlSet lc (replaceRoot lc path))

/-- Two paths of the same key. -/
def SamePath (lc : LowerCase) (p q : PyStr) : Prop :=
  lc.str (normalizeRegPath lc p) = lc.str (normalizeRegPath lc q)

variable {lc : LowerCase}

theorem forall_lt_of_all {s : PyStr} (h : (s.all fun c => decide (c.toNat < 128)) = true) :
    ∀ c ∈ s, c.toNat < 128 :=
  fun c hc => of_decide_eq_true (List.all_eq_true.mp h c hc)

theorem not_mem_normalizeRegPath {c : Char} {path : PyStr} (hc : 128 ≤ c.toNat) (h : c ∉ path) :
    c ∉ normalizeRegPath lc path := by
  have hprefix : ∀ {pre t : PyStr}, (∀ x ∈ pre, x.toNat < 128) → c ∉ t → c ∉ pre ++ t := by
    intro pre t hpre ht hin
    rcases List.mem_append.mp hin with hin | hin
    · have := hpre c hin
      omega
    · exact ht hin
  have hroot : c ∉ replaceRoot lc path := by
    unfold replaceRoot
    split
    next => exact hprefix (forall_lt_of_all (by decide)) fun hin => h (List.mem_of_mem_drop hin)
    next => exact h
  have hset : c ∉ replaceControlSet lc (replaceRoot lc path) := by
    unfold replaceControlSet
    split
    next => exact hprefix (forall_lt_of_all (by decide)) fun hin => hroot (List.mem_of_mem_drop hin)
    next => exact hroot
  unfold normalizeRegPath
  split
  next => exact h
  next => exact fun hin => hset ((List.rdropWhile_prefix _ _).subset hin)

theorem LowerCase.nil (lc : LowerCase) : lc.str [] = [] := lc.ascii [] (by simp)

theorem LowerCase.seps (lc : LowerCase) (s : PyStr) (n : Nat) :
    lc.str (s ++ List.replicate n '\\') = lc.str s ++ List.replicate n '\\' := by
  induction n generalizing s with
  | zero => simp
  | succ n ih =>
    have hall : ∀ n, lc.str (List.replicate n '\\') = List.replicate n '\\' := by
      intro n
      rw [lc.ascii _ (by simp +contextual [List.mem_replicate])]
      simp
    rw [List.replicate_succ, lc.sep, hall]

/-- The separator ends the head of a path, so its lower case begins with the one of the head. -/
theorem LowerCase.head (lc : LowerCase) {s : PyStr} (hs : ∀ c ∈ s, c.toNat < 128) (t : PyStr) :
    lc.str (s ++ '\\' :: t) = s.map Char.toLower ++ '\\' :: lc.str t := by
  rw [lc.sep, lc.ascii s hs]

theorem rstripSep_append (path : PyStr) :
    ∃ n, path = rstripSep path ++ List.replicate n '\\' := by
  refine ⟨(path.rtakeWhile (· = '\\')).length, ?_⟩
  have hall : ∀ c ∈ path.rtakeWhile (· = '\\'), c = '\\' := by
    intro c hc
    simpa using List.mem_rtakeWhile_imp hc
  rw [← List.eq_replicate_of_mem hall]
  exact (List.rdropWhile_append_rtakeWhile ..).symm

theorem rstripSep_lower_le (path : PyStr) : lc.str (rstripSep path) <+: lc.str path := by
  obtain ⟨n, hn⟩ := rstripSep_append path
  have heq := lc.seps (rstripSep path) n
  rw [← hn] at heq
  exact heq ▸ List.prefix_append ..

/-- A path that `normalize_reg_path` only strips. -/
structure Replaced (lc : LowerCase) (path : PyStr) : Prop where
  root : ∀ r ∈ rootPrefixes, ¬r <+: lc.str path
  controlSet : ¬controlSetPrefix <+: lc.str path

theorem localMachinePrefix_eq : localMachinePrefix = "HKEY_LOCAL_MACHINE".toList ++ ['\\'] := by
  decide

theorem currentControlSetPrefix_eq : currentControlSetPrefix =
    "HKEY_LOCAL_MACHINE\\SYSTEM\\CurrentControlSet".toList ++ ['\\'] := by
  decide

theorem currentControlSetPrefix_split :
    currentControlSetPrefix = localMachinePrefix ++ "SYSTEM\\CurrentControlSet\\".toList := by
  decide

theorem lower_localMachinePrefix (t : PyStr) :
    lc.str (localMachinePrefix ++ t) = "hkey_local_machine\\".toList ++ lc.str t := by
  rw [localMachinePrefix_eq, List.append_assoc, List.singleton_append, lc.head (by simp)]
  simp

theorem lower_currentControlSetPrefix (t : PyStr) : lc.str (currentControlSetPrefix ++ t) =
    "hkey_local_machine\\system\\currentcontrolset\\".toList ++ lc.str t := by
  rw [currentControlSetPrefix_eq, List.append_assoc, List.singleton_append, lc.head (by simp)]
  simp

theorem not_root_of_localMachine {r : PyStr} (hr : r ∈ rootPrefixes) (t : PyStr) :
    ¬r <+: lc.str (localMachinePrefix ++ t) := by
  rw [lower_localMachinePrefix]
  simp only [rootPrefixes, List.mem_cons, List.not_mem_nil, or_false] at hr
  rcases hr with rfl | rfl
  · simp [List.cons_prefix_cons]
  · simp [List.cons_prefix_cons]

theorem not_controlSet_of_current (t : PyStr) :
    ¬controlSetPrefix <+: lc.str (currentControlSetPrefix ++ t) := by
  rw [lower_currentControlSetPrefix]
  delta controlSetPrefix
  simp [List.cons_prefix_cons]

theorem replaceRoot_cases (lc : LowerCase) (path : PyStr) :
    (∃ t, replaceRoot lc path = localMachinePrefix ++ t) ∨
      (replaceRoot lc path = path ∧ ∀ r ∈ rootPrefixes, ¬r <+: lc.str path) := by
  unfold replaceRoot
  split
  next r hr => exact Or.inl ⟨_, rfl⟩
  next hnone => exact Or.inr ⟨rfl, fun r hr => by simpa using List.find?_eq_none.mp hnone r hr⟩

theorem replaced (lc : LowerCase) (path : PyStr) :
    Replaced lc (replaceControlSet lc (replaceRoot lc path)) := by
  unfold replaceControlSet
  split
  next =>
    refine ⟨fun r hr => ?_, not_controlSet_of_current _⟩
    rw [currentControlSetPrefix_split, List.append_assoc]
    exact not_root_of_localMachine hr _
  next hc =>
    refine ⟨fun r hr => ?_, hc⟩
    rcases replaceRoot_cases lc path with ⟨t, ht⟩ | ⟨hsame, hno⟩
    · rw [ht]
      exact not_root_of_localMachine hr t
    · rw [hsame]
      exact hno r hr

theorem Replaced.rstripSep {path : PyStr} (h : Replaced lc path) : Replaced lc (rstripSep path) where
  root r hr hp := h.root r hr (hp.trans (rstripSep_lower_le path))
  controlSet hp := h.controlSet (hp.trans (rstripSep_lower_le path))

theorem Replaced.normalizeRegPath {path : PyStr} (h : Replaced lc path) :
    normalizeRegPath lc path = Speakeasy.rstripSep path := by
  unfold Speakeasy.normalizeRegPath
  split
  next hnil =>
    subst hnil
    rfl
  next =>
    have hroot : replaceRoot lc path = path := by
      have hnone : rootPrefixes.find? (fun r => decide (r <+: lc.str path)) = none :=
        List.find?_eq_none.mpr fun r hr => by simpa using h.root r hr
      simp only [replaceRoot, hnone]
    rw [hroot, replaceControlSet, if_neg h.controlSet]

theorem normalizeRegPath_idem (lc : LowerCase) (path : PyStr) :
    normalizeRegPath lc (normalizeRegPath lc path) = normalizeRegPath lc path := by
  by_cases hnil : path = []
  · subst hnil
    rfl
  · have heq : normalizeRegPath lc path = rstripSep (replaceControlSet lc (replaceRoot lc path)) :=
      if_neg hnil
    rw [heq, (replaced lc path).rstripSep.normalizeRegPath]
    exact List.rdropWhile_idempotent ..

theorem SamePath.refl (p : PyStr) : SamePath lc p p := Eq.refl _

theorem first_sep_inj {x y a b : PyStr} (hx : '\\' ∉ x) (hy : '\\' ∉ y)
    (h : x ++ '\\' :: a = y ++ '\\' :: b) : x = y ∧ a = b := by
  rcases List.append_eq_append_iff.mp h with ⟨c, rfl, hc⟩ | ⟨c, rfl, hc⟩
  · cases c with
    | nil => simpa using hc
    | cons d c =>
      obtain ⟨rfl, _⟩ := List.cons.inj hc
      simp at hy
  · cases c with
    | nil => simpa using hc.symm
    | cons d c =>
      obtain ⟨rfl, _⟩ := List.cons.inj hc
      simp at hx

/-- The component that is the first one of a path has the first one of its lower case. -/
theorem LowerCase.first (lc : LowerCase) {a test w : PyStr} (ha : '\\' ∉ a)
    (h : lc.str test = lc.str a ++ '\\' :: w) :
    ∃ u v, test = u ++ '\\' :: v ∧ lc.str u = lc.str a ∧ lc.str v = w := by
  have hin : '\\' ∈ test := by
    by_contra hn
    exact lc.noSep test hn (h ▸ by simp)
  obtain ⟨u, v, rfl, hu⟩ := List.eq_append_cons_of_mem hin
  rw [lc.sep] at h
  obtain ⟨hua, hvw⟩ := first_sep_inj (lc.noSep u hu) (lc.noSep a ha) h
  exact ⟨u, v, rfl, hua, hvw⟩

/-- A path whose lower case continues the one of another path continues it at the same place. -/
theorem LowerCase.split (lc : LowerCase) {a test w : PyStr} (ha : '\u0130' ∉ a)
    (ht : '\u0130' ∉ test) (h : lc.str test = lc.str a ++ '\\' :: w) :
    ∃ u v, test = u ++ '\\' :: v ∧ u.length = a.length ∧ lc.str u = lc.str a ∧ lc.str v = w := by
  induction hn : a.length using Nat.strong_induction_on generalizing a test with
  | _ n ih =>
    by_cases hsep : '\\' ∈ a
    · obtain ⟨p, a', rfl, hp⟩ := List.eq_append_cons_of_mem hsep
      rw [lc.sep, List.append_assoc, List.cons_append] at h
      obtain ⟨t, t', rfl, htp, hrest⟩ := lc.first hp h
      simp only [List.mem_append, List.mem_cons, not_or] at ha ht
      simp only [List.length_append, List.length_cons] at hn
      obtain ⟨u, v, rfl, hlen, hu, hv⟩ := ih a'.length (by omega) ha.2.2 ht.2.2 hrest rfl
      have htlen : t.length = p.length := by
        rw [← lc.length t ht.1, ← lc.length p ha.1, htp]
      refine ⟨t ++ '\\' :: u, v, by simp, ?_, ?_, hv⟩
      · simp only [List.length_append, List.length_cons]
        omega
      · rw [lc.sep, lc.sep, htp, hu]
    · obtain ⟨u, v, rfl, hua, hv⟩ := lc.first hsep h
      refine ⟨u, v, rfl, ?_, hua, hv⟩
      simp only [List.mem_append, not_or] at ht
      rw [← hn, ← lc.length u ht.1, ← lc.length a ha, hua]

/-- The lower case of a stripped path is stripped. -/
theorem rstripSep_lower {path : PyStr} (h : rstripSep path = path) :
    rstripSep (lc.str path) = lc.str path := by
  refine List.rdropWhile_eq_self_iff.mpr fun hne hlast => ?_
  have hlast : (lc.str path).getLast hne = '\\' := by simpa using hlast
  have hsplit := List.dropLast_append_getLast hne
  rw [hlast] at hsplit
  have hin : '\\' ∈ path := by
    by_contra hn
    exact lc.noSep path hn (hsplit ▸ by simp)
  -- The last separator of the path: after it, the lower case has nothing left.
  obtain ⟨b, a, hrev, hb⟩ := List.eq_append_cons_of_mem (List.mem_reverse.mpr hin)
  have hpath : path = a.reverse ++ '\\' :: b.reverse := by
    simpa using congrArg List.reverse hrev
  have hlower : lc.str path = lc.str a.reverse ++ '\\' :: lc.str b.reverse := by
    rw [hpath, lc.sep]
  have hbnil : b = [] := by
    by_contra hbne
    have hbr : lc.str b.reverse ≠ [] := fun he => hbne (by simpa using lc.empty _ he)
    have hmem : '\\' ∈ lc.str b.reverse := by
      have hl : (lc.str path).getLast hne = (lc.str b.reverse).getLast hbr := by
        simp only [hlower]
        rw [List.getLast_append_of_ne_nil _ (by simp), List.getLast_cons hbr]
      rw [← hlast, hl]
      exact List.getLast_mem hbr
    exact lc.noSep _ (by simpa using hb) hmem
  subst hbnil
  refine List.rdropWhile_eq_self_iff.mp h (by simp [hpath]) ?_
  simp [hpath]

theorem toLower_eq_sep {c : Char} (h : c.toLower = '\\') : c = '\\' := by
  unfold Char.toLower at h
  split at h
  next hc =>
    have hval := congrArg (fun c => c.val.toNat) h
    have hle := UInt32.le_iff_toNat_le.mp hc.1
    have hge := UInt32.le_iff_toNat_le.mp hc.2
    simp at hval hle hge
    omega
  next => exact h

def asciiLower : LowerCase where
  str s := s.map Char.toLower
  ascii _ _ := rfl
  sep s t := by simp
  noSep s hs := by
    intro hin
    obtain ⟨c, hc, heq⟩ := List.mem_map.mp hin
    exact hs (toLower_eq_sep heq ▸ hc)
  empty s hs := List.map_eq_nil_iff.mp hs
  length s _ := List.length_map ..

end Speakeasy
