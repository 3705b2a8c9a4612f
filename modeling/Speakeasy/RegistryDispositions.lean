import Speakeasy.RegistryNavigation

namespace Speakeasy

/-- A call of a run. -/
inductive RegKeyCall
  | below (e : RegEntry) (hnd : RegHandle) (sub : PyStr)
  | zwCreateKey (path : PyStr)
  | op (op : RegistryOp)

/-- The registry after a call. A call that raises changes nothing. -/
def RegCall.state (s : RegistryManager) : RegCall → RegistryManager
  | .error _ => s
  | .ok (_, s') => s'

namespace RegistryManager

def stepCall (env : RegistryEnv) (s : RegistryManager) : RegKeyCall → RegistryManager
  | .below e hnd sub => RegCall.state s (e.call env s hnd sub)
  | .zwCreateKey path => RegCall.state s (s.zwCreateKey env none path)
  | .op op => s.step env op

/-- Opening a path below a key is opening the full path. -/
def Navigates (env : RegistryEnv) (s : RegistryManager) (e : RegEntry) (hnd : RegHandle) (key : RegKey)
    (sub : PyStr) : Prop :=
  namedKey env.lc (RegCall.key (e.call env s hnd sub)) =
    namedKey env.lc (handleKey (s.openKey env (fullPath key.path sub) e.creates))

/-- A call that reports a disposition reports whether the path could be opened. -/
def Reports (env : RegistryEnv) (s : RegistryManager) (call : RegCall) (path : PyStr) : Prop :=
  ∀ reply s' disp, call = .ok (reply, s') → reply.disp = some disp →
    (disp = .openedExistingKey ↔ ∃ hnd m, s.openKey env path false = .ok (some hnd, m))

def CallLaw (env : RegistryEnv) (s : RegistryManager) : RegKeyCall → Prop
  | .below e hnd sub => ∀ key, s.getKey hnd = some key →
    s.Navigates env e hnd key sub ∧ s.Reports env (e.call env s hnd sub) (e.joined key.path sub)
  | .zwCreateKey path => s.Reports env (s.zwCreateKey env none path) path
  | .op _ => True

/-- The list of known keys tells whether the path could be opened. -/
def KnownTells (env : RegistryEnv) (s : RegistryManager) (path : PyStr) : Prop :=
  (path ≠ [] ∧ (s.getKeyFromPath env path).isSome) ∨ s.Absent env path ∨ s.Unreadable env path

/-- The call opens the full path, or else one that gives the same answer by chance. -/
def Joins (env : RegistryEnv) (s : RegistryManager) (e : RegEntry) (key : RegKey) (sub : PyStr) : Prop :=
  if sub = [] then e.keepsHandle → s.getKeyFromPath env key.path = some key
  else e.JoinsAs env.lc key.path sub ∨
    s.SameAnyway env (e.joined key.path sub) (fullPath key.path sub) e.creates

def CallGood (env : RegistryEnv) (s : RegistryManager) : RegKeyCall → Prop
  | .below e hnd sub => ∀ key, s.getKey hnd = some key →
    s.Joins env e key sub ∧ (e.reportsDisposition → s.KnownTells env (e.joined key.path sub))
  | .zwCreateKey path => s.KnownTells env path
  | .op _ => True

variable {env : RegistryEnv} {s s' : RegistryManager} {path : PyStr}

theorem zwCreatePath_key (env : RegistryEnv) (s : RegistryManager) (path : PyStr) :
    RegCall.key (s.zwCreatePath env path) = handleKey (s.openKey env path true) := by
  unfold zwCreatePath
  cases s.openKey env path true with
  | error e => rfl
  | ok r =>
    obtain ⟨hnd, m⟩ := r
    simp only [RegCall.key, handleKey, Except.map]
    cases hkey : hnd.bind m.getKey with
    | none => rfl
    | some key => exact congrArg Except.ok hkey

/-- The key of a call is the key of the path that it opens. -/
theorem call_key (hinv : s.Predefined) {e : RegEntry} {hnd : RegHandle} {key : RegKey} {sub : PyStr}
    (hk : s.getKey hnd = some key) (hsub : sub = [] → e.keepsHandle = false) :
    RegCall.key (e.call env s hnd sub) =
      handleKey (s.openKey env (e.joined key.path sub) e.creates) := by
  have hpath := hkeyPath_of_getKey hinv hk
  cases e with
  | regOpenKeyEx =>
    simp only [RegEntry.call, RegEntry.joined, RegEntry.creates, regOpenKeyEx, advOpenKey, hpath]
    by_cases hnil : sub = []
    · simp only [hnil, ne_eq, not_true_eq_false, if_false, if_true]
      cases s.openKey env key.path false with
      | error e => rfl
      | ok r => rfl
    · simp only [ne_eq, hnil, not_false_eq_true, if_true]
      cases s.openKey env (key.path ++ startSep sub) false with
      | error e => rfl
      | ok r =>
        obtain ⟨hnd, m⟩ := r
        cases hnd <;> rfl
  | regCreateKey =>
    have hne : sub ≠ [] := fun h => absurd (hsub h) (by decide)
    simp only [RegEntry.call, RegEntry.joined, RegEntry.creates, regCreateKey, hk, if_pos hne]
    cases s.openKey env (key.path ++ '\\' :: lstripSep sub) true with
    | error e => rfl
    | ok r => rfl
  | regCreateKeyEx =>
    simp only [RegEntry.call, RegEntry.joined, RegEntry.creates, regCreateKeyEx, hpath]
    cases s.openKey env (createPath key.path sub) true with
    | error e => rfl
    | ok r =>
      obtain ⟨hnd, m⟩ := r
      cases hnd <;> rfl
  | regGetValue =>
    have hne : sub ≠ [] := fun h => absurd (hsub h) (by decide)
    simp only [RegEntry.call, RegEntry.joined, RegEntry.creates, regGetValue, hk, if_pos hne]
    cases s.openKey env (key.path ++ '\\' :: sub) false with
    | error e => rfl
    | ok r =>
      obtain ⟨hnd, m⟩ := r
      cases hnd <;> rfl
  | zwCreateKey =>
    simp only [RegEntry.call, RegEntry.joined, RegEntry.creates, zwCreateKey, hk]
    exact zwCreatePath_key env s _

/-- A call that keeps its handle gives the key of it. -/
theorem call_keeps {e : RegEntry} {hnd : RegHandle} {key : RegKey} (hk : s.getKey hnd = some key)
    (he : e.keepsHandle = true) : RegCall.key (e.call env s hnd []) = .ok (some key) := by
  cases e with
  | regCreateKey => simp [RegEntry.call, regCreateKey, hk, RegCall.key, Except.map]
  | regGetValue => simp [RegEntry.call, regGetValue, hk, RegCall.key, Except.map]
  | regOpenKeyEx => cases he
  | regCreateKeyEx => cases he
  | zwCreateKey => cases he

theorem joined_nil {e : RegEntry} (key : PyStr) : e.joined key [] = key := by
  cases e <;> simp [RegEntry.joined, createPath, rootedPath]

theorem mem_heldKeys_of_getKey {hnd : RegHandle} {key : RegKey} (hk : s.getKey hnd = some key) :
    key ∈ s.heldKeys := by
  rw [mem_heldKeys]
  cases hnd with
  | predefined hkey => exact Or.inr (Or.inr (List.mem_map.mpr ⟨_, mem_of_lookup hk, rfl⟩))
  | table n =>
    obtain ⟨l, l', heq, _⟩ := List.lookup_eq_some_iff.mp hk
    exact Or.inr (Or.inl (List.mem_map.mpr ⟨(n, key), by simp [heq], rfl⟩))

/-- The path without create gives a handle unless no key has it or its key cannot be read. -/
theorem openKey_succeeds_iff (env : RegistryEnv) (s : RegistryManager) (path : PyStr) :
    (∃ hnd m, s.openKey env path false = .ok (some hnd, m)) ↔
      ¬s.Absent env path ∧ ¬s.Unreadable env path := by
  have hopen : (∃ hnd m, s.openKey env path false = .ok (some hnd, m)) ↔
      ∃ key, s.openedKey env path false = .ok (some key) := by
    rw [← openKey_openedKey]
    constructor
    · rintro ⟨hnd, m, hok⟩
      rcases openKey_resolved hok with ⟨hnone, _⟩ | ⟨key, m', _, hhnd, rfl⟩
      · cases hnone
      · obtain rfl := Option.some.inj hhnd
        refine ⟨key, ?_⟩
        rw [hok]
        exact congrArg Except.ok (getKey_newHandle m' key)
    · rintro ⟨key, hkey⟩
      cases hok : s.openKey env path false with
      | error e =>
        rw [hok] at hkey
        cases hkey
      | ok r =>
        obtain ⟨hnd, m⟩ := r
        rw [hok] at hkey
        cases hnd with
        | none => cases Except.ok.inj hkey
        | some hnd => exact ⟨hnd, m, rfl⟩
  rw [hopen]
  cases hknown : s.getKeyFromPath env path with
  | some key =>
    refine iff_of_true ⟨key, openedKey_known hknown⟩ ⟨fun h => ?_, fun h => ?_⟩
    · rw [h.known] at hknown
      cases hknown
    · rw [h.known] at hknown
      cases hknown
  | none =>
    rcases openedKey_unknown false hknown with hbad | ⟨_, hbad⟩ | hnew
    · refine iff_of_false ?_ fun h => h.2 hbad
      rintro ⟨key, hkey⟩
      rw [hbad.openedKey] at hkey
      cases hkey
    · refine iff_of_false ?_ fun h => h.1 hbad
      rintro ⟨key, hkey⟩
      rw [hbad.openedKey] at hkey
      cases hkey
    · refine iff_of_true ⟨_, hnew⟩ ⟨fun h => ?_, fun h => ?_⟩
      · rw [h.openedKey] at hnew
        cases hnew
      · rw [h.openedKey] at hnew
        cases hnew

theorem openKey_creates_iff (env : RegistryEnv) (s : RegistryManager) (path : PyStr) :
    (∃ hnd m key, s.openKey env path true = .ok (some hnd, m) ∧ m.getKey hnd = some key) ↔
      ¬s.Unreadable env path := by
  constructor
  · rintro ⟨hnd, m, key, hok, _⟩ hbad
    have hkey := openKey_openedKey env s path true
    rw [hok, hbad.openedKey] at hkey
    cases hkey
  · intro hread
    cases hok : s.openKey env path true with
    | error e =>
      exfalso
      have hkey := openKey_openedKey env s path true
      rw [hok] at hkey
      cases hknown : s.getKeyFromPath env path with
      | some key =>
        rw [openedKey_known hknown] at hkey
        cases hkey
      | none =>
        rcases openedKey_unknown true hknown with hbad | ⟨hfalse, _⟩ | hnew
        · exact hread hbad
        · cases hfalse
        · rw [hnew] at hkey
          cases hkey
    | ok r =>
      obtain ⟨hnd, m⟩ := r
      obtain ⟨key, hkey⟩ := openKey_creates hok
      cases hnd with
      | none => cases hkey
      | some hnd => exact ⟨hnd, m, key, rfl, hkey⟩

/-- A call that reports the disposition of a path, from the list of known keys. -/
structure ReportsKnown (env : RegistryEnv) (s : RegistryManager) (call : RegCall) (path : PyStr) :
    Prop where
  reply : ∀ reply m disp, call = .ok (reply, m) → reply.disp = some disp →
    disp = disposition (s.regGetKey env path)
  replies : ¬s.Unreadable env path →
    ∃ reply m, call = .ok (reply, m) ∧ reply.disp = some (disposition (s.regGetKey env path))
  raises : s.Unreadable env path → ∃ e, call = .error e

theorem regGetKey_isSome_iff (env : RegistryEnv) (s : RegistryManager) (path : PyStr) :
    disposition (s.regGetKey env path) = .openedExistingKey ↔
      path ≠ [] ∧ (s.getKeyFromPath env path).isSome := by
  unfold disposition regGetKey
  by_cases hnil : path = []
  · simp [hnil]
  · cases hknown : s.getKeyFromPath env path with
    | none => simp [hnil]
    | some key => simp [hnil]

theorem not_absent_of_known (h : (s.getKeyFromPath env path).isSome) : ¬s.Absent env path := by
  intro habs
  rw [habs.known] at h
  cases h

theorem not_unreadable_of_known (h : (s.getKeyFromPath env path).isSome) :
    ¬s.Unreadable env path := by
  intro hbad
  rw [hbad.known] at h
  cases h

theorem ReportsKnown.reports_iff {call : RegCall} (h : s.ReportsKnown env call path) :
    s.Reports env call path ↔ s.KnownTells env path := by
  constructor
  · intro hlaw
    by_cases hread : s.Unreadable env path
    · exact Or.inr (Or.inr hread)
    · by_cases habs : s.Absent env path
      · exact Or.inr (Or.inl habs)
      · obtain ⟨reply, m, hcall, hdisp⟩ := h.replies hread
        have hopens := (openKey_succeeds_iff env s path).mpr ⟨habs, hread⟩
        have hexisting := (hlaw reply m _ hcall hdisp).mpr hopens
        exact Or.inl ((regGetKey_isSome_iff env s path).mp hexisting)
  · intro htells reply m disp hcall hdisp
    rw [h.reply reply m disp hcall hdisp, regGetKey_isSome_iff, openKey_succeeds_iff]
    rcases htells with hknown | habs | hbad
    · exact iff_of_true hknown ⟨not_absent_of_known hknown.2, not_unreadable_of_known hknown.2⟩
    · exact iff_of_false (fun hknown => not_absent_of_known hknown.2 habs) fun h => h.1 habs
    · obtain ⟨e, he⟩ := h.raises hbad
      rw [hcall] at he
      cases he

theorem openKey_raises (h : s.Unreadable env path) (create : Bool) :
    ∃ e, s.openKey env path create = .error e := by
  have hkey := openKey_openedKey env s path create
  rw [h.openedKey] at hkey
  cases hok : s.openKey env path create with
  | error e => exact ⟨e, rfl⟩
  | ok r =>
    rw [hok] at hkey
    cases hkey

theorem zwCreatePath_reports (env : RegistryEnv) (s : RegistryManager) (path : PyStr) :
    s.ReportsKnown env (s.zwCreatePath env path) path := by
  refine ⟨fun reply m disp hcall hdisp => ?_, fun hread => ?_, fun hbad => ?_⟩
  · rw [zwCreatePath] at hcall
    split at hcall
    next => cases hcall
    next =>
      split at hcall
      next =>
        cases hcall
        cases hdisp
      next =>
        cases hcall
        exact (Option.some.inj hdisp).symm
  · obtain ⟨hnd, m, key, hok, hkey⟩ := (openKey_creates_iff env s path).mpr hread
    refine ⟨⟨.success, some hnd, some (disposition (s.regGetKey env path))⟩, m, ?_, rfl⟩
    simp only [zwCreatePath, hok, Option.bind_some, hkey]
  · obtain ⟨e, he⟩ := openKey_raises hbad true
    exact ⟨e, by simp only [zwCreatePath, he]⟩

theorem regCreateKeyEx_reports {hnd : RegHandle} {keyPath sub : PyStr}
    (hpath : s.hkeyPath hnd = some keyPath) :
    s.ReportsKnown env (s.regCreateKeyEx env hnd sub) (createPath keyPath sub) := by
  refine ⟨fun reply m disp hcall hdisp => ?_, fun hread => ?_, fun hbad => ?_⟩
  · simp only [regCreateKeyEx, hpath] at hcall
    split at hcall
    next => cases hcall
    next =>
      cases hcall
      cases hdisp
    next =>
      cases hcall
      exact (Option.some.inj hdisp).symm
  · obtain ⟨hnd', m, key, hok, hkey⟩ := (openKey_creates_iff env s _).mpr hread
    refine ⟨⟨.success, some hnd', some (disposition (s.regGetKey env (createPath keyPath sub)))⟩, m,
      ?_, rfl⟩
    simp only [regCreateKeyEx, hpath, hok]
  · obtain ⟨e, he⟩ := openKey_raises hbad true
    exact ⟨e, by simp only [regCreateKeyEx, hpath, he]⟩

/-- The other calls report nothing. -/
theorem call_reportsNothing {e : RegEntry} (he : e.reportsDisposition = false) {hnd : RegHandle}
    {sub : PyStr} {reply : RegReply} {m : RegistryManager}
    (hcall : e.call env s hnd sub = .ok (reply, m)) : reply.disp = none := by
  cases e with
  | regOpenKeyEx =>
    simp only [RegEntry.call, regOpenKeyEx, advOpenKey] at hcall
    repeat' split at hcall
    all_goals cases hcall
    all_goals rfl
  | regCreateKey =>
    simp only [RegEntry.call, regCreateKey] at hcall
    repeat' split at hcall
    all_goals cases hcall
    all_goals rfl
  | regGetValue =>
    simp only [RegEntry.call, regGetValue] at hcall
    repeat' split at hcall
    all_goals cases hcall
    all_goals rfl
  | regCreateKeyEx => cases he
  | zwCreateKey => cases he

theorem call_reports_iff (hinv : s.Predefined) {e : RegEntry} {hnd : RegHandle} {key : RegKey}
    {sub : PyStr} (hk : s.getKey hnd = some key) :
    s.Reports env (e.call env s hnd sub) (e.joined key.path sub) ↔
      (e.reportsDisposition → s.KnownTells env (e.joined key.path sub)) := by
  by_cases he : e.reportsDisposition
  · have hreports : s.ReportsKnown env (e.call env s hnd sub) (e.joined key.path sub) := by
      cases e with
      | regCreateKeyEx => exact regCreateKeyEx_reports (hkeyPath_of_getKey hinv hk)
      | zwCreateKey =>
        simp only [RegEntry.call, RegEntry.joined, zwCreateKey, hk]
        exact zwCreatePath_reports env s _
      | regOpenKeyEx => cases he
      | regCreateKey => cases he
      | regGetValue => cases he
    rw [hreports.reports_iff]
    simp [he]
  · refine iff_of_true (fun reply m disp hcall hdisp => ?_) fun h => absurd h he
    rw [call_reportsNothing (by simpa using he) hcall] at hdisp
    cases hdisp

end RegistryManager

section

variable {lc : DottedLowerCase} {config : List ConfigKey} {s : RegistryManager}

open RegistryManager

/-- A call opens the key of the full path if it joins the two paths to it. -/
theorem navigates_iff (hinv : s.NavInv) {e : RegEntry} {hnd : RegHandle} {key : RegKey} {sub : PyStr}
    (hk : s.getKey hnd = some key) :
    s.Navigates ⟨lc.toLowerCase, config⟩ e hnd key sub ↔ s.Joins ⟨lc.toLowerCase, config⟩ e key sub := by
  unfold Navigates Joins
  by_cases hnil : sub = []
  · subst hnil
    rw [if_pos rfl, openKey_openedKey, fullPath, if_pos rfl]
    by_cases hkeep : e.keepsHandle
    · have hiff := hinv.identified.named_known_iff ⟨lc.toLowerCase, config⟩ (mem_heldKeys_of_getKey hk)
        key.path e.creates
      rw [call_keeps hk hkeep, hiff]
      simp [hkeep]
    · have hkeep' : e.keepsHandle = false := by simpa using hkeep
      rw [call_key hinv.predefined hk (fun _ => hkeep'), openKey_openedKey, joined_nil]
      exact iff_of_true rfl fun h => absurd h hkeep
  · have hiff := hinv.identified.namedKey_iff ⟨lc.toLowerCase, config⟩
      (e.joined key.path sub) (fullPath key.path sub) e.creates
    rw [if_neg hnil, call_key hinv.predefined hk (fun h => absurd h hnil), openKey_openedKey,
      openKey_openedKey, hiff, samePath_joined_iff hnil]

theorem callLaw_iff (hinv : s.NavInv) (call : RegKeyCall) :
    s.CallLaw ⟨lc.toLowerCase, config⟩ call ↔ s.CallGood ⟨lc.toLowerCase, config⟩ call := by
  cases call with
  | below e hnd sub =>
    refine forall_congr' fun key => forall_congr' fun hk => ?_
    rw [navigates_iff hinv hk, call_reports_iff hinv.predefined hk]
  | zwCreateKey path => exact (zwCreatePath_reports _ s path).reports_iff
  | op op => exact Iff.rfl

theorem zwCreatePath_state (env : RegistryEnv) (s : RegistryManager) (path : PyStr) :
    RegCall.state s (s.zwCreatePath env path) = s.step env (.openKey path true) := by
  simp only [zwCreatePath, RegistryManager.step]
  cases s.openKey env path true with
  | error e => rfl
  | ok r =>
    obtain ⟨hnd, m⟩ := r
    dsimp only
    cases hnd.bind m.getKey <;> rfl

theorem call_state (env : RegistryEnv) (s : RegistryManager) (e : RegEntry) (hnd : RegHandle)
    (sub : PyStr) : RegCall.state s (e.call env s hnd sub) = s ∨
      ∃ path create, RegCall.state s (e.call env s hnd sub) = s.step env (.openKey path create) := by
  cases e with
  | regOpenKeyEx =>
    simp only [RegEntry.call, regOpenKeyEx, advOpenKey]
    cases s.hkeyPath hnd with
    | none => exact Or.inl rfl
    | some hkeyName =>
      right
      by_cases hnil : sub = []
      · refine ⟨hkeyName, false, ?_⟩
        simp only [hnil, ne_eq, not_true_eq_false, if_false, if_true, RegistryManager.step]
        cases s.openKey env hkeyName false <;> rfl
      · refine ⟨hkeyName ++ startSep sub, false, ?_⟩
        simp only [ne_eq, hnil, not_false_eq_true, if_true, RegistryManager.step]
        cases s.openKey env (hkeyName ++ startSep sub) false with
        | error e => rfl
        | ok r =>
          obtain ⟨hnd, m⟩ := r
          cases hnd <;> rfl
  | regCreateKey =>
    simp only [RegEntry.call, regCreateKey]
    cases s.getKey hnd with
    | none => exact Or.inl rfl
    | some key =>
      by_cases hnil : sub = []
      · simp only [hnil, ne_eq, not_true_eq_false, if_false]
        exact Or.inl rfl
      · refine Or.inr ⟨key.path ++ '\\' :: lstripSep sub, true, ?_⟩
        simp only [ne_eq, hnil, not_false_eq_true, if_true, RegistryManager.step]
        cases s.openKey env (key.path ++ '\\' :: lstripSep sub) true <;> rfl
  | regCreateKeyEx =>
    simp only [RegEntry.call, regCreateKeyEx]
    cases s.hkeyPath hnd with
    | none => exact Or.inl rfl
    | some keyPath =>
      refine Or.inr ⟨createPath keyPath sub, true, ?_⟩
      simp only [RegistryManager.step]
      cases s.openKey env (createPath keyPath sub) true with
      | error e => rfl
      | ok r =>
        obtain ⟨hnd, m⟩ := r
        cases hnd <;> rfl
  | regGetValue =>
    simp only [RegEntry.call, regGetValue]
    cases s.getKey hnd with
    | none => exact Or.inl rfl
    | some key =>
      by_cases hnil : sub = []
      · simp only [hnil, ne_eq, not_true_eq_false, if_false]
        exact Or.inl rfl
      · refine Or.inr ⟨key.path ++ '\\' :: sub, false, ?_⟩
        simp only [ne_eq, hnil, not_false_eq_true, if_true, RegistryManager.step]
        cases s.openKey env (key.path ++ '\\' :: sub) false with
        | error e => rfl
        | ok r =>
          obtain ⟨hnd, m⟩ := r
          cases hnd <;> rfl
  | zwCreateKey =>
    simp only [RegEntry.call, zwCreateKey]
    cases s.getKey hnd with
    | none => exact Or.inl rfl
    | some root => exact Or.inr ⟨_, true, zwCreatePath_state env s _⟩

theorem RegistryManager.NavInv.stepCall (h : s.NavInv) (env : RegistryEnv) (call : RegKeyCall) :
    (s.stepCall env call).NavInv := by
  cases call with
  | below e hnd sub =>
    rw [RegistryManager.stepCall]
    rcases call_state env s e hnd sub with hsame | ⟨path, create, hstep⟩
    · rw [hsame]
      exact h
    · rw [hstep]
      exact h.step _
  | zwCreateKey path =>
    have hstate : s.stepCall env (.zwCreateKey path) = s.step env (.openKey path true) :=
      zwCreatePath_state env s path
    rw [hstate]
    exact h.step _
  | op op => exact h.step op

/-- Along every history, each call below a key opens the key of the full path, and reports a key that
could be opened as an existing one, where it joins the two paths and the known keys tell. -/
theorem registry_calls_iff (lc : DottedLowerCase) (config : List ConfigKey)
    (hok : RegistryManager.init ⟨lc.toLowerCase, config⟩ = .ok s) (calls : List RegKeyCall) :
    FoldRuns.EachStep (RegistryManager.stepCall ⟨lc.toLowerCase, config⟩)
        (RegistryManager.CallLaw ⟨lc.toLowerCase, config⟩) s calls ↔
      FoldRuns.EachStep (RegistryManager.stepCall ⟨lc.toLowerCase, config⟩)
        (RegistryManager.CallGood ⟨lc.toLowerCase, config⟩) s calls := by
  refine FoldRuns.eachStep_iff_of_inv (A := fun _ _ => True) ?_ (NavInv.init hok) fun _ _ _ => trivial
  intro s call h _
  exact ⟨callLaw_iff h call, fun _ => h.stepCall _ call⟩

theorem ok_of_toOption {α : Type} {r : Except RegistryError α} {a : α} (h : r.toOption = some a) :
    r = .ok a := by
  cases r with
  | error e => cases h
  | ok b => exact congrArg Except.ok (Option.some.inj h)

def configuredKey : List ConfigKey := [⟨"HKEY_LOCAL_MACHINE\\a".toList, true⟩]

def createConfigured : RegKeyCall := .below .regCreateKeyEx (.predefined .localMachine) "a".toList

theorem registry_calls_iff_createConfigured :
    FoldRuns.EachStep (RegistryManager.stepCall ⟨asciiDotted.toLowerCase, configuredKey⟩)
        (RegistryManager.CallLaw ⟨asciiDotted.toLowerCase, configuredKey⟩) firstKeys [createConfigured] ↔
      FoldRuns.EachStep (RegistryManager.stepCall ⟨asciiDotted.toLowerCase, configuredKey⟩)
        (RegistryManager.CallGood ⟨asciiDotted.toLowerCase, configuredKey⟩) firstKeys
          [createConfigured] :=
  registry_calls_iff asciiDotted configuredKey rfl [createConfigured]

/-- The first open of a key of the configuration reports a new key. -/
theorem regCreateKeyEx_configured :
    ¬FoldRuns.EachStep (RegistryManager.stepCall ⟨asciiDotted.toLowerCase, configuredKey⟩)
      (RegistryManager.CallLaw ⟨asciiDotted.toLowerCase, configuredKey⟩) firstKeys
        [createConfigured] := by
  intro hlaw
  have hcall := hlaw [] createConfigured (List.prefix_refl _)
  have hreports := (hcall ⟨2, "HKEY_LOCAL_MACHINE".toList⟩ (by decide)).2
  have hdisp : (RegEntry.call ⟨asciiDotted.toLowerCase, configuredKey⟩ firstKeys
      (.predefined .localMachine) "a".toList .regCreateKeyEx).toOption.map (fun r => r.1.disp) =
        some (some .createdNewKey) := by
    decide
  have hopens : (firstKeys.openKey ⟨asciiDotted.toLowerCase, configuredKey⟩
      "HKEY_LOCAL_MACHINE\\a".toList false).toOption.map (fun r => r.1) =
        some (some (.table 0)) := by
    decide
  obtain ⟨⟨reply, m⟩, hreply, hcreated⟩ := Option.map_eq_some_iff.mp hdisp
  obtain ⟨⟨hnd, m'⟩, hopen, rfl⟩ := Option.map_eq_some_iff.mp hopens
  have hexisting := (hreports reply m _ (ok_of_toOption hreply) hcreated).mpr
    ⟨_, m', ok_of_toOption hopen⟩
  cases hexisting

end

end Speakeasy
