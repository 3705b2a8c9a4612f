import Speakeasy.ApiRegistrySteps
import Speakeasy.MemoryRuns

namespace Speakeasy

open PageEngine MemoryManager

namespace ApiRegistry

variable {ε : Type} [PageEngine ε] {env : MemEnv} {g : GuestMemory ε} {s : ApiRegistry}
  {m : ImageModule}

/-- A new entry with a new token, for an address that has none. -/
theorem Inv.storeNew (h : s.Inv) {exp : ExportEntry} {trap : Option Nat}
    (hnew : s.entries.lookup exp.address = none)
    (htrap : ∀ t, trap = some t → s.traps.lookup t = none ∧ t ∈ s.handed) :
    (((s.newEntry m exp trap).2.storeTrap (s.newEntry m exp trap).1).storeEntry
      (s.newEntry m exp trap).1).Inv :=
  Inv.store (h.setTables h.names h.ordinals) hnew htrap

theorem storeEntry_lookup (s : ApiRegistry) (e : ApiEntry) :
    ((s.storeTrap e).storeEntry e).entries.lookup e.address = some e := by
  unfold storeTrap storeEntry
  exact AList.lookup_insert _

theorem resolveEntry_spec (env : MemEnv) (g : GuestMemory ε) (m : ImageModule) (h : s.Inv)
    (exp : ExportEntry) :
    (∃ x s' g', s.resolveEntry env m exp g = (.error x, s', g') ∧ s'.Inv) ∨
    ∃ e s' g', s.resolveEntry env m exp g = (.ok e, s', g') ∧ s'.Inv ∧
      s'.entries.lookup e.address = some e := by
  unfold resolveEntry
  split
  next e he =>
    refine Or.inr ⟨e, s, g, rfl, h, ?_⟩
    rw [h.wired.address he]
    exact he
  next hnone =>
    split
    next =>
      rcases allocateTrap_cases env g h with
        ⟨x, s', g', ha, hs', _⟩ | ⟨t, s', g', ha, hs', hnew, hin, _, _, _, rfl⟩
      · rw [ha]
        exact Or.inl ⟨x, s', g', rfl, hs'⟩
      · rw [ha]
        dsimp only
        split
        next => exact Or.inl ⟨_, _, _, rfl, hs'⟩
        next =>
          refine Or.inr ⟨_, _, _, rfl, ?_, storeEntry_lookup _ _⟩
          refine hs'.storeNew hnone fun t' ht' => ?_
          cases ht'
          refine ⟨?_, hin⟩
          by_contra hsome
          obtain ⟨e, he⟩ := Option.ne_none_iff_exists'.mp hsome
          exact hnew (h.trap_handed he)
    next => exact Or.inr ⟨_, _, _, rfl, h.storeNew hnone (by simp), storeEntry_lookup _ _⟩

theorem addEntryName_eq (s : ApiRegistry) (e : ApiEntry) (name : PyStr) :
    ∃ entryNames, s.addEntryName e name = { s with entryNames := entryNames } := by
  by_cases hin : name ∈ (s.entryNames.lookup e.id).getD []
  · exact ⟨s.entryNames, if_pos hin⟩
  · exact ⟨_, if_neg hin⟩

theorem Inv.nameEntry (h : s.Inv) {e : ApiEntry} (he : s.entries.lookup e.address = some e)
    (name : PyStr) : ((s.addEntryName e name).setName m name e).Inv := by
  obtain ⟨entryNames, heq⟩ := addEntryName_eq s e name
  rw [heq]
  exact h.setTables (Reaches.set h.names m.id name he) h.ordinals

theorem Inv.setOrdinal (h : s.Inv) {e : ApiEntry} (he : s.entries.lookup e.address = some e)
    (ordinal : Nat) : (s.setOrdinal m ordinal e).Inv :=
  h.setTables h.names (Reaches.set h.ordinals m.id ordinal he)

theorem registerExports_inv (h : s.Inv) (exports : List ExportEntry) :
    (registerExports env m exports s g).2.1.Inv := by
  induction exports generalizing s g with
  | nil => exact h
  | cons exp exports ih =>
    rw [registerExports]
    split
    next => exact ih h
    next =>
      rcases resolveEntry_spec env g m h exp with
        ⟨x, s', g', hr, hs'⟩ | ⟨e, s', g', hr, hs', he⟩
      · rw [hr]
        exact hs'
      · rw [hr]
        dsimp only
        split
        next => exact ih (hs'.setOrdinal he _)
        next => exact ih (hs'.setOrdinal he _)
        next name _ _ =>
          have hn := hs'.nameEntry (m := m) he name
          obtain ⟨entryNames, heq⟩ := addEntryName_eq s' e name
          refine ih (hn.setOrdinal ?_ _)
          rw [heq]
          exact he

theorem registerModule_inv (h : s.Inv) : (s.registerModule env m g).2.1.Inv :=
  registerExports_inv (h.setTables (Reaches.setDefault h.names m.id) (Reaches.setDefault h.ordinals m.id)) _

theorem mem_addressesOf {a : Nat} :
    a ∈ s.addressesOf m ↔ ∃ e, s.entries.lookup a = some e ∧ e.module.id = m.id := by
  unfold addressesOf
  constructor
  · intro ha
    obtain ⟨x, hx, rfl⟩ := List.mem_map.mp ha
    obtain ⟨hx, hid⟩ := List.mem_filter.mp hx
    exact ⟨x.2, AList.mem_lookup_iff.mpr hx, by simpa using hid⟩
  · rintro ⟨e, he, hid⟩
    exact List.mem_map.mpr ⟨⟨a, e⟩, List.mem_filter.mpr ⟨AList.mem_lookup_iff.mp he, by simpa using hid⟩,
      rfl⟩

theorem dropEntry_lookup (s : ApiRegistry) (a b : Nat) :
    (s.dropEntry a).entries.lookup b = if b = a then none else s.entries.lookup b := by
  unfold dropEntry
  by_cases hab : b = a
  · rw [hab, if_pos rfl]
    split
    next hnone => exact hnone
    next => exact AList.lookup_erase _ _
  · rw [if_neg hab]
    split
    next => rfl
    next => exact AList.lookup_erase_ne hab

/-- Only the trap of the entry is dropped. -/
theorem dropEntry_traps_iff {a t : Nat} {e x : ApiEntry} (he : s.entries.lookup a = some e) :
    (s.dropEntry a).traps.lookup t = some x ↔ e.trap ≠ some t ∧ s.traps.lookup t = some x := by
  unfold dropEntry
  simp only [he]
  cases htrap : e.trap with
  | none => simp
  | some t' =>
    by_cases heq : t = t'
    · rw [heq, AList.lookup_erase]
      simp
    · rw [AList.lookup_erase_ne heq]
      simp [Ne.symm heq]

theorem dropEntry_traps {a t : Nat} {e : ApiEntry} (h : (s.dropEntry a).traps.lookup t = some e) :
    s.traps.lookup t = some e := by
  cases hentry : s.entries.lookup a with
  | none =>
    unfold dropEntry at h
    rw [hentry] at h
    exact h
  | some x => exact ((dropEntry_traps_iff hentry).mp h).2

theorem Wired.dropEntry (h : s.Wired) (a : Nat) : (s.dropEntry a).Wired := by
  cases he : s.entries.lookup a with
  | none =>
    unfold ApiRegistry.dropEntry
    rw [he]
    exact h
  | some e =>
    have haddr := h.address he
    have hentries : ∀ {b : Nat} {x : ApiEntry}, (s.dropEntry a).entries.lookup b = some x ↔
        b ≠ a ∧ s.entries.lookup b = some x := by
      intro b x
      rw [dropEntry_lookup]
      by_cases hb : b = a
      · simp [hb]
      · simp [hb]
    refine ⟨fun hx => h.address (hentries.mp hx).2, fun hx ht => ?_, fun hx => ?_⟩
    · obtain ⟨hb, hx⟩ := hentries.mp hx
      have hxt := h.trap hx ht
      refine (dropEntry_traps_iff he).mpr ⟨fun het => hb ?_, hxt⟩
      have hsame := Option.some.inj ((h.trap he het).symm.trans hxt)
      rw [← h.address hx, ← hsame, haddr]
    · obtain ⟨hne, hx⟩ := (dropEntry_traps_iff he).mp hx
      obtain ⟨ht, hin⟩ := h.entry hx
      refine ⟨ht, hentries.mpr ⟨fun hb => hne ?_, hin⟩⟩
      rw [hb, he] at hin
      rw [Option.some.inj hin]
      exact ht

theorem dropEntries_lookup (addresses : List Nat) (s : ApiRegistry) (b : Nat) :
    (addresses.foldl dropEntry s).entries.lookup b =
      if b ∈ addresses then none else s.entries.lookup b := by
  induction addresses generalizing s with
  | nil => simp
  | cons a addresses ih =>
    rw [List.foldl_cons, ih, dropEntry_lookup]
    by_cases hb : b = a
    · simp [hb]
    · simp [hb]

theorem Wired.dropEntries (h : s.Wired) (addresses : List Nat) :
    (addresses.foldl ApiRegistry.dropEntry s).Wired := by
  induction addresses generalizing s with
  | nil => exact h
  | cons a addresses ih => exact ih (h.dropEntry a)

theorem dropEntries_traps {addresses : List Nat} {t : Nat} {e : ApiEntry}
    (h : (addresses.foldl dropEntry s).traps.lookup t = some e) : s.traps.lookup t = some e := by
  induction addresses generalizing s with
  | nil => exact h
  | cons a addresses ih => exact dropEntry_traps (ih h)

/-- `dropEntry` changes the two dictionaries only. -/
theorem dropEntries_eq (addresses : List Nat) (s : ApiRegistry) :
    ∃ entries traps, addresses.foldl dropEntry s = { s with entries := entries, traps := traps } := by
  induction addresses generalizing s with
  | nil => exact ⟨s.entries, s.traps, rfl⟩
  | cons a addresses ih =>
    obtain ⟨entries, traps, heq⟩ := ih (s.dropEntry a)
    refine ⟨entries, traps, ?_⟩
    rw [List.foldl_cons, heq]
    unfold dropEntry
    split <;> rfl

theorem unregisterModule_lookup (s : ApiRegistry) (m : ImageModule) (b : Nat) :
    (s.unregisterModule m).entries.lookup b =
      if b ∈ s.addressesOf m then none else s.entries.lookup b :=
  dropEntries_lookup _ s b

theorem unregisterModule_names (s : ApiRegistry) (m : ImageModule) :
    (s.unregisterModule m).names = s.names.erase m.id ∧
      (s.unregisterModule m).ordinals = s.ordinals.erase m.id := by
  obtain ⟨entries, traps, heq⟩ := dropEntries_eq (s.addressesOf m) s
  unfold unregisterModule
  rw [heq]
  exact ⟨rfl, rfl⟩

/-- No other module reaches an entry of the module. -/
structure Unshared (s : ApiRegistry) (m : ImageModule) : Prop where
  names : ∀ id ≠ m.id, ∀ n e, PyTable.get s.names id n = some e → e.module.id ≠ m.id
  ordinals : ∀ id ≠ m.id, ∀ n e, PyTable.get s.ordinals id n = some e → e.module.id ≠ m.id

theorem Reaches.unregister {κ : Type} [DecidableEq κ] {t : PyTable κ ApiEntry}
    (h : Reaches t s.entries) (hu : ∀ id ≠ m.id, ∀ n e, t.get id n = some e → e.module.id ≠ m.id) :
    Reaches (t.erase m.id) (s.unregisterModule m).entries := by
  intro id key e he
  by_cases hid : id = m.id
  · rw [hid, PyTable.get_erase] at he
    cases he
  · rw [PyTable.get_erase_ne hid] at he
    have hin := h id key e he
    rw [unregisterModule_lookup, if_neg]
    · exact hin
    · intro ha
      obtain ⟨e', he', hmod⟩ := mem_addressesOf.mp ha
      rw [hin] at he'
      cases he'
      exact hu id hid key e he hmod

theorem unregisterModule_inv (h : s.Inv) (hu : s.Unshared m) : (s.unregisterModule m).Inv := by
  have hnames := h.names.unregister hu.names
  have hordinals := h.ordinals.unregister hu.ordinals
  have hwired := h.wired.dropEntries (s.addressesOf m)
  have htraps : ∀ {t : Nat} {e : ApiEntry},
      ((s.addressesOf m).foldl dropEntry s).traps.lookup t = some e → t ∈ s.handed :=
    fun ht => h.trap_handed (dropEntries_traps ht)
  unfold unregisterModule at hnames hordinals ⊢
  obtain ⟨entries, traps, heq⟩ := dropEntries_eq (s.addressesOf m) s
  rw [heq] at hnames hordinals hwired htraps ⊢
  exact ⟨⟨hwired.address, hwired.trap, hwired.entry⟩,
    ⟨h.counted.base, h.counted.handed, h.counted.count⟩, htraps, rfl, hnames, hordinals⟩

theorem dynamicExport_address (reference : SymbolRef) (address : Nat) :
    (dynamicExport reference address).address = address := by
  cases reference <;> rfl

theorem storeEntry_storeTrap (s : ApiRegistry) (e : ApiEntry) :
    (s.storeEntry e).storeTrap e = (s.storeTrap e).storeEntry e := by
  unfold storeTrap storeEntry
  split <;> rfl

theorem bindDynamic_inv (h : s.Inv) (reference : SymbolRef) {address trap : Nat}
    (hnew : s.entries.lookup address = none) (htrap : s.traps.lookup trap = none)
    (hin : trap ∈ s.handed) : (s.bindDynamic m reference address trap).2.Inv := by
  have haddr := dynamicExport_address reference address
  have htoken : ∀ t, some trap = some t → s.traps.lookup t = none ∧ t ∈ s.handed := by
    intro t ht
    cases ht
    exact ⟨htrap, hin⟩
  have hstore := h.storeNew (m := m) (haddr.symm ▸ hnew) htoken
  have hlookup := storeEntry_lookup (s.newEntry m (dynamicExport reference address) (some trap)).2
    (s.newEntry m (dynamicExport reference address) (some trap)).1
  unfold bindDynamic
  simp only [storeEntry_storeTrap]
  cases reference with
  | name name =>
    have hnamed := hstore.nameEntry (m := m) hlookup name
    exact hnamed.setTables hnamed.names hnamed.ordinals
  | ordinal n =>
    have hnamed := hstore.setOrdinal (m := m) hlookup n
    exact hnamed.setTables hnamed.names hnamed.ordinals

/-- A new entry at the address of another one puts the address into the sorted list twice. -/
theorem bindDynamic_twice {reference : SymbolRef} {address trap : Nat}
    (h : s.addresses = s.entries.keys.insertionSort (· ≤ ·)) (hold : s.entries.lookup address ≠ none) :
    (s.bindDynamic m reference address trap).2.addresses ≠
      (s.bindDynamic m reference address trap).2.entries.keys.insertionSort (· ≤ ·) := by
  have haddr := dynamicExport_address reference address
  have hstored : ∃ e : ApiEntry, e.address = address ∧
      (s.bindDynamic m reference address trap).2.addresses =
        s.addresses.orderedInsert (· ≤ ·) address ∧
      (s.bindDynamic m reference address trap).2.entries = s.entries.insert address e := by
    refine ⟨(s.newEntry m (dynamicExport reference address) (some trap)).1, haddr, ?_⟩
    unfold bindDynamic
    simp only [storeEntry_storeTrap]
    cases reference with
    | name name =>
      dsimp only
      obtain ⟨entryNames, heq⟩ := addEntryName_eq _ _ name
      rw [heq]
      exact ⟨rfl, rfl⟩
    | ordinal n => exact ⟨rfl, rfl⟩
  obtain ⟨e, -, haddresses, hentries⟩ := hstored
  intro heq
  have hlen := congrArg List.length heq
  have hmem : address ∈ s.entries.keys := by
    rw [← AList.mem_keys]
    exact AList.lookup_isSome.mp (Option.isSome_iff_ne_none.mpr hold)
  have hpos := List.length_pos_of_mem hmem
  rw [haddresses, hentries, AList.keys_insert, h] at hlen
  simp only [List.orderedInsert_length, List.length_insertionSort, List.length_cons,
    List.length_erase_of_mem hmem] at hlen
  omega

theorem makeDynamic_cases (env : MemEnv) (m : ImageModule) (g : GuestMemory ε) (h : s.Inv)
    (reference : SymbolRef) (slot : Nat) :
    (∃ x s' g', s.makeDynamic env m reference slot g = (.error x, s', g') ∧ s'.Inv) ∨
    ∃ (t : Nat) (s' : ApiRegistry) (g' : GuestMemory ε), s.makeDynamic env m reference slot g =
        (.ok (s'.bindDynamic m reference (slot + apiEntryOffset) t).1,
          (s'.bindDynamic m reference (slot + apiEntryOffset) t).2, g') ∧
      s'.Inv ∧ s'.entries = s.entries ∧ s'.traps.lookup t = none ∧ t ∈ s'.handed := by
  unfold makeDynamic
  rcases allocateTrap_cases env g h with
    ⟨x, s', g', ha, hs', _⟩ | ⟨t, s', g', ha, hs', hnew, hin, _, _, _, rfl⟩
  · rw [ha]
    exact Or.inl ⟨x, s', g', rfl, hs'⟩
  · rw [ha]
    dsimp only
    split
    next => exact Or.inl ⟨_, _, _, rfl, hs'⟩
    next =>
      refine Or.inr ⟨t, _, _, rfl, hs', rfl, ?_, hin⟩
      by_contra hsome
      obtain ⟨e, he⟩ := Option.ne_none_iff_exists'.mp hsome
      exact hnew (h.trap_handed he)

end ApiRegistry

inductive RegistryCall
  | registerModule (m : ImageModule)
  | unregisterModule (m : ImageModule)
  | dynamic (m : ImageModule) (reference : SymbolRef)

namespace ApiRegistry

/-- The entries, the tokens, the addresses and the tables agree. -/
structure Consistent (s : ApiRegistry) : Prop where
  traps : ∀ t e, s.traps.lookup t = some e →
    e.trap = some t ∧ s.entries.lookup e.address = some e ∧ t ∈ s.handed
  tokens : ∀ a b e f, s.entries.lookup a = some e → s.entries.lookup b = some f →
    e.trap ≠ none → e.trap = f.trap → e = f
  live : ∀ a e t, s.entries.lookup a = some e → e.trap = some t → t ∈ s.handed
  range : ∀ t ∈ s.handed, ∃ base, s.trapBase = some base ∧ base ≤ t ∧ t < base + trapSize ∧
    (t - base) % trapStride = 0
  once : s.handed.Nodup
  addresses : s.addresses = s.entries.keys.insertionSort (· ≤ ·)
  names : ∀ id n e, PyTable.get s.names id n = some e → ∃ a, s.entries.lookup a = some e
  ordinals : ∀ id n e, PyTable.get s.ordinals id n = some e → ∃ a, s.entries.lookup a = some e

variable {ε : Type} [PageEngine ε] {digit : Digits} {env : MemEnv} {s : ApiRegistry} {m : ImageModule}

theorem Inv.consistent (h : s.Inv) : s.Consistent where
  traps t e he := ⟨(h.wired.entry he).1, (h.wired.entry he).2, h.trap_handed he⟩
  tokens a b e f he hf hne heq := by
    obtain ⟨t, ht⟩ := Option.ne_none_iff_exists'.mp hne
    have hte := h.wired.trap he ht
    have htf := h.wired.trap hf (heq ▸ ht)
    exact Option.some.inj (hte.symm.trans htf)
  live a e t he ht := h.trap_handed (h.wired.trap he ht)
  range t ht := h.counted.token ht
  once := h.counted.once
  addresses := h.addresses
  names id n e he := ⟨_, h.names id n e he⟩
  ordinals id n e he := ⟨_, h.ordinals id n e he⟩

/-- One call, on the memory that the guest has at that time. A call that raises keeps what it changed
before it raised. -/
def step (digit : Digits) (env : MemEnv) (s : ApiRegistry) (g : GuestMemory ε) : RegistryCall → ApiRegistry
  | .registerModule m => (s.registerModule env m g).2.1
  | .unregisterModule m => s.unregisterModule m
  | .dynamic m reference => (dynamic digit env s m reference g).2.1

def run (digit : Digits) (env : MemEnv) (s : ApiRegistry) (calls : List (GuestMemory ε × RegistryCall)) : ApiRegistry :=
  calls.foldl (fun s call => s.step digit env call.1 call.2) s

/-- An unregistered module shares no entry with another one, and a new dynamic entry gets an address
that has none. -/
def Meets (digit : Digits) (env : MemEnv) (s : ApiRegistry) (g : GuestMemory ε) : RegistryCall → Prop
  | .registerModule _ => True
  | .unregisterModule m => s.Unshared m
  | .dynamic m reference => ∀ export', symbolRef digit reference = .ok export' → s.find m export' = none →
      ∀ slot, s.dynamicSlot m g = .ok slot → ∀ e, (s.makeDynamic env m export' slot g).1 = .ok e →
        s.entries.lookup (slot + apiEntryOffset) = none

def RunConsistent (digit : Digits) (env : MemEnv) (s : ApiRegistry) : List (GuestMemory ε × RegistryCall) → Prop
  | [] => s.Consistent
  | (g, call) :: calls => s.Consistent ∧ RunConsistent digit env (s.step digit env g call) calls

def RunMeets (digit : Digits) (env : MemEnv) (s : ApiRegistry) : List (GuestMemory ε × RegistryCall) → Prop
  | [] => True
  | (g, call) :: calls => s.Meets digit env g call ∧ RunMeets digit env (s.step digit env g call) calls

/-- What a dynamic call does: it changes nothing, or makes an entry that is not there. -/
theorem dynamic_cases (digit : Digits) (env : MemEnv) (s : ApiRegistry) (m : ImageModule) (reference : SymbolRef)
    (g : GuestMemory ε) :
    (dynamic digit env s m reference g).2 = (s, g) ∨
      ∃ export' slot, symbolRef digit reference = .ok export' ∧ s.find m export' = none ∧
        s.dynamicSlot m g = .ok slot ∧
        dynamic digit env s m reference g = s.makeDynamic env m export' slot g := by
  unfold dynamic lookup
  cases hexport : symbolRef digit reference with
  | error e => exact Or.inl rfl
  | ok export' =>
    simp only [Except.map]
    cases hfind : s.find m export' with
    | some entry => exact Or.inl rfl
    | none =>
      cases hslot : s.dynamicSlot m g with
      | error e => exact Or.inl rfl
      | ok slot => exact Or.inr ⟨export', slot, rfl, hfind, rfl, rfl⟩

theorem Inv.step (h : s.Inv) {g : GuestMemory ε} {call : RegistryCall} (hm : s.Meets digit env g call) :
    (s.step digit env g call).Inv := by
  cases call with
  | registerModule m => exact registerModule_inv h
  | unregisterModule m => exact unregisterModule_inv h hm
  | dynamic m reference =>
    rw [ApiRegistry.step]
    rcases dynamic_cases digit env s m reference g with hsame | ⟨export', slot, hexport, hnone, hslot, hmake⟩
    · rw [hsame]
      exact h
    · rw [hmake]
      rcases makeDynamic_cases env m g h export' slot with
        ⟨x, s', g', heq, hs'⟩ | ⟨t, s', g', heq, hs', hentries, htrap, hin⟩
      · rw [heq]
        exact hs'
      · have hfree := hm export' hexport hnone slot hslot _ (congrArg Prod.fst heq)
        rw [heq]
        exact bindDynamic_inv hs' _ (hentries ▸ hfree) htrap hin

/-- A call that leaves the registry consistent meets the condition. -/
theorem Inv.meets (h : s.Inv) {g : GuestMemory ε} {call : RegistryCall}
    (hc : (s.step digit env g call).Consistent) : s.Meets digit env g call := by
  cases call with
  | registerModule m => trivial
  | unregisterModule m =>
    obtain ⟨hnames, hordinals⟩ := unregisterModule_names s m
    have hout : ∀ {e : ApiEntry} {a : Nat}, (s.unregisterModule m).entries.lookup a = some e →
        e.module.id ≠ m.id := by
      intro e a ha hid
      rw [unregisterModule_lookup] at ha
      split at ha
      next => cases ha
      next hnot => exact hnot (mem_addressesOf.mpr ⟨e, ha, hid⟩)
    constructor
    · intro id hid n e he
      obtain ⟨a, ha⟩ := hc.names id n e (by
        rw [ApiRegistry.step, hnames, PyTable.get_erase_ne hid]
        exact he)
      exact hout ha
    · intro id hid n e he
      obtain ⟨a, ha⟩ := hc.ordinals id n e (by
        rw [ApiRegistry.step, hordinals, PyTable.get_erase_ne hid]
        exact he)
      exact hout ha
  | dynamic m reference =>
    intro export' hexport hnone slot hslot e he
    by_contra hold
    have hadd := hc.addresses
    have hmake : dynamic digit env s m reference g = s.makeDynamic env m export' slot g := by
      simp only [dynamic, lookup, hexport, Except.map, hnone, hslot]
    rw [ApiRegistry.step, hmake] at hadd
    rcases makeDynamic_cases env m g h export' slot with
      ⟨x, s', g', heq, hs'⟩ | ⟨t, s', g', heq, hs', hentries, htrap, hin⟩
    · rw [heq] at he
      cases he
    · rw [heq] at hadd
      exact bindDynamic_twice hs'.addresses (hentries ▸ hold) hadd

/-- A run is consistent throughout if and only if each of its calls meets the condition. -/
theorem registry_run_consistent (digit : Digits) (env : MemEnv) (calls : List (GuestMemory ε × RegistryCall)) :
    RunConsistent digit env {} calls ↔ RunMeets digit env {} calls := by
  have hrun : ∀ s : ApiRegistry, s.Inv → (RunConsistent digit env s calls ↔ RunMeets digit env s calls) := by
    induction calls with
    | nil => exact fun s h => iff_of_true h.consistent trivial
    | cons c calls ih =>
      obtain ⟨g, call⟩ := c
      intro s h
      constructor
      · rintro ⟨_, hrest⟩
        have hnext : (s.step digit env g call).Consistent := by
          cases calls with
          | nil => exact hrest
          | cons => exact hrest.1
        have hm := h.meets hnext
        exact ⟨hm, (ih _ (h.step hm)).mp hrest⟩
      · rintro ⟨hm, hrest⟩
        exact ⟨h.consistent, (ih _ (h.step hm)).mpr hrest⟩
  exact hrun {} inv_empty

end ApiRegistry

def unmappedModule : ImageModule where
  base := 0x10000000
  ep := 0
  imageSize := 0x10000
  emuPath := "C:\\a.dll".toList
  isExe := false
  id := 0
  name := "a".toList
  arch := .x86
  source := .guestPe
  sections := []
  exports := [{ name := some "f".toList, address := 0x10001000, ordinal := 1 }]

/-- A module that the loader put where the first one was. -/
def sameBaseModule : ImageModule :=
  { unmappedModule with
    id := 1
    name := "b".toList
    exports := [{ name := some "g".toList, address := 0x10001000, ordinal := 1 }] }

def emptyGuest : GuestMemory RegionEngine := ⟨MemoryManager.init emptyEngine, fun _ => 0⟩

/-- The ASCII digits. -/
def asciiDigits : Digits := fun c => if c.isDigit then some (some (c.toNat - '0'.toNat)) else none

def sharedThenUnregister : List (GuestMemory RegionEngine × RegistryCall) :=
  [(emptyGuest, .registerModule unmappedModule), (emptyGuest, .registerModule sameBaseModule),
    (emptyGuest, .unregisterModule unmappedModule)]

/-- A module that shares an address keeps the name of an entry that another module took away. -/
theorem registry_run_not_consistent : ¬∀ calls : List (GuestMemory RegionEngine × RegistryCall),
    ApiRegistry.RunConsistent asciiDigits plainEnv {} calls := by
  intro h
  have hlast : (ApiRegistry.run asciiDigits plainEnv {} sharedThenUnregister).Consistent :=
    (h sharedThenUnregister).2.2.2
  obtain ⟨a, ha⟩ := hlast.names 1 "g".toList
    ⟨0, unmappedModule, { name := some "f".toList, address := 0x10001000, ordinal := 1 }, none⟩
    (by decide)
  have hin := AList.mem_keys.mp (AList.lookup_isSome.mp (Option.isSome_of_eq_some ha))
  have hempty : (ApiRegistry.run asciiDigits plainEnv {} sharedThenUnregister).entries.keys = [] := by
    decide
  rw [hempty] at hin
  cases hin

end Speakeasy
