import Speakeasy.ExportForwarders
import Speakeasy.ApiRegistryRuns

namespace Speakeasy

section

open PageEngine

/-- A reference that `symbol_ref` gave is not changed again. -/
theorem symbolRef_again {digit : Digits} {reference normal : SymbolRef} (h : symbolRef digit reference = .ok normal) :
    symbolRef digit normal = .ok normal := by
  cases reference with
  | ordinal n =>
    cases h
    rfl
  | name s =>
    by_cases hordinal : "ordinal_".toList <+: s ∧ digit.isDigit (s.drop 8)
    · rw [symbolRef, if_pos hordinal] at h
      cases hint : digit.int (s.drop 8) with
      | error e =>
        rw [hint] at h
        cases h
      | ok n =>
        rw [hint] at h
        cases h
        rfl
    · rw [symbolRef, if_neg hordinal] at h
      cases h
      exact if_neg hordinal

namespace ExportEnv

variable {ε : Type} [PageEngine ε] (env : ExportEnv) (s : ApiRegistry) (g : GuestMemory ε)

/-- The export of a module that a forwarder names. -/
abbrev Node (env : ExportEnv) := env.Module × SymbolRef

/-- What the export of a module says: the end of a chain of forwarders, a bad forwarder, or the next export. -/
def link (node : env.Node) : Link env.Node ResolveAnswer :=
  if !validReference node.2 then .final (.address 0)
  else
    match s.find node.1.1 node.2 with
    | none => .final (.address 0)
    | some entry =>
      match forwarder g node.1.1 entry with
      | none => .final (.address entry.address)
      | some text =>
        match env.forwarderTarget g node.1.1 entry text with
        | .inl answer => .broken answer
        | .inr (target, reference) =>
          match symbolRef env.digit reference with
          | .error e => .broken (.error e)
          | .ok reference => .forward (target, reference)

/-- The export that a number of forwarders leads to from an export of a module. -/
def Chain (k : Nat) (m : env.Module) (reference : SymbolRef) (node : env.Node) : Prop :=
  ∃ first, symbolRef env.digit reference = .ok first ∧ hops (env.link s g) k (m, first) = some node

def Missing (node : env.Node) : Prop := validReference node.2 = false ∨ s.find node.1.1 node.2 = none

/-- The export is there, and is no forwarder. -/
def Exported (node : env.Node) (entry : ApiEntry) : Prop :=
  validReference node.2 = true ∧ s.find node.1.1 node.2 = some entry ∧ forwarder g node.1.1 entry = none

/-- The export is a forwarder whose text has no dot, or cannot be read. -/
def Targetless (node : env.Node) : Prop :=
  validReference node.2 = true ∧ ∃ entry text, s.find node.1.1 node.2 = some entry ∧
    forwarder g node.1.1 entry = some text ∧ ∀ target ∈ env.targetText g node.1.1 entry text, '.' ∉ target

/-- The answer of `resolve_export` for a chain of forwarders between loaded modules, with a limit of hops. -/
structure ForwarderLaw (limit : Nat) (m : env.Module) (reference : SymbolRef) (allowDynamic strict : Bool) : Prop where
  found : ∀ {k node entry}, k ≤ limit → env.Chain s g k m reference node → env.Exported s g node entry →
    (env.resolveExport s g m reference allowDynamic strict []).1 = .address entry.address
  cyclic : ∀ {i j node}, i < j → env.Chain s g i m reference node → env.Chain s g j m reference node →
    (env.resolveExport s g m reference allowDynamic strict []).1 = .address 0
  long : ∀ {k node}, limit < k → env.Chain s g k m reference node →
    (env.resolveExport s g m reference allowDynamic strict []).1 = .address 0
  missing : ∀ {k node}, env.Chain s g k m reference node → env.Missing s node →
    (k = 0 → strict = true ∨ env.eligible m.1 node.2 allowDynamic = false) →
    (env.resolveExport s g m reference allowDynamic strict []).1 = .address 0
  targetless : ∀ {k node}, env.Chain s g k m reference node → env.Targetless s g node →
    (env.resolveExport s g m reference allowDynamic strict []).1 = .address 0

/-- The key of the visited set. -/
def key (node : env.Node) : Nat × SymbolRef := (node.1.1.id, node.2)

theorem key_injective : Function.Injective env.key := by
  intro a b h
  obtain ⟨hid, hreference⟩ := Prod.mk.inj h
  have hmodule : a.1 = b.1 := Subtype.ext (List.inj_on_of_nodup_map env.distinct a.1.2 b.1.2 hid)
  exact Prod.ext hmodule hreference

theorem exportEntry_eq {m : ImageModule} {reference : SymbolRef} {allowDynamic strict : Bool}
    (hreference : symbolRef env.digit reference = .ok reference)
    (h : (s.find m reference).isSome = true ∨ strict = true ∨ env.eligible m reference allowDynamic = false) :
    env.exportEntry s g m reference allowDynamic strict = (.ok (s.find m reference), s, g) := by
  have hlookup : s.lookup env.digit m reference = .ok (s.find m reference) := by
    rw [ApiRegistry.lookup, hreference]
    rfl
  unfold exportEntry
  rw [hlookup]
  cases hfind : s.find m reference with
  | some entry => rfl
  | none =>
    have hstop : (strict || !env.eligible m reference allowDynamic) = true := by
      rw [hfind] at h
      cases h with
      | inl hsome => cases hsome
      | inr hno =>
        cases hno with
        | inl hstrict => rw [hstrict, Bool.true_or]
        | inr heligible => rw [heligible, Bool.not_false, Bool.or_true]
    exact if_pos hstop

theorem resolveExport_symbolRef {reference normal : SymbolRef} (h : symbolRef env.digit reference = .ok normal)
    (m : env.Module) (allowDynamic strict : Bool) (seen : List (Nat × SymbolRef)) :
    env.resolveExport s g m reference allowDynamic strict seen =
      env.resolveExport s g m normal allowDynamic strict seen := by
  unfold resolveExport
  rw [h, symbolRef_again h]

theorem resolveExport_error {reference : SymbolRef} {e : ApiError} (h : symbolRef env.digit reference = .error e)
    (m : env.Module) (allowDynamic strict : Bool) (seen : List (Nat × SymbolRef)) :
    env.resolveExport s g m reference allowDynamic strict seen = (.error e, s, g) := by
  unfold resolveExport
  rw [h]

/-- With an export that is there, or without dynamic exports, the chain of the links is followed. -/
theorem resolveExport_eq_follow {m : env.Module} {reference : SymbolRef} {allowDynamic strict : Bool}
    {seen : List (Nat × SymbolRef)} (hreference : symbolRef env.digit reference = .ok reference)
    (hentry : (s.find m.1 reference).isSome = true ∨ strict = true ∨ env.eligible m.1 reference allowDynamic = false) :
    (env.resolveExport s g m reference allowDynamic strict seen).1 =
      followLinks (env.link s g) env.key 32 (.address 0) seen (m, reference) := by
  generalize hn : 32 - seen.length = n
  induction n using Nat.strong_induction_on generalizing m reference allowDynamic strict seen with
  | _ n ih =>
    unfold resolveExport followLinks
    simp only [hreference, env.exportEntry_eq s g hreference hentry, link]
    cases hvalid : validReference reference with
    | false => rfl
    | true =>
      simp only [Bool.not_true, Bool.false_eq_true, if_false]
      cases hlookup : s.find m.1 reference with
      | none => rfl
      | some entry =>
        simp only
        cases htext : forwarder g m.1 entry with
        | none => rfl
        | some text =>
          simp only
          cases htarget : env.forwarderTarget g m.1 entry text with
          | inl answer =>
            by_cases hstop : (m.1.id, reference) ∈ seen ∨ 32 ≤ seen.length
            · rw [if_pos hstop]
              exact (if_pos hstop).symm
            · rw [if_neg hstop]
              exact (if_neg hstop).symm
          | inr target =>
            have hlt : ¬32 ≤ seen.length → 32 - ((m.1.id, reference) :: seen).length < n := by
              intro hle
              rw [List.length_cons]
              omega
            by_cases hstop : (m.1.id, reference) ∈ seen ∨ 32 ≤ seen.length
            · rw [if_pos hstop]
              simp only
              cases symbolRef env.digit target.2 with
              | error e => exact (if_pos hstop).symm
              | ok normal => exact (if_pos hstop).symm
            · rw [if_neg hstop]
              simp only
              cases hnormal : symbolRef env.digit target.2 with
              | error e =>
                rw [env.resolveExport_error s g hnormal]
                exact (if_neg hstop).symm
              | ok normal =>
                rw [env.resolveExport_symbolRef s g hnormal]
                refine Eq.trans ?_ (if_neg hstop).symm
                exact ih _ (hlt (not_or.mp hstop).2) (symbolRef_again hnormal) (Or.inr (Or.inl rfl)) rfl

/-- A first export that has a next one is there. -/
theorem hops_find {k : Nat} {start node : env.Node} (h : hops (env.link s g) (k + 1) start = some node) :
    (s.find start.1.1 start.2).isSome = true := by
  rw [hops_succ, link] at h
  split at h
  next hlink =>
    split at hlink
    next => cases hlink
    next =>
      split at hlink
      next => cases hlink
      next entry hentry =>
        rw [hentry]
        rfl
  next => cases h

theorem Exported.link {node : env.Node} {entry : ApiEntry} (h : env.Exported s g node entry) :
    env.link s g node = .final (.address entry.address) := by
  obtain ⟨hvalid, hlookup, hforwarder⟩ := h
  unfold ExportEnv.link
  simp only [hvalid, hlookup, hforwarder]
  rfl

theorem Missing.link {node : env.Node} (h : env.Missing s node) : env.link s g node = .final (.address 0) := by
  unfold ExportEnv.link
  cases hvalid : validReference node.2 with
  | false => rfl
  | true =>
    cases h with
    | inl hinvalid =>
      rw [hvalid] at hinvalid
      cases hinvalid
    | inr hlookup =>
      rw [hlookup]
      rfl

theorem Targetless.link {node : env.Node} (h : env.Targetless s g node) :
    env.link s g node = .broken (.address 0) := by
  obtain ⟨hvalid, entry, text, hlookup, hforwarder, htarget⟩ := h
  have hanswer : env.forwarderTarget g node.1.1 entry text = .inl (.address 0) := by
    unfold forwarderTarget
    cases hread : env.targetText g node.1.1 entry text with
    | none => rfl
    | some target =>
      have hsplit : rsplitDot target = none := if_neg (htarget target hread)
      simp only [hsplit]
  unfold ExportEnv.link
  simp only [hvalid, hlookup, hforwarder, hanswer]
  rfl

variable {m : env.Module} {reference : SymbolRef} {allowDynamic strict : Bool}

theorem resolveExport_follow {first : SymbolRef} (hfirst : symbolRef env.digit reference = .ok first)
    (hentry : (s.find m.1 first).isSome = true ∨ strict = true ∨ env.eligible m.1 first allowDynamic = false) :
    (env.resolveExport s g m reference allowDynamic strict []).1 =
      followLinks (env.link s g) env.key 32 (.address 0) [] (m, first) := by
  rw [env.resolveExport_symbolRef s g hfirst]
  exact env.resolveExport_eq_follow s g (symbolRef_again hfirst) hentry

/-- The first export of a chain is there, where the chain has a hop or its only export is there. -/
theorem chain_find {k : Nat} {first : SymbolRef} {node : env.Node} (hhops : hops (env.link s g) k (m, first) = some node)
    (hfirst : k = 0 → (s.find node.1.1 node.2).isSome = true) : (s.find m.1 first).isSome = true := by
  cases k with
  | zero =>
    have hnode : (m, first) = node := Option.some.inj hhops
    have hfind := hfirst rfl
    rwa [← hnode] at hfind
  | succ k => exact env.hops_find s g hhops

theorem resolveExport_found {k : Nat} {node : env.Node} {entry : ApiEntry} (hk : k ≤ 32)
    (hchain : env.Chain s g k m reference node) (hexported : env.Exported s g node entry) :
    (env.resolveExport s g m reference allowDynamic strict []).1 = .address entry.address := by
  obtain ⟨first, hfirst, hhops⟩ := hchain
  have hentry : (s.find m.1 first).isSome = true :=
    env.chain_find s g hhops fun _ => Option.isSome_of_eq_some hexported.2.1
  rw [env.resolveExport_follow s g hfirst (Or.inl hentry)]
  exact followLinks_final env.key_injective hhops (Exported.link env s g hexported) hk

theorem resolveExport_long {k : Nat} {node : env.Node} (hk : 32 < k) (hchain : env.Chain s g k m reference node) :
    (env.resolveExport s g m reference allowDynamic strict []).1 = .address 0 := by
  obtain ⟨first, hfirst, hhops⟩ := hchain
  have hentry : (s.find m.1 first).isSome = true := env.chain_find s g hhops fun h => by omega
  rw [env.resolveExport_follow s g hfirst (Or.inl hentry)]
  exact followLinks_long hk (Option.isSome_of_eq_some hhops)

theorem resolveExport_missing {k : Nat} {node : env.Node} (hchain : env.Chain s g k m reference node)
    (hmissing : env.Missing s node)
    (hstrict : k = 0 → strict = true ∨ env.eligible m.1 node.2 allowDynamic = false) :
    (env.resolveExport s g m reference allowDynamic strict []).1 = .address 0 := by
  by_cases hle : k ≤ 32
  · obtain ⟨first, hfirst, hhops⟩ := hchain
    have hentry : (s.find m.1 first).isSome = true ∨ strict = true ∨
        env.eligible m.1 first allowDynamic = false := by
      cases k with
      | zero =>
        have hnode : (m, first) = node := Option.some.inj hhops
        have hno := hstrict rfl
        rw [← hnode] at hno
        exact Or.inr hno
      | succ k => exact Or.inl (env.hops_find s g hhops)
    rw [env.resolveExport_follow s g hfirst hentry]
    exact followLinks_final env.key_injective hhops (Missing.link env s g hmissing) hle
  · exact env.resolveExport_long s g (Nat.lt_of_not_le hle) hchain

theorem resolveExport_targetless {k : Nat} {node : env.Node} (hchain : env.Chain s g k m reference node)
    (htargetless : env.Targetless s g node) :
    (env.resolveExport s g m reference allowDynamic strict []).1 = .address 0 := by
  obtain ⟨first, hfirst, hhops⟩ := hchain
  have hentry : (s.find m.1 first).isSome = true := by
    refine env.chain_find s g hhops fun _ => ?_
    obtain ⟨-, entry, text, hfind, -⟩ := htargetless
    exact Option.isSome_of_eq_some hfind
  rw [env.resolveExport_follow s g hfirst (Or.inl hentry)]
  exact followLinks_stuck hhops (Targetless.link env s g htargetless)

/-- A chain that comes to an export twice has any number of hops. -/
theorem chain_twice {i j : Nat} {node : env.Node} (hij : i < j) (hi : env.Chain s g i m reference node)
    (hj : env.Chain s g j m reference node) (k : Nat) : ∃ last, env.Chain s g k m reference last := by
  obtain ⟨first, hfirst, hi⟩ := hi
  obtain ⟨first', hfirst', hj⟩ := hj
  rw [hfirst] at hfirst'
  cases hfirst'
  obtain ⟨last, hlast⟩ := Option.isSome_iff_exists.mp (hops_twice hij hi hj k)
  exact ⟨last, first, hfirst, hlast⟩

/-- A chain is followed for 32 hops. -/
theorem resolveExport_law (m : env.Module) (reference : SymbolRef) (allowDynamic strict : Bool) :
    env.ForwarderLaw s g 32 m reference allowDynamic strict where
  found hk hchain hexported := env.resolveExport_found s g hk hchain hexported
  cyclic hij hi hj := by
    obtain ⟨last, hlast⟩ := env.chain_twice s g hij hi hj 33
    exact env.resolveExport_long s g (by decide) hlast
  long hk hchain := env.resolveExport_long s g hk hchain
  missing hchain hmissing hstrict := env.resolveExport_missing s g hchain hmissing hstrict
  targetless hchain htargetless := env.resolveExport_targetless s g hchain htargetless

end ExportEnv

end

section

open PageEngine

namespace ExportEnv

variable {ε : Type} [PageEngine ε] (g : GuestMemory ε)

/-! A chain with 32 hops, of the ordinals 1 to 33 of one module. -/

def chainModule : ImageModule where
  base := 0x10000000
  ep := 0
  imageSize := 0x1000
  emuPath := "c:\\windows\\system32\\a.dll".toList
  isExe := false
  id := 0
  name := ['a']
  arch := .x86
  source := .synthetic
  sections := []
  exports := []

def chainEnv : ExportEnv where
  mem := ⟨none, none, false, none⟩
  functionsAlwaysExist := false
  hasApiHook _ _ := false
  hasApiSignature _ _ := false
  containerImage := none
  modules := [chainModule]
  distinct := List.nodup_singleton _
  getModByName _ := some ⟨chainModule, List.mem_singleton_self _⟩
  digit := asciiDigits
  decodeAnsi b := Char.ofNat b.toNat

/-- The name of an ordinal with two digits. -/
def ordinalName (n : Nat) : PyStr := ['#', Nat.digitChar (n / 10), Nat.digitChar (n % 10)]

/-- The ordinals are forwarders to the next one, but for the last. -/
def chainEntry (n : Nat) : ApiEntry where
  id := n
  module := chainModule
  exportEntry :=
    { name := none
      address := 0x10000000 + n
      ordinal := n
      forwarder := if n ≤ 32 then some ('a' :: '.' :: ordinalName (n + 1)) else none }
  trap := none

def chainRegistry : ApiRegistry :=
  (List.range 33).foldl (fun s n => s.setOrdinal chainModule (n + 1) (chainEntry (n + 1))) {}

def chainNode (n : Nat) : chainEnv.Node := (⟨chainModule, List.mem_singleton_self _⟩, .ordinal n)

theorem chain_entries : ∀ n < 34, 0 < n → chainRegistry.find chainModule (.ordinal n) = some (chainEntry n) := by
  decide

theorem chain_targets : ∀ n < 34, 0 < n → rsplitDot ('a' :: '.' :: ordinalName n) = some (['a'], ordinalName n) ∧
    chainEnv.targetReference (ordinalName n) = .ok (.ordinal n) := by
  decide

theorem chain_valid {n : Nat} (h : n < 34) (hpos : 0 < n) : validReference (.ordinal n) = true := by
  show (decide (0 < n) && decide (n ≤ 0xFFFF)) = true
  rw [decide_eq_true hpos, decide_eq_true (by omega)]
  rfl

theorem chain_link {n : Nat} (h : n ≤ 32) (hpos : 0 < n) :
    chainEnv.link chainRegistry g (chainNode n) = .forward (chainNode (n + 1)) := by
  obtain ⟨hsplit, htarget⟩ := chain_targets (n + 1) (by omega) (Nat.succ_pos n)
  have hlookup := chain_entries n (by omega) hpos
  have hforwarder : forwarder g chainModule (chainEntry n) = some ('a' :: '.' :: ordinalName (n + 1)) := by
    show (if n ≤ 32 then some ('a' :: '.' :: ordinalName (n + 1)) else none) = _
    rw [if_pos h]
  have hanswer : chainEnv.forwarderTarget g chainModule (chainEntry n) ('a' :: '.' :: ordinalName (n + 1)) =
      .inr (chainNode (n + 1)) := by
    have htext : chainEnv.targetText g chainModule (chainEntry n) ('a' :: '.' :: ordinalName (n + 1)) =
        some ('a' :: '.' :: ordinalName (n + 1)) := rfl
    unfold forwarderTarget
    simp only [htext, hsplit, htarget]
    rfl
  unfold ExportEnv.link
  simp only [chainNode, chain_valid (by omega) hpos, hlookup, hforwarder, hanswer]
  rfl

theorem chain_hops {k : Nat} (h : k ≤ 32) :
    hops (chainEnv.link chainRegistry g) k (chainNode 1) = some (chainNode (k + 1)) := by
  induction k with
  | zero => rfl
  | succ k ih =>
    have hone : hops (chainEnv.link chainRegistry g) 1 (chainNode (k + 1)) = some (chainNode (k + 1 + 1)) := by
      rw [hops_succ, chain_link g h (Nat.succ_pos k)]
      rfl
    rw [hops_add, ih (by omega), Option.bind_some, hone]

/-- The chain with 32 hops is not too long for the code. -/
theorem resolveExport_not_law : ¬∀ (env : ExportEnv) (s : ApiRegistry) (g : GuestMemory RegionEngine) (m : env.Module)
    (reference : SymbolRef) (allowDynamic strict : Bool), env.ForwarderLaw s g 31 m reference allowDynamic strict := by
  intro hlaw
  have hchain : chainEnv.Chain chainRegistry emptyGuest 32 (chainNode 1).1 (.ordinal 1) (chainNode 33) :=
    ⟨.ordinal 1, rfl, chain_hops emptyGuest (by decide)⟩
  have hexported : chainEnv.Exported chainRegistry emptyGuest (chainNode 33) (chainEntry 33) :=
    ⟨by decide, chain_entries 33 (by decide) (by decide), rfl⟩
  have hfound : (chainEnv.resolveExport chainRegistry emptyGuest (chainNode 1).1 (.ordinal 1) false true []).1 =
      .address (chainEntry 33).address :=
    chainEnv.resolveExport_found chainRegistry emptyGuest (by decide) hchain hexported
  have hzero := (hlaw chainEnv chainRegistry emptyGuest (chainNode 1).1 (.ordinal 1) false true).long (by decide) hchain
  rw [hfound] at hzero
  have hne : (chainEntry 33).address ≠ 0 := by decide
  exact hne (ResolveAnswer.address.inj hzero)

end ExportEnv

end

end Speakeasy
