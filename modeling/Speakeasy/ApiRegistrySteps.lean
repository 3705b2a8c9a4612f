import Speakeasy.ApiRegistry
import Mathlib.Data.List.Dedup

namespace Speakeasy

open PageEngine MemoryManager

namespace ApiRegistry

/-- Entries and tokens refer to each other. -/
structure Wired (s : ApiRegistry) : Prop where
  address : ∀ {a : Nat} {e : ApiEntry}, s.entries.lookup a = some e → e.address = a
  trap : ∀ {a t : Nat} {e : ApiEntry}, s.entries.lookup a = some e → e.trap = some t →
    s.traps.lookup t = some e
  entry : ∀ {t : Nat} {e : ApiEntry}, s.traps.lookup t = some e →
    e.trap = some t ∧ s.entries.lookup e.address = some e

/-- The tokens are handed out one after the other. -/
structure Counted (s : ApiRegistry) : Prop where
  base : s.trapBase = none → s.trapCount = 0
  handed : s.handed = (List.range s.trapCount).map fun i => s.trapBase.getD 0 + i * trapStride
  count : s.trapCount * trapStride ≤ trapSize

/-- The entries of a table are in the dictionary of the entries. -/
def Reaches {κ : Type} [DecidableEq κ] (t : PyTable κ ApiEntry) (entries : PyDict Nat ApiEntry) : Prop :=
  ∀ id key e, t.get id key = some e → entries.lookup e.address = some e

structure Inv (s : ApiRegistry) : Prop where
  wired : s.Wired
  counted : s.Counted
  trap_handed : ∀ {t : Nat} {e : ApiEntry}, s.traps.lookup t = some e → t ∈ s.handed
  addresses : s.addresses = s.entries.keys.insertionSort (· ≤ ·)
  names : Reaches s.names s.entries
  ordinals : Reaches s.ordinals s.entries

theorem inv_empty : Inv {} where
  wired := ⟨by simp, by simp, by simp⟩
  counted := ⟨by simp, by simp, by simp [trapSize]⟩
  trap_handed := by simp
  addresses := rfl
  names _ _ _ h := by simp [PyTable.get] at h
  ordinals _ _ _ h := by simp [PyTable.get] at h

variable {s : ApiRegistry} {m : ImageModule} {e : ApiEntry}

theorem Counted.token (h : s.Counted) {t : Nat} (ht : t ∈ s.handed) :
    ∃ base, s.trapBase = some base ∧ base ≤ t ∧ t < base + trapSize ∧ (t - base) % trapStride = 0 := by
  rw [h.handed] at ht
  obtain ⟨i, hi, rfl⟩ := List.mem_map.mp ht
  have hi : i < s.trapCount := List.mem_range.mp hi
  cases hb : s.trapBase with
  | none =>
    have := h.base hb
    omega
  | some base =>
    have := h.count
    simp only [trapStride, trapSize, Option.getD_some] at *
    exact ⟨base, rfl, by omega, by omega, by omega⟩

theorem Counted.once (h : s.Counted) : s.handed.Nodup := by
  rw [h.handed]
  refine List.nodup_range.map fun i j hij => ?_
  simp only [trapStride] at hij
  omega

/-- Taking the token for the current count. -/
theorem Counted.take (h : s.Counted) {base : Nat} (hb : s.trapBase = some base)
    (hlt : s.trapCount * trapStride < trapSize) :
    Counted { s with
      trapCount := s.trapCount + 1
      handed := s.handed ++ [base + s.trapCount * trapStride] } ∧
      base + s.trapCount * trapStride ∉ s.handed := by
  constructor
  · constructor
    · intro hn
      rw [hb] at hn
      cases hn
    · simp only [h.handed, List.range_succ, List.map_append, List.map_cons, List.map_nil, hb,
        Option.getD_some]
    · simp only [trapStride, trapSize] at *
      omega
  · rw [h.handed]
    intro hin
    obtain ⟨i, hi, heq⟩ := List.mem_map.mp hin
    have hi := List.mem_range.mp hi
    simp only [hb, Option.getD_some, trapStride] at heq
    omega

/-- What an attempt to hand out a token can change. -/
theorem Inv.retoken (h : s.Inv) {trapBase : Option Nat} {trapCount : Nat} {handed : List Nat}
    (hc : Counted { s with trapBase := trapBase, trapCount := trapCount, handed := handed })
    (hsub : s.handed ⊆ handed) :
    Inv { s with trapBase := trapBase, trapCount := trapCount, handed := handed } where
  wired := ⟨h.wired.address, h.wired.trap, h.wired.entry⟩
  counted := hc
  trap_handed ht := hsub (h.trap_handed ht)
  addresses := h.addresses
  names := h.names
  ordinals := h.ordinals

variable {ε : Type} [PageEngine ε]

theorem reserveTraps_cases (env : MemEnv) (g : GuestMemory ε) (h : s.Inv) :
    (∃ x g', s.reserveTraps env g = (.error x, s, g')) ∨
    ∃ base g', s.reserveTraps env g = (.ok base, { s with trapBase := some base }, g') ∧
      Counted { s with trapBase := some base } := by
  unfold reserveTraps
  split
  next base hb =>
    have heq : { s with trapBase := some base } = s := by rw [← hb]
    exact Or.inr ⟨base, g, by rw [heq], heq ▸ h.counted⟩
  next hb =>
    have hcount := h.counted.base hb
    have hhanded : s.handed = [] := by rw [h.counted.handed, hcount]; rfl
    split
    next => exact Or.inl ⟨_, _, rfl⟩
    next base size _ =>
      split
      next => exact Or.inl ⟨_, _, rfl⟩
      next =>
        split
        next => exact Or.inl ⟨_, _, rfl⟩
        next =>
          refine Or.inr ⟨base, _, rfl, ⟨by simp, ?_, ?_⟩⟩
          · simp [hhanded, hcount]
          · simp [hcount]

/-- A token that is handed out is new. -/
theorem allocateTrap_cases (env : MemEnv) (g : GuestMemory ε) (h : s.Inv) :
    (∃ x s' g', s.allocateTrap env g = (.error x, s', g') ∧ s'.Inv ∧
      ∃ base, s' = { s with trapBase := base }) ∨
    ∃ t s' g', s.allocateTrap env g = (.ok t, s', g') ∧ s'.Inv ∧ t ∉ s.handed ∧ t ∈ s'.handed ∧
      ∃ base count handed,
        s' = { s with trapBase := base, trapCount := count, handed := handed } := by
  unfold allocateTrap
  rcases reserveTraps_cases env g h with ⟨x, g', hr⟩ | ⟨base, g', hr, hc⟩
  · rw [hr]
    exact Or.inl ⟨x, s, g', rfl, h, s.trapBase, rfl⟩
  · rw [hr]
    simp only [takeTrap]
    by_cases hfull : s.trapCount * trapStride ≥ trapSize
    · simp only [hfull, if_true]
      exact Or.inl ⟨_, _, g', rfl, h.retoken hc (List.Subset.refl _), some base, rfl⟩
    · simp only [hfull, if_false]
      obtain ⟨hcount, hnew⟩ := hc.take rfl (Nat.lt_of_not_le hfull)
      refine Or.inr ⟨_, _, g', rfl, ?_, hnew, by simp, some base, _, _, rfl⟩
      exact h.retoken hcount (List.subset_append_left ..)

/-- An entry for an address that had none, with a token that no other entry has. -/
theorem Inv.store (h : s.Inv) (hnew : s.entries.lookup e.address = none)
    (htrap : ∀ t, e.trap = some t → s.traps.lookup t = none ∧ t ∈ s.handed) :
    ((s.storeTrap e).storeEntry e).Inv := by
  have hkeep : ∀ {a : Nat} {x : ApiEntry}, s.entries.lookup a = some x →
      (s.entries.insert e.address e).lookup a = some x := by
    intro a x hx
    have hne : a ≠ e.address := by
      rintro rfl
      rw [hnew] at hx
      cases hx
    rw [AList.lookup_insert_ne hne]
    exact hx
  have hentry : ∀ {a : Nat} {x : ApiEntry}, (s.entries.insert e.address e).lookup a = some x →
      (a = e.address ∧ x = e) ∨ s.entries.lookup a = some x := by
    intro a x hx
    by_cases ha : a = e.address
    · subst ha
      rw [AList.lookup_insert] at hx
      exact Or.inl ⟨rfl, (Option.some.inj hx).symm⟩
    · rw [AList.lookup_insert_ne ha] at hx
      exact Or.inr hx
  have hstored : ((s.storeTrap e).storeEntry e) = { s with
      entries := s.entries.insert e.address e
      addresses := s.addresses.orderedInsert (· ≤ ·) e.address
      traps := (s.storeTrap e).traps } := by
    unfold storeTrap
    split <;> rfl
  have htraps : ∀ {t : Nat} {x : ApiEntry}, (s.storeTrap e).traps.lookup t = some x ↔
      (e.trap = some t ∧ x = e) ∨ s.traps.lookup t = some x := by
    intro t x
    unfold storeTrap
    split
    next hnone => simp [hnone]
    next t' ht' =>
      by_cases heq : t = t'
      · subst heq
        simp [ht', (htrap t ht').1, eq_comm]
      · rw [AList.lookup_insert_ne heq]
        simp [ht', Ne.symm heq]
  rw [hstored]
  refine ⟨⟨?_, ?_, ?_⟩, ⟨h.counted.base, h.counted.handed, h.counted.count⟩, ?_, ?_, ?_, ?_⟩
  · intro a x hx
    rcases hentry hx with ⟨rfl, rfl⟩ | hx
    · rfl
    · exact h.wired.address hx
  · intro a t x hx ht
    refine htraps.mpr ?_
    rcases hentry hx with ⟨rfl, rfl⟩ | hx
    · exact Or.inl ⟨ht, rfl⟩
    · exact Or.inr (h.wired.trap hx ht)
  · intro t x hx
    rcases htraps.mp hx with ⟨ht, rfl⟩ | hx
    · exact ⟨ht, AList.lookup_insert _⟩
    · obtain ⟨ht, hx⟩ := h.wired.entry hx
      exact ⟨ht, hkeep hx⟩
  · intro t x hx
    rcases htraps.mp hx with ⟨ht, -⟩ | hx
    · exact (htrap t ht).2
    · exact h.trap_handed hx
  · have hkey : e.address ∉ s.entries.keys := by
      rw [← AList.mem_keys]
      exact AList.lookup_eq_none.mp hnew
    dsimp only
    rw [AList.keys_insert, List.erase_of_not_mem hkey, List.insertionSort_cons, h.addresses]
  · exact fun id key x hx => hkeep (h.names id key x hx)
  · exact fun id key x hx => hkeep (h.ordinals id key x hx)

theorem Reaches.set {κ : Type} [DecidableEq κ] {t : PyTable κ ApiEntry} {entries : PyDict Nat ApiEntry}
    (h : Reaches t entries) (id : Nat) (key : κ) (he : entries.lookup e.address = some e) :
    Reaches (t.set id key e) entries := by
  intro id' key' x hx
  by_cases heq : id' = id ∧ key' = key
  · obtain ⟨rfl, rfl⟩ := heq
    rw [PyTable.get_set_self] at hx
    cases hx
    exact he
  · rw [PyTable.get_set_other (by tauto)] at hx
    exact h _ _ _ hx

theorem Reaches.setDefault {κ : Type} [DecidableEq κ] {t : PyTable κ ApiEntry}
    {entries : PyDict Nat ApiEntry} (h : Reaches t entries) (id : Nat) :
    Reaches (t.setDefault id) entries := by
  intro id' key x hx
  rw [PyTable.get_setDefault] at hx
  exact h id' key x hx

/-- The tables can change as long as their entries stay in the dictionary. -/
theorem Inv.setTables (h : s.Inv) {names : PyTable PyStr ApiEntry} {ordinals : PyTable Nat ApiEntry}
    {dynamicOffsets : PyDict Nat Nat} {entryNames : PyDict Nat (List PyStr)} {nextId : Nat}
    (hn : Reaches names s.entries) (ho : Reaches ordinals s.entries) :
    Inv { s with
      names := names
      ordinals := ordinals
      dynamicOffsets := dynamicOffsets
      entryNames := entryNames
      nextId := nextId } where
  wired := ⟨h.wired.address, h.wired.trap, h.wired.entry⟩
  counted := ⟨h.counted.base, h.counted.handed, h.counted.count⟩
  trap_handed := h.trap_handed
  addresses := h.addresses
  names := hn
  ordinals := ho

end ApiRegistry

end Speakeasy
