import Mathlib.Data.List.Basic
import Mathlib.Data.List.Nodup

/-- A dictionary that keeps its keys in the order of their first insertion. -/
structure OrderedDict (κ α : Type*) where
  entries : List (κ × α)
  nodup : (entries.map Prod.fst).Nodup

namespace OrderedDict

variable {κ α β : Type*}

def empty : OrderedDict κ α := ⟨[], List.nodup_nil⟩

def keys (d : OrderedDict κ α) : List κ := d.entries.map Prod.fst

@[simp] theorem keys_empty : (empty : OrderedDict κ α).keys = [] := rfl

theorem mem_keys {d : OrderedDict κ α} {k : κ} : k ∈ d.keys ↔ ∃ v, (k, v) ∈ d.entries := by
  simp [keys]

variable [DecidableEq κ]

def get? (d : OrderedDict κ α) (k : κ) : Option α :=
  (d.entries.find? fun e => decide (e.1 = k)).map Prod.snd

@[simp] theorem get?_empty (k : κ) : (empty : OrderedDict κ α).get? k = none := rfl

theorem get?_eq_some {d : OrderedDict κ α} {k : κ} {v : α} :
    d.get? k = some v ↔ (k, v) ∈ d.entries := by
  unfold get?
  constructor
  · intro h
    obtain ⟨e, he, rfl⟩ := Option.map_eq_some_iff.mp h
    have hk : e.1 = k := by simpa using List.find?_some he
    exact hk ▸ List.mem_of_find?_eq_some he
  · intro h
    have hsome : (d.entries.find? fun e => decide (e.1 = k)).isSome :=
      List.find?_isSome.mpr ⟨(k, v), h, by simp⟩
    obtain ⟨e, he⟩ := Option.isSome_iff_exists.mp hsome
    have hk : e.1 = k := by simpa using List.find?_some he
    have heq := List.inj_on_of_nodup_map d.nodup (List.mem_of_find?_eq_some he) h hk
    rw [he, heq]
    rfl

theorem get?_eq_none {d : OrderedDict κ α} {k : κ} : d.get? k = none ↔ k ∉ d.keys := by
  constructor
  · intro h hin
    obtain ⟨v, hv⟩ := mem_keys.mp hin
    rw [get?_eq_some.mpr hv] at h
    cases h
  · intro h
    cases hg : d.get? k with
    | none => rfl
    | some v => exact absurd (mem_keys.mpr ⟨v, get?_eq_some.mp hg⟩) h

theorem mem_keys_of_get? {d : OrderedDict κ α} {k : κ} {v : α} (h : d.get? k = some v) :
    k ∈ d.keys := mem_keys.mpr ⟨v, get?_eq_some.mp h⟩

/-- A key that is there keeps its place. -/
def insert (d : OrderedDict κ α) (k : κ) (v : α) : OrderedDict κ α where
  entries :=
    if k ∈ d.keys then d.entries.map fun e => if e.1 = k then (k, v) else e
    else d.entries ++ [(k, v)]
  nodup := by
    split
    next =>
      have hmap : (d.entries.map fun e => if e.1 = k then (k, v) else e).map Prod.fst =
          d.entries.map Prod.fst := by
        rw [List.map_map]
        refine List.map_congr_left fun e _ => ?_
        simp only [Function.comp_apply]
        split
        next h => exact h.symm
        next => rfl
      exact hmap.symm ▸ d.nodup
    next h =>
      rw [List.map_append]
      refine List.nodup_append.mpr ⟨d.nodup, by simp, ?_⟩
      intro a ha b hb heq
      have hb : b = k := by simpa using hb
      exact h (hb ▸ heq ▸ ha)

theorem keys_insert (d : OrderedDict κ α) (k : κ) (v : α) :
    (d.insert k v).keys = if k ∈ d.keys then d.keys else d.keys ++ [k] := by
  unfold insert keys
  split
  next =>
    rw [List.map_map]
    refine List.map_congr_left fun e _ => ?_
    simp only [Function.comp_apply]
    split
    next h => exact h.symm
    next => rfl
  next => rw [List.map_append]; rfl

theorem get?_insert (d : OrderedDict κ α) (k k' : κ) (v : α) :
    (d.insert k v).get? k' = if k' = k then some v else d.get? k' := by
  have hmem : ∀ w, (k', w) ∈ (d.insert k v).entries ↔
      if k' = k then w = v else (k', w) ∈ d.entries := by
    intro w
    unfold insert
    by_cases hin : k ∈ d.keys
    · simp only [hin, if_true, List.mem_map]
      constructor
      · rintro ⟨e, he, heq⟩
        split at heq
        next hk =>
          cases heq
          rw [if_pos rfl]
        next hk =>
          subst heq
          rwa [if_neg hk]
      · intro h
        split at h
        next hk =>
          subst hk h
          obtain ⟨w', hw'⟩ := mem_keys.mp hin
          exact ⟨_, hw', by simp⟩
        next hk => exact ⟨_, h, by simp [hk]⟩
    · simp only [hin, if_false, List.mem_append, List.mem_singleton, Prod.mk.injEq]
      split
      next hk =>
        subst hk
        have hno : ∀ w, (k', w) ∉ d.entries := fun w h => hin (mem_keys.mpr ⟨w, h⟩)
        simp [hno]
      next hk => simp [hk]
  refine Option.ext fun w => ?_
  rw [get?_eq_some, hmem]
  split
  next => simp [eq_comm]
  next => rw [get?_eq_some]

def pop (d : OrderedDict κ α) (k : κ) : OrderedDict κ α where
  entries := d.entries.filter fun e => decide (e.1 ≠ k)
  nodup := d.nodup.sublist (List.filter_sublist.map _)

theorem mem_pop {d : OrderedDict κ α} {k : κ} {e : κ × α} :
    e ∈ (d.pop k).entries ↔ e ∈ d.entries ∧ e.1 ≠ k := by
  simp [pop]

theorem get?_pop (d : OrderedDict κ α) (k k' : κ) :
    (d.pop k).get? k' = if k' = k then none else d.get? k' := by
  refine Option.ext fun w => ?_
  rw [get?_eq_some, mem_pop]
  split
  next h => simp [h]
  next h => simp [h, get?_eq_some]

theorem mem_keys_pop {d : OrderedDict κ α} {k a : κ} : a ∈ (d.pop k).keys ↔ a ∈ d.keys ∧ a ≠ k := by
  simp [mem_keys, mem_pop]

theorem mem_keys_insert {d : OrderedDict κ α} {k a : κ} {v : α} :
    a ∈ (d.insert k v).keys ↔ a ∈ d.keys ∨ a = k := by
  rw [keys_insert]
  split
  next hin => exact ⟨Or.inl, fun h => h.elim id fun heq => heq ▸ hin⟩
  next => rw [List.mem_append, List.mem_singleton]

theorem mem_foldl_pop (d : OrderedDict κ α) (removed : List κ) (k : κ) :
    k ∈ (removed.foldl pop d).keys ↔ k ∈ d.keys ∧ k ∉ removed := by
  induction removed generalizing d with
  | nil => simp
  | cons r removed ih => rw [List.foldl_cons, ih, mem_keys_pop, List.mem_cons, not_or, and_assoc]

theorem mem_foldl_insert {ι : Type*} (d : OrderedDict κ α) (added : List ι) (f : ι → κ) (g : ι → α) (k : κ) :
    k ∈ (added.foldl (fun d a => d.insert (f a) (g a)) d).keys ↔ k ∈ d.keys ∨ ∃ a ∈ added, f a = k := by
  induction added generalizing d with
  | nil => simp
  | cons a added ih =>
    have hcons : (∃ b ∈ a :: added, f b = k) ↔ k = f a ∨ ∃ b ∈ added, f b = k := by
      simp [eq_comm]
    rw [List.foldl_cons, ih, mem_keys_insert, hcons, or_assoc]

omit [DecidableEq κ] in
theorem eq_of_key {d : OrderedDict κ α} {k : κ} {v w : α} (hv : (k, v) ∈ d.entries)
    (hw : (k, w) ∈ d.entries) : w = v :=
  congrArg Prod.snd (List.inj_on_of_nodup_map d.nodup hw hv rfl)

theorem mem_insert_new {d : OrderedDict κ α} {k : κ} {v : α} (h : d.get? k = none) {e : κ × α} :
    e ∈ (d.insert k v).entries ↔ e ∈ d.entries ∨ e = (k, v) := by
  have hentries : (d.insert k v).entries = d.entries ++ [(k, v)] := if_neg (get?_eq_none.mp h)
  rw [hentries, List.mem_append, List.mem_singleton]

/-- What the values of some keys give, when each value gives what its key says. -/
theorem flatMap_entries {d : OrderedDict κ α} {f : α → List β} {F : κ → List β}
    (h : ∀ k v, d.get? k = some v → f v = F k) (P : κ → Bool) :
    (d.entries.filter fun e => P e.1).flatMap (fun e => f e.2) = (d.keys.filter P).flatMap F := by
  have hfilter : d.keys.filter P = (d.entries.filter fun e => P e.1).map Prod.fst := by
    rw [keys, List.filter_map]
    rfl
  rw [hfilter, List.flatMap_map]
  refine List.flatMap_congr fun e he => ?_
  exact h e.1 e.2 (get?_eq_some.mpr (List.mem_filter.mp he).1)

/-- The position of the first use of a key. -/
def firstUse (uses : List κ) (k : κ) : Nat := uses.idxOf k

/-- The keys are those that were used, in the order of their first use. -/
structure FirstUses (keys uses : List κ) : Prop where
  mem : ∀ k, k ∈ keys ↔ k ∈ uses
  order : keys.Pairwise fun a b => firstUse uses a < firstUse uses b

theorem FirstUses.nil : FirstUses ([] : List κ) [] := ⟨fun _ => Iff.rfl, List.Pairwise.nil⟩

theorem FirstUses.insert {d : OrderedDict κ α} {uses : List κ} (h : FirstUses d.keys uses) (k : κ)
    (v : α) : FirstUses (d.insert k v).keys (uses ++ [k]) := by
  have hidx : ∀ a ∈ d.keys, firstUse (uses ++ [k]) a = firstUse uses a := fun a ha =>
    List.idxOf_append_of_mem ((h.mem a).mp ha)
  have hkeys : d.keys.Pairwise fun a b => firstUse (uses ++ [k]) a < firstUse (uses ++ [k]) b :=
    h.order.imp_of_mem fun {a b} ha hb hlt => by rwa [hidx a ha, hidx b hb]
  rw [keys_insert]
  split
  next hin =>
    refine ⟨fun a => ?_, hkeys⟩
    rw [h.mem, List.mem_append, List.mem_singleton]
    exact ⟨Or.inl, fun ha => ha.elim id fun heq => heq ▸ (h.mem k).mp hin⟩
  next hout =>
    refine ⟨fun a => ?_, List.pairwise_append.mpr ⟨hkeys, by simp, fun a ha b hb => ?_⟩⟩
    · rw [List.mem_append, List.mem_append, h.mem]
    · rw [List.mem_singleton.mp hb, hidx a ha]
      have hk : k ∉ uses := fun hk => hout ((h.mem k).mpr hk)
      have hlast : firstUse (uses ++ [k]) k = uses.length + [k].idxOf k :=
        List.idxOf_append_of_notMem hk
      have hlt : firstUse uses a < uses.length := List.idxOf_lt_length_of_mem ((h.mem a).mp ha)
      omega

end OrderedDict
