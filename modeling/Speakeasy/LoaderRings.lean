import Speakeasy.LoaderLists
import Speakeasy.LinkedRing

namespace Speakeasy

open PageEngine MemoryManager

theorem take_drop_append {α : Type} (pre mid post : List α) :
    ((pre ++ (mid ++ post)).drop pre.length).take mid.length = mid := by
  simp

/-- The links of a list among the bytes of an object that has all three. -/
theorem links_getBytes (ptrSize : Nat) (links : LoaderList → ListEntry) (pre post : List UInt8)
    (l : LoaderList) :
    let bs := pre ++ (loaderLists.flatMap fun l => (links l).getBytes ptrSize) ++ post
    let k := pre.length + LdrDataTableEntry.linkOffset ptrSize l
    (bs.drop k).take ptrSize = toBytes ptrSize (links l).flink ∧
      (bs.drop (k + ptrSize)).take ptrSize = toBytes ptrSize (links l).blink := by
  have hget : ∀ {bs mid : List UInt8} {k : Nat} (pre post : List UInt8), bs = pre ++ (mid ++ post) →
      k = pre.length → mid.length = ptrSize → (bs.drop k).take ptrSize = mid := by
    intro bs mid k pre post hbs hk hm
    rw [hbs, hk, ← hm]
    exact take_drop_append pre mid post
  let b := fun l => (links l).getBytes ptrSize
  intro bs k
  cases l with
  | inLoadOrder =>
    constructor
    · refine hget pre (toBytes ptrSize (links .inLoadOrder).blink ++
        (b .inMemoryOrder ++ (b .inInitializationOrder ++ post))) ?_ rfl (by simp)
      simp [bs, b, loaderLists, ListEntry.getBytes]
    · refine hget (pre ++ toBytes ptrSize (links .inLoadOrder).flink)
        (b .inMemoryOrder ++ (b .inInitializationOrder ++ post)) ?_ ?_ (by simp)
      · simp [bs, b, loaderLists, ListEntry.getBytes]
      · simp [k, LdrDataTableEntry.linkOffset]
  | inMemoryOrder =>
    constructor
    · refine hget (pre ++ b .inLoadOrder)
        (toBytes ptrSize (links .inMemoryOrder).blink ++
          (b .inInitializationOrder ++ post)) ?_ ?_ (by simp)
      · simp [bs, b, loaderLists, ListEntry.getBytes]
      · simp [k, b, LdrDataTableEntry.linkOffset, ListEntry.getBytes]
        omega
    · refine hget (pre ++ b .inLoadOrder ++ toBytes ptrSize (links .inMemoryOrder).flink)
        (b .inInitializationOrder ++ post) ?_ ?_ (by simp)
      · simp [bs, b, loaderLists, ListEntry.getBytes]
      · simp [k, b, LdrDataTableEntry.linkOffset, ListEntry.getBytes]
        omega
  | inInitializationOrder =>
    constructor
    · refine hget (pre ++ b .inLoadOrder ++ b .inMemoryOrder)
        (toBytes ptrSize (links .inInitializationOrder).blink ++ post) ?_ ?_ (by simp)
      · simp [bs, b, loaderLists, ListEntry.getBytes]
      · simp [k, b, LdrDataTableEntry.linkOffset, ListEntry.getBytes]
        omega
    · refine hget (pre ++ b .inLoadOrder ++ b .inMemoryOrder ++
        toBytes ptrSize (links .inInitializationOrder).flink) post ?_ ?_ (by simp)
      · simp [bs, b, loaderLists, ListEntry.getBytes]
      · simp [k, b, LdrDataTableEntry.linkOffset, ListEntry.getBytes]
        omega

@[simp] theorem ListEntry.getBytes_length (ptrSize : Nat) (e : ListEntry) :
    (e.getBytes ptrSize).length = 2 * ptrSize := by
  simp [getBytes, Nat.two_mul]

@[simp] theorem UnicodeString.getBytes_length (ptrSize : Nat) (u : UnicodeString) :
    (u.getBytes ptrSize).length = 4 + (ptrSize - 4) + ptrSize := by
  simp only [getBytes, List.length_append, toBytes_length, List.length_replicate]

theorem LdrDataTableEntry.getBytes_length {ptrSize : Nat} (o : LdrDataTableEntry) :
    (o.getBytes ptrSize).length = sizeof ptrSize := by
  simp only [getBytes, sizeof, loaderLists, List.flatMap_cons, List.flatMap_nil, List.length_append,
    ListEntry.getBytes_length, UnicodeString.getBytes_length, toBytes_length, List.length_replicate,
    List.length_nil]
  omega

theorem PebLdrData.getBytes_length {ptrSize : Nat} (o : PebLdrData) :
    (o.getBytes ptrSize).length = sizeof ptrSize := by
  simp only [getBytes, sizeof, loaderLists, List.flatMap_cons, List.flatMap_nil, List.length_append,
    ListEntry.getBytes_length, List.length_replicate, List.length_nil]
  omega

theorem setPointer_length {ptrSize offset value : Nat} {object : List UInt8}
    (h : offset + ptrSize ≤ object.length) :
    (setPointer ptrSize offset value object).length = object.length := by
  simp [setPointer]
  omega

theorem linkOffset_lt {ptrSize : Nat} (h : 0 < ptrSize) (l : LoaderList) :
    LdrDataTableEntry.linkOffset ptrSize l + 2 * ptrSize ≤ 6 * ptrSize := by
  cases l <;> simp only [LdrDataTableEntry.linkOffset] <;> omega

theorem writeBack_writeAll {m : ByteMemory} {ws : List (Nat × List UInt8)} (h : ∀ w ∈ ws, w.1 ≠ 0) :
    ws.foldl (fun m w => writeBack m w.1 w.2) m = m.writeAll ws := by
  induction ws generalizing m with
  | nil => rfl
  | cons w ws ih =>
    rw [List.foldl_cons, writeBack, if_pos (h w List.mem_cons_self)]
    exact ih fun v hv => h v (List.mem_cons_of_mem _ hv)

/-- What the lists depend on: no link is part of it. -/
def LdrEntry.key (e : LdrEntry) : Nat × Nat := (e.address, e.object.dllBase)

namespace LoaderProcess

variable {ε : Type} {p : LoaderProcess ε} {ptrSize : Nat} {l : LoaderList}

@[simp] theorem setLink_key (link : ListEntry) (e : LdrEntry) : (setLink l link e).key = e.key := rfl

@[simp] theorem setLink_links_self (link : ListEntry) (e : LdrEntry) :
    (setLink l link e).object.links l = link := if_pos rfl

theorem setLink_links_other {l' : LoaderList} (hne : l' ≠ l) (link : ListEntry) (e : LdrEntry) :
    (setLink l link e).object.links l' = e.object.links l' := if_neg hne

theorem inList_congr {e e' : LdrEntry} (h : e.key = e'.key) : p.InList l e ↔ p.InList l e' := by
  have hb : e.object.dllBase = e'.object.dllBase := (Prod.mk.inj h).2
  unfold InList
  rw [hb]

theorem node_congr {e e' : LdrEntry} (h : e.key = e'.key) : node ptrSize l e = node ptrSize l e' := by
  have ha : e.address = e'.address := (Prod.mk.inj h).1
  rw [node, ha, node]

theorem nodes_cons (e : LdrEntry) (es : List LdrEntry) :
    p.nodes ptrSize l (e :: es) =
      if p.InList l e then node ptrSize l e :: p.nodes ptrSize l es else p.nodes ptrSize l es := by
  by_cases h : p.InList l e <;> simp [nodes, h]

theorem nodes_congr {es es' : List LdrEntry} (h : es.map LdrEntry.key = es'.map LdrEntry.key) :
    p.nodes ptrSize l es = p.nodes ptrSize l es' := by
  induction es generalizing es' with
  | nil => simp_all
  | cons e es ih =>
    cases es' with
    | nil => simp at h
    | cons e' es' =>
      obtain ⟨hk, h⟩ := List.cons.inj h
      rw [nodes_cons, nodes_cons, ih h, node_congr hk]
      simp only [inList_congr hk]

/-- Linking one list keeps the entries and the links of the other lists. -/
theorem linkEntries_other {l' : LoaderList} (hne : l' ≠ l) (previous : Nat) (es : List LdrEntry) :
    (p.linkEntries ptrSize l previous es).map (fun e => (e.key, e.object.links l')) =
      es.map (fun e => (e.key, e.object.links l')) := by
  induction es generalizing previous with
  | nil => rfl
  | cons e es ih =>
    rw [linkEntries]
    split <;> simp [ih, setLink_links_other hne]

theorem linkEntries_keys (previous : Nat) (es : List LdrEntry) :
    (p.linkEntries ptrSize l previous es).map LdrEntry.key = es.map LdrEntry.key := by
  induction es generalizing previous with
  | nil => rfl
  | cons e es ih =>
    rw [linkEntries]
    split <;> simp [ih]

theorem linkEntries_self {previous : Nat} {es : List LdrEntry} :
    ∀ e ∈ p.linkEntries ptrSize l previous es, ¬p.InList l e →
      e.object.links l = ⟨node ptrSize l e, node ptrSize l e⟩ := by
  induction es generalizing previous with
  | nil => simp [linkEntries]
  | cons e es ih =>
    intro x hx hn
    rw [linkEntries] at hx
    split at hx
    next hin =>
      rcases List.mem_cons.mp hx with rfl | hx
      · exact absurd ((inList_congr (p := p) (show _ = e.key from rfl)).mpr hin) hn
      · exact ih x hx hn
    next =>
      rcases List.mem_cons.mp hx with rfl | hx
      · simp [node_congr (setLink_key _ e)]
      · exact ih x hx hn

/-- If the links of the entries, of the node before them and of the head are written, each node is
linked both ways with the next one. -/
theorem linkEntries_chain {bound : Nat} {flink blink : Nat → Nat} {previous : Nat}
    {es : List LdrEntry}
    (hw : ∀ e ∈ p.linkEntries ptrSize l previous es,
      flink (node ptrSize l e) = (e.object.links l).flink % bound ∧
        blink (node ptrSize l e) = (e.object.links l).blink % bound)
    (hprev : flink previous = (p.nodes ptrSize l es).headD (p.head ptrSize l) % bound)
    (hhead : blink (p.head ptrSize l) = (p.nodes ptrSize l es).getLastD previous % bound)
    (hb : previous < bound ∧ p.head ptrSize l < bound ∧ ∀ n ∈ p.nodes ptrSize l es, n < bound) :
    (previous :: (p.nodes ptrSize l es ++ [p.head ptrSize l])).IsChain (Neighbours flink blink) := by
  obtain ⟨hbp, hbh, hbn⟩ := hb
  induction es generalizing previous with
  | nil =>
    simp only [nodes, List.filter_nil, List.map_nil, List.headD_nil, List.getLastD_nil,
      Nat.mod_eq_of_lt hbp, Nat.mod_eq_of_lt hbh] at hprev hhead
    simp [nodes, Neighbours, hprev, hhead]
  | cons e es ih =>
    rw [linkEntries] at hw
    rw [nodes_cons] at hprev hhead hbn ⊢
    split at hw
    next hin =>
      simp only [if_pos hin] at hprev hhead hbn ⊢
      obtain ⟨⟨hf, hbl⟩, hw⟩ := List.forall_mem_cons.mp hw
      have hnode : node ptrSize l e < bound := hbn _ List.mem_cons_self
      simp only [node_congr (setLink_key _ e), setLink_links_self, Nat.mod_eq_of_lt hbp] at hf hbl
      simp only [List.headD_cons, Nat.mod_eq_of_lt hnode] at hprev
      rw [List.cons_append, List.isChain_cons_cons]
      refine ⟨⟨hprev, hbl⟩, ih hw hf ?_ hnode fun n hn => hbn n (List.mem_cons_of_mem _ hn)⟩
      rw [hhead]
      cases p.nodes ptrSize l es <;> rfl
    next hin =>
      simp only [if_neg hin] at hprev hhead hbn ⊢
      exact ih (List.forall_mem_cons.mp hw).2 hprev hhead hbp hbn

/-- After all three lists are linked, the links of each are the ones of its own pass. -/
theorem linkAll_spec (l : LoaderList) (es : List LdrEntry) :
    let final := loaderLists.foldl (fun es l => p.linkEntries ptrSize l (p.head ptrSize l) es) es
    final.map LdrEntry.key = es.map LdrEntry.key ∧
    ∃ es', es'.map LdrEntry.key = es.map LdrEntry.key ∧
      final.map (fun e => (e.key, e.object.links l)) =
        (p.linkEntries ptrSize l (p.head ptrSize l) es').map (fun e => (e.key, e.object.links l)) := by
  simp only [loaderLists, List.foldl_cons, List.foldl_nil, linkEntries_keys, true_and]
  cases l with
  | inLoadOrder =>
    refine ⟨es, rfl, ?_⟩
    rw [linkEntries_other (by decide), linkEntries_other (by decide)]
  | inMemoryOrder =>
    refine ⟨p.linkEntries ptrSize .inLoadOrder (p.head ptrSize .inLoadOrder) es,
      linkEntries_keys _ _, ?_⟩
    rw [linkEntries_other (by decide)]
  | inInitializationOrder =>
    refine ⟨p.linkEntries ptrSize .inMemoryOrder (p.head ptrSize .inMemoryOrder)
      (p.linkEntries ptrSize .inLoadOrder (p.head ptrSize .inLoadOrder) es), ?_, rfl⟩
    rw [linkEntries_keys, linkEntries_keys]

end LoaderProcess

end Speakeasy
