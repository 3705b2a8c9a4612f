import Speakeasy.LoaderRings
import Speakeasy.MemoryRuns

namespace Speakeasy

open PageEngine MemoryManager

namespace LoaderProcess

variable {ε : Type}

/-- The addresses and sizes of the objects that `_sync_peb_module_links` writes. -/
def objects (ptrSize : Nat) (p : LoaderProcess ε) : List (Nat × Nat) :=
  (p.ldrEntries.map fun e => (e.address, LdrDataTableEntry.sizeof ptrSize)) ++
    [(p.pebLdrData.address, PebLdrData.sizeof ptrSize), (p.pebAddress, p.peb.length)]

theorem syncWrites_lengths (ptrSize : Nat) (p : LoaderProcess ε) :
    (p.syncWrites ptrSize).map (fun w => (w.1, w.2.length)) = p.objects ptrSize := by
  simp [syncWrites, objects, LdrDataTableEntry.getBytes_length, PebLdrData.getBytes_length,
    Function.comp_def]

def flinkAt (ptrSize : Nat) (p : LoaderProcess ε) (a : Nat) : Nat := p.memory.readInt a ptrSize

def blinkAt (ptrSize : Nat) (p : LoaderProcess ε) (a : Nat) : Nat :=
  p.memory.readInt (a + ptrSize) ptrSize

/-- The three lists in guest memory are rings of the current entries in load order. The entry of
the main executable links to itself in the initialization list. -/
structure RingsWritten (ptrSize : Nat) (p : LoaderProcess ε) : Prop where
  ring : ∀ l, IsRing (p.flinkAt ptrSize) (p.blinkAt ptrSize) (p.head ptrSize l)
    (p.nodes ptrSize l p.ldrEntries)
  self : ∀ l, ∀ e ∈ p.ldrEntries, ¬p.InList l e →
    p.flinkAt ptrSize (node ptrSize l e) = node ptrSize l e ∧
      p.blinkAt ptrSize (node ptrSize l e) = node ptrSize l e
  distinct : ∀ l, (p.head ptrSize l :: p.nodes ptrSize l p.ldrEntries).Nodup

/-- `ldr_entries` and `peb_modules` have the same bases, each once. -/
structure SameBases (p : LoaderProcess ε) : Prop where
  bases : p.ldrEntries.map (fun e => e.object.dllBase) = p.pebModules.map Prod.fst
  once : (p.pebModules.map Prod.fst).Nodup

variable [PageEngine ε]

/-- Where the objects of a process lie: each in an allocation of its own, below the limit. -/
structure Placed (ptrSize limit : Nat) (p : LoaderProcess ε) : Prop where
  placed : ∀ o ∈ p.objects ptrSize, (∃ m ∈ p.mgr.maps, m.base = o.1 ∧ o.2 ≤ m.size) ∧
    0 < o.1 ∧ o.1 + o.2 ≤ limit
  distinct : ((p.objects ptrSize).map Prod.fst).Nodup

/-- The loader data of a process is mapped, and its entries and modules agree. -/
structure PebReady (env : WinEnv) (limit : Nat) (outside : Nat → Prop) (p : LoaderProcess ε) : Prop where
  ptrSize : env.ptrSize = 4 ∨ env.ptrSize = 8
  limited : env.mem.Limited limit
  fits : limit ≤ 256 ^ env.ptrSize
  inv : p.mgr.Inv outside
  below : p.mgr.Below limit
  placed : p.Placed env.ptrSize limit
  peb_size : 4 * env.ptrSize ≤ p.peb.length
  same : p.SameBases

variable {env : WinEnv} {limit : Nat} {outside : Nat → Prop} {p : LoaderProcess ε}

theorem PebReady.setMemory (h : p.PebReady env limit outside) (memory : ByteMemory) :
    PebReady env limit outside { p with memory := memory } :=
  { h with
    placed := ⟨h.placed.placed, h.placed.distinct⟩
    same := ⟨h.same.bases, h.same.once⟩ }

theorem PebReady.ptrSize_pos (h : p.PebReady env limit outside) : 0 < env.ptrSize := by
  rcases h.ptrSize with h | h <;> omega

/-- No two objects overlap, because no two allocations do. -/
theorem PebReady.objects_apart (h : p.PebReady env limit outside) :
    (p.objects env.ptrSize).Pairwise fun v w => v.1 + v.2 ≤ w.1 ∨ w.1 + w.2 ≤ v.1 := by
  refine (List.pairwise_map.mp h.placed.distinct).imp_of_mem fun hv hw hne => ?_
  obtain ⟨⟨m, hm, hmb, hms⟩, _⟩ := h.placed.placed _ hv
  obtain ⟨⟨n, hn, hnb, hns⟩, _⟩ := h.placed.placed _ hw
  have := h.inv.apart_of_base_ne hm hn (by omega)
  omega

/-- After a sync, a part of every object is read back as it was written. -/
theorem PebReady.readBytes_synced (h : p.PebReady env limit outside) (memory : ByteMemory)
    {w : Nat × List UInt8} (hw : w ∈ p.syncWrites env.ptrSize) {k count : Nat}
    (hk : k + count ≤ w.2.length) :
    ((p.syncWrites env.ptrSize).foldl (fun m w => writeBack m w.1 w.2) memory).readBytes (w.1 + k)
      count = (w.2.drop k).take count := by
  have hmem : ∀ v ∈ p.syncWrites env.ptrSize, (v.1, v.2.length) ∈ p.objects env.ptrSize := by
    intro v hv
    rw [← syncWrites_lengths]
    exact List.mem_map_of_mem hv
  rw [writeBack_writeAll fun v hv => (h.placed.placed _ (hmem v hv)).2.1.ne']
  refine ByteMemory.readBytes_writeAll ?_ hw hk
  have := h.objects_apart
  rw [← syncWrites_lengths] at this
  exact List.pairwise_map.mp this

theorem PebReady.node_lt (h : p.PebReady env limit outside) (l : LoaderList) {e : LdrEntry}
    (he : e ∈ p.ldrEntries) : node env.ptrSize l e < 256 ^ env.ptrSize ∧
      e.address ≤ node env.ptrSize l e ∧
      node env.ptrSize l e < e.address + LdrDataTableEntry.sizeof env.ptrSize := by
  have hpos := h.ptrSize_pos
  have hoff := linkOffset_lt hpos l
  have hin : (e.address, LdrDataTableEntry.sizeof env.ptrSize) ∈ p.objects env.ptrSize :=
    List.mem_append_left _ (List.mem_map_of_mem (f := fun e =>
      (e.address, LdrDataTableEntry.sizeof env.ptrSize)) he)
  have hle := (h.placed.placed _ hin).2.2
  have hfits := h.fits
  simp only [node, LdrDataTableEntry.sizeof] at *
  omega

theorem PebReady.head_lt (h : p.PebReady env limit outside) (l : LoaderList) :
    p.head env.ptrSize l < 256 ^ env.ptrSize ∧ p.pebLdrData.address ≤ p.head env.ptrSize l ∧
      p.head env.ptrSize l < p.pebLdrData.address + PebLdrData.sizeof env.ptrSize := by
  have hpos := h.ptrSize_pos
  have hoff := linkOffset_lt hpos l
  have hin : (p.pebLdrData.address, PebLdrData.sizeof env.ptrSize) ∈ p.objects env.ptrSize := by
    simp [objects]
  have hle := (h.placed.placed _ hin).2.2
  have hfits := h.fits
  simp only [head, PebLdrData.headOffset, PebLdrData.sizeof] at *
  omega

theorem PebReady.nodes_distinct (h : p.PebReady env limit outside) (l : LoaderList) :
    (p.head env.ptrSize l :: p.nodes env.ptrSize l p.ldrEntries).Nodup := by
  have hp := h.objects_apart
  simp only [objects, List.pairwise_append, List.pairwise_map, List.mem_map, List.mem_cons,
    List.not_mem_nil, or_false, forall_exists_index, and_imp] at hp
  obtain ⟨hes, _, hcross⟩ := hp
  refine List.nodup_cons.mpr ⟨fun hm => ?_, ?_⟩
  · obtain ⟨e, he, heq⟩ := List.mem_map.mp hm
    have he := (List.mem_filter.mp he).1
    have hapart := hcross _ e he rfl _ (Or.inl rfl)
    have h1 := h.node_lt l he
    have h2 := h.head_lt l
    dsimp only at hapart
    omega
  · refine List.Pairwise.map _ (fun a b hab => hab) ?_
    refine (hes.imp_of_mem (S := fun a b => node env.ptrSize l a ≠ node env.ptrSize l b) ?_).filter _
    intro a b ha hb hapart heq
    have h1 := h.node_lt l ha
    have h2 := h.node_lt l hb
    omega

/-- After a sync, the links in memory are the ones of the objects. -/
theorem PebReady.links_synced (h : p.PebReady env limit outside) {p' : LoaderProcess ε}
    {memory : ByteMemory} (hmem : p'.memory = (p.syncWrites env.ptrSize).foldl
      (fun m w => writeBack m w.1 w.2) memory) (l : LoaderList) :
    (∀ e ∈ p.ldrEntries,
      p'.flinkAt env.ptrSize (node env.ptrSize l e) =
        (e.object.links l).flink % 256 ^ env.ptrSize ∧
      p'.blinkAt env.ptrSize (node env.ptrSize l e) =
        (e.object.links l).blink % 256 ^ env.ptrSize) ∧
    p'.flinkAt env.ptrSize (p.head env.ptrSize l) =
      (p.pebLdrData.heads l).flink % 256 ^ env.ptrSize ∧
    p'.blinkAt env.ptrSize (p.head env.ptrSize l) =
      (p.pebLdrData.heads l).blink % 256 ^ env.ptrSize := by
  have hoff := linkOffset_lt h.ptrSize_pos l
  have hread : ∀ {a : Nat} {links : LoaderList → ListEntry} {pre post : List UInt8},
      (a, pre ++ (loaderLists.flatMap fun l => (links l).getBytes env.ptrSize) ++ post) ∈
        p.syncWrites env.ptrSize →
      p'.flinkAt env.ptrSize (a + (pre.length + LdrDataTableEntry.linkOffset env.ptrSize l)) =
          (links l).flink % 256 ^ env.ptrSize ∧
        p'.blinkAt env.ptrSize (a + (pre.length + LdrDataTableEntry.linkOffset env.ptrSize l)) =
          (links l).blink % 256 ^ env.ptrSize := by
    intro a links pre post hw
    obtain ⟨hf, hb⟩ := links_getBytes env.ptrSize links pre post l
    have hlen : pre.length + 6 * env.ptrSize ≤ (pre ++ (loaderLists.flatMap fun l =>
        (links l).getBytes env.ptrSize) ++ post).length := by
      simp only [loaderLists, List.flatMap_cons, List.flatMap_nil, List.length_append,
        ListEntry.getBytes_length, List.length_nil]
      omega
    constructor
    · rw [flinkAt, ByteMemory.readInt, hmem, h.readBytes_synced memory hw (by dsimp only; omega), hf,
        fromBytes_toBytes]
    · rw [blinkAt, ByteMemory.readInt, hmem, Nat.add_assoc,
        h.readBytes_synced memory hw (by dsimp only; omega), hb, fromBytes_toBytes]
  refine ⟨fun e he => ?_, ?_⟩
  · have hw : (e.address, [] ++ (loaderLists.flatMap fun l =>
        (e.object.links l).getBytes env.ptrSize) ++ _) ∈ p.syncWrites env.ptrSize :=
      List.mem_append_left _ (List.mem_map_of_mem
        (f := fun e => (e.address, e.object.getBytes env.ptrSize)) he)
    simpa [node] using hread hw
  · have hw : (p.pebLdrData.address, List.replicate (8 + env.ptrSize) 0 ++
        (loaderLists.flatMap fun l => (p.pebLdrData.heads l).getBytes env.ptrSize) ++
        List.replicate (3 * env.ptrSize) 0) ∈ p.syncWrites env.ptrSize := by
      simp [syncWrites, PebLdrData.getBytes]
    simpa [head, PebLdrData.headOffset] using hread hw

theorem lookup_ne_none_iff {ms : List (Nat × RuntimeModule)} {b : Nat} :
    ms.lookup b ≠ none ↔ b ∈ ms.map Prod.fst := by
  induction ms with
  | nil => simp
  | cons m ms ih =>
    by_cases h : b = m.1
    · simp [h]
    · have hb : (b == m.1) = false := by simpa using h
      rw [List.lookup_cons, hb]
      simp only [List.map_cons, List.mem_cons, h, false_or]
      exact ih

/-- A sync succeeds, and leaves the lists as rings in memory. -/
theorem syncPebModuleLinks_spec (h : p.PebReady env limit outside) :
    ∃ p', p.syncPebModuleLinks env.ptrSize = (.ok (), p') ∧ p'.PebReady env limit outside ∧
      p'.RingsWritten env.ptrSize := by
  have hall : ∀ e ∈ p.ldrEntries, p.pebModules.lookup e.object.dllBase ≠ none := by
    intro e he
    rw [lookup_ne_none_iff, ← h.same.bases]
    exact List.mem_map_of_mem (f := fun e : LdrEntry => e.object.dllBase) he
  rw [syncPebModuleLinks, if_pos hall]
  generalize hes : loaderLists.foldl
    (fun es l => p.linkEntries env.ptrSize l (p.head env.ptrSize l) es) p.ldrEntries = es
  let q : LoaderProcess ε := { p with
    ldrEntries := es
    pebLdrData := { p.pebLdrData with heads := p.sentinel env.ptrSize }
    peb := setPointer env.ptrSize (3 * env.ptrSize) p.pebLdrData.address p.peb }
  have hkeys : es.map LdrEntry.key = p.ldrEntries.map LdrEntry.key :=
    hes ▸ (linkAll_spec .inLoadOrder p.ldrEntries).1
  have haddr : es.map LdrEntry.address = p.ldrEntries.map LdrEntry.address := by
    simpa [LdrEntry.key, Function.comp_def] using congrArg (List.map Prod.fst) hkeys
  have hdll : es.map (fun e => e.object.dllBase) = p.ldrEntries.map (fun e => e.object.dllBase) := by
    simpa [LdrEntry.key, Function.comp_def] using congrArg (List.map Prod.snd) hkeys
  have hfits : 3 * env.ptrSize + env.ptrSize ≤ p.peb.length := by
    have := h.peb_size
    omega
  have hlen : (setPointer env.ptrSize (3 * env.ptrSize) p.pebLdrData.address p.peb).length =
      p.peb.length := setPointer_length hfits
  have hobjects : q.objects env.ptrSize = p.objects env.ptrSize := by
    have := congrArg (List.map fun a => (a, LdrDataTableEntry.sizeof env.ptrSize)) haddr
    simp only [List.map_map, Function.comp_def] at this
    simp only [objects, q, this, hlen]
  have hq : q.PebReady env limit outside := { h with
    placed := ⟨by rw [hobjects]; exact h.placed.placed, by rw [hobjects]; exact h.placed.distinct⟩
    peb_size := hlen ▸ h.peb_size
    same := ⟨hdll.trans h.same.bases, h.same.once⟩ }
  refine ⟨_, rfl, hq.setMemory _, ?_⟩
  have hnodes : ∀ l, q.nodes env.ptrSize l es = p.nodes env.ptrSize l p.ldrEntries :=
    fun l => nodes_congr (p := p) hkeys
  let memory := (q.syncWrites env.ptrSize).foldl (fun m w => writeBack m w.1 w.2) p.memory
  let synced : LoaderProcess ε := { q with memory := memory }
  have hmem : synced.memory = (q.syncWrites env.ptrSize).foldl
      (fun m w => writeBack m w.1 w.2) p.memory := rfl
  have hlinks := hq.links_synced hmem
  refine ⟨fun l => ?_, fun l e he hn => ?_, fun l => hq.nodes_distinct l⟩
  · obtain ⟨hentries, hhf, hhb⟩ := hlinks l
    obtain ⟨_, es', hkeys', hfinal⟩ := linkAll_spec l p.ldrEntries
    rw [hes] at hfinal
    have hnodes' : p.nodes env.ptrSize l es' = p.nodes env.ptrSize l p.ldrEntries :=
      nodes_congr hkeys'
    have hprev : synced.flinkAt env.ptrSize (p.head env.ptrSize l) =
        (p.nodes env.ptrSize l es').headD (p.head env.ptrSize l) % 256 ^ env.ptrSize :=
      hhf.trans (by rw [hnodes']; rfl)
    have hhead : synced.blinkAt env.ptrSize (p.head env.ptrSize l) =
        (p.nodes env.ptrSize l es').getLastD (p.head env.ptrSize l) % 256 ^ env.ptrSize :=
      hhb.trans (by rw [hnodes']; rfl)
    have hchain := linkEntries_chain ?_ hprev hhead ⟨(h.head_lt l).1, (h.head_lt l).1, ?_⟩
    · rw [hnodes'] at hchain
      have hring := isRing_of_isChain hchain
      rw [← hnodes l] at hring
      exact hring
    · intro e he
      have hin : (e.key, e.object.links l) ∈ es.map (fun e => (e.key, e.object.links l)) :=
        hfinal ▸ List.mem_map_of_mem (f := fun e => (e.key, e.object.links l)) he
      obtain ⟨x, hx, heq⟩ := List.mem_map.mp hin
      obtain ⟨hk, hl⟩ := Prod.mk.inj heq
      rw [← node_congr hk, ← hl]
      exact hentries x hx
    · rw [hnodes']
      intro n hn
      obtain ⟨e, he, rfl⟩ := List.mem_map.mp hn
      exact (h.node_lt l (List.mem_filter.mp he).1).1
  · obtain ⟨hf, hb⟩ := (hlinks l).1 e he
    obtain ⟨_, es', hkeys', hfinal⟩ := linkAll_spec l p.ldrEntries
    rw [hes] at hfinal
    have hin : (e.key, e.object.links l) ∈ (p.linkEntries env.ptrSize l (p.head env.ptrSize l) es').map
        (fun e => (e.key, e.object.links l)) :=
      hfinal ▸ List.mem_map_of_mem (f := fun e => (e.key, e.object.links l)) he
    obtain ⟨x, hx, heq⟩ := List.mem_map.mp hin
    obtain ⟨hk, hl⟩ := Prod.mk.inj heq
    have hself := linkEntries_self x hx (fun hin => hn ((inList_congr (p := p) hk).mp hin))
    have hlt := (hq.node_lt l he).1
    rw [← hl, hself, node_congr hk] at hf hb
    exact ⟨hf.trans (Nat.mod_eq_of_lt hlt), hb.trans (Nat.mod_eq_of_lt hlt)⟩

end LoaderProcess

/-- A base that fits the pointer fields of the guest. -/
def RuntimeModule.Fits (env : WinEnv) (m : RuntimeModule) : Prop := m.base < 256 ^ env.ptrSize

inductive LoaderOp
  | addModuleToPeb (m : RuntimeModule)
  | removeModuleFromPeb (m : RuntimeModule)

def LoaderOp.module : LoaderOp → RuntimeModule
  | .addModuleToPeb m => m
  | .removeModuleFromPeb m => m

namespace LoaderProcess

variable {ε : Type} [PageEngine ε]

/-- One call. A call that raises keeps what it changed before it raised. -/
def step (env : WinEnv) (p : LoaderProcess ε) : LoaderOp → LoaderProcess ε
  | .addModuleToPeb m => (p.addModuleToPeb env m).2
  | .removeModuleFromPeb m => (p.removeModuleFromPeb env m).2

def run (env : WinEnv) (p : LoaderProcess ε) (ops : List LoaderOp) : LoaderProcess ε :=
  ops.foldl (step env) p

variable {env : WinEnv} {limit : Nat} {outside : Nat → Prop} {p : LoaderProcess ε}

theorem removeModuleFromPeb_spec (h : p.PebReady env limit outside) (m : RuntimeModule) :
    (p.removeModuleFromPeb env m).2.PebReady env limit outside ∧
      ((p.removeModuleFromPeb env m).2 = p ∨
        (p.removeModuleFromPeb env m).2.RingsWritten env.ptrSize) := by
  unfold removeModuleFromPeb
  split
  next => exact ⟨h, Or.inl rfl⟩
  next =>
    have hsub : ((p.ldrEntries.filter fun e => e.object.dllBase != m.base).map fun e =>
        (e.address, LdrDataTableEntry.sizeof env.ptrSize)).Sublist
        (p.ldrEntries.map fun e => (e.address, LdrDataTableEntry.sizeof env.ptrSize)) :=
      List.filter_sublist.map _
    have hready : PebReady env limit outside { p with
        ldrEntries := p.ldrEntries.filter fun e => e.object.dllBase != m.base
        pebModules := p.pebModules.filter fun x => x.1 != m.base } := {
      h with
      placed :=
        ⟨fun o ho => h.placed.placed o ((hsub.append_right _).subset ho),
          h.placed.distinct.sublist ((hsub.append_right _).map Prod.fst)⟩
      same := by
        constructor
        · have := congrArg (List.filter fun b => b != m.base) h.same.bases
          simpa only [List.filter_map, Function.comp_def] using this
        · exact h.same.once.sublist (List.filter_sublist.map _) }
    obtain ⟨p', heq, hr, hrings⟩ := syncPebModuleLinks_spec hready
    rw [heq]
    exact ⟨hr, Or.inr hrings⟩

variable [LawfulPageEngine ε]

theorem addModuleToPeb_spec (h : p.PebReady env limit outside) {m : RuntimeModule} (hm : m.Fits env) :
    (∃ e, p.addModuleToPeb env m = (.error e, p)) ∨
    ∃ p', p.addModuleToPeb env m = (.ok (), p') ∧ p'.PebReady env limit outside ∧
      p'.RingsWritten env.ptrSize := by
  unfold addModuleToPeb
  split
  next => exact Or.inr (syncPebModuleLinks_spec h)
  next hnew =>
    have hnew : m.base ∉ p.pebModules.map Prod.fst := fun hin => hnew (lookup_ne_none_iff.mpr hin)
    dsimp only
    generalize hargs : MapArgs.mk (LdrDataTableEntry.sizeof env.ptrSize +
      (utf16le (m.emuPath ++ ['\x00'])).length) none permMemRwx (some ldrTag) 0 false none = args
    have hsize : LdrDataTableEntry.sizeof env.ptrSize ≤ args.size := by
      rw [← hargs]
      exact Nat.le_add_right ..
    have hbase : args.base = none := by rw [← hargs]
    have hinv : (MemoryManager.memMap env.mem p.mgr args).2.Inv outside := memMap_inv h.inv args
    have hbelow := memMap_below h.limited h.below args
    rcases hmap : MemoryManager.memMap env.mem p.mgr args with ⟨e | address, mgr⟩
    · have := memMap_error h.inv hmap
      subst this
      exact Or.inl ⟨_, rfl⟩
    · rw [hmap] at hinv hbelow
      obtain ⟨⟨mm, hmaps, hmb, hms⟩, hpos, hle⟩ :=
        memMap_ok h.inv h.limited h.below hbase hmap
      refine Or.inr (syncPebModuleLinks_spec ?_)
      have hold : ∀ o ∈ p.objects env.ptrSize, (∃ n ∈ mgr.maps, n.base = o.1 ∧ o.2 ≤ n.size) ∧
          o.1 ≠ address := by
        intro o ho
        obtain ⟨⟨n, hn, hnb, hns⟩, _⟩ := h.placed.placed o ho
        have hdist := hinv.bases_distinct
        rw [hmaps] at hdist ⊢
        have hne := (List.pairwise_append.mp hdist).2.2 n hn mm List.mem_cons_self
        exact ⟨⟨n, List.mem_append_left _ hn, hnb, hns⟩, by omega⟩
      refine {
        h with
        inv := hinv
        below := hbelow
        placed := ⟨fun o ho => ?_, ?_⟩
        same := ⟨?_, ?_⟩ }
      · simp only [objects, List.map_append, List.map_cons, List.map_nil, List.append_assoc,
          List.mem_append, List.mem_singleton] at ho
        have hcase : o = (address, LdrDataTableEntry.sizeof env.ptrSize) ∨
            o ∈ p.objects env.ptrSize := by
          simp only [objects, List.mem_append]
          tauto
        rcases hcase with rfl | ho
        · refine ⟨⟨mm, by simp [hmaps], hmb, by dsimp only; omega⟩, hpos, by dsimp only; omega⟩
        · exact ⟨(hold o ho).1, (h.placed.placed o ho).2⟩
      · have hdist := h.placed.distinct
        have hnot : address ∉ (p.objects env.ptrSize).map Prod.fst := by
          intro hin
          obtain ⟨o, ho, heq⟩ := List.mem_map.mp hin
          exact (hold o ho).2 heq
        have hperm : ((p.objects env.ptrSize).map Prod.fst ++ [address]).Perm
            ((objects env.ptrSize { p with
              ldrEntries := p.ldrEntries ++ [newEntry env.ptrSize address m] }).map Prod.fst) := by
          simp only [objects, List.map_append, List.map_cons, List.map_nil, List.append_assoc,
            newEntry]
          exact List.Perm.append_left _ List.perm_append_comm
        exact hperm.nodup_iff.mp (List.nodup_append.mpr ⟨hdist, by simp, by
          intro a ha b hb heq
          cases List.mem_singleton.mp hb
          exact hnot (heq ▸ ha)⟩)
      · have hmod : m.base % 256 ^ env.ptrSize = m.base := Nat.mod_eq_of_lt hm
        simp [newEntry, h.same.bases, hmod]
      · simp only [List.map_append, List.map_cons, List.map_nil]
        refine List.nodup_append.mpr ⟨h.same.once, by simp, ?_⟩
        intro a ha b hb heq
        cases List.mem_singleton.mp hb
        exact hnew (heq ▸ ha)

theorem step_spec (h : p.PebReady env limit outside) {op : LoaderOp} (ho : op.module.Fits env) :
    (p.step env op).PebReady env limit outside ∧
      ((p.step env op) = p ∨ (p.step env op).RingsWritten env.ptrSize) := by
  cases op with
  | addModuleToPeb m =>
    rw [step]
    have ho : m.Fits env := ho
    rcases addModuleToPeb_spec h ho with ⟨e, he⟩ | ⟨p', he, hr, hrings⟩
    · rw [he]
      exact ⟨h, Or.inl rfl⟩
    · rw [he]
      exact ⟨hr, Or.inr hrings⟩
  | removeModuleFromPeb m => exact removeModuleFromPeb_spec h m

theorem initPeb_spec (h : p.PebReady env limit outside) {modules : List RuntimeModule}
    (hm : ∀ m ∈ modules, m.Fits env) {p' : LoaderProcess ε} (hok : initPeb env p modules = (.ok (), p')) :
    p'.PebReady env limit outside ∧ p'.RingsWritten env.ptrSize := by
  induction modules generalizing p with
  | nil =>
    obtain ⟨q, heq, hr, hrings⟩ := syncPebModuleLinks_spec h
    rw [initPeb, heq] at hok
    cases hok
    exact ⟨hr, hrings⟩
  | cons m ms ih =>
    rw [initPeb] at hok
    rcases addModuleToPeb_spec h (hm m List.mem_cons_self) with ⟨e, he⟩ | ⟨q, he, hr, _⟩
    · simp [he] at hok
    · rw [he] at hok
      exact ih hr (fun x hx => hm x (List.mem_cons_of_mem _ hx)) hok

/-- Once `init_peb` has linked the lists, they stay rings of the current entries after every call,
and the entries and the modules keep the same bases. -/
theorem loader_lists_run (h : p.PebReady env limit outside) {modules : List RuntimeModule}
    (hm : ∀ m ∈ modules, m.Fits env) {p' : LoaderProcess ε} (hok : initPeb env p modules = (.ok (), p'))
    {ops : List LoaderOp} (ho : ∀ op ∈ ops, op.module.Fits env) :
    (p'.run env ops).RingsWritten env.ptrSize ∧ (p'.run env ops).SameBases := by
  obtain ⟨hr, hrings⟩ := initPeb_spec h hm hok
  clear hok h
  induction ops generalizing p' with
  | nil => exact ⟨hrings, hr.same⟩
  | cons op ops ih =>
    obtain ⟨hr', hcase⟩ := step_spec hr (ho op List.mem_cons_self)
    refine ih (fun o hmem => ho o (List.mem_cons_of_mem _ hmem)) hr' ?_
    rcases hcase with heq | hnew
    · rw [heq]
      exact hrings
    · exact hnew

end LoaderProcess

def x86Env : WinEnv := ⟨⟨some 0x7FFF0000, none, false, none⟩, 4, 0x50000⟩

/-- A memory with the loader data and the PEB of a process. -/
def loaderMemory : MemoryManager RegionEngine :=
  (MemoryManager.memMap x86Env.mem (MemoryManager.memMap x86Env.mem (MemoryManager.init emptyEngine)
    { size := 0x1000 }).2 { size := 0x1000 }).2

def freshProcess : LoaderProcess RegionEngine where
  mgr := loaderMemory
  memory := fun _ => 0
  ldrEntries := []
  pebModules := []
  base := 0x400000
  pe := some 0x400000
  pebAddress := 0x11000
  peb := List.replicate 0x40 0
  pebLdrData := ⟨0x10000, fun _ => {}⟩

theorem pebReady_freshProcess :
    freshProcess.PebReady x86Env 0x7FFF0000 (Mapped emptyEngine) where
  ptrSize := Or.inl rfl
  limited := ⟨rfl, by simp [x86Env]⟩
  fits := by decide
  inv := memMap_inv (memMap_inv (inv_init emptyEngine) _) _
  below := by
    have hlim : x86Env.mem.Limited 0x7FFF0000 := ⟨rfl, by simp [x86Env]⟩
    exact memMap_below hlim (memMap_below hlim ⟨by decide, fun h => absurd rfl h⟩ _) _
  placed := by
    constructor
    · decide
    · decide
  peb_size := by decide
  same := ⟨rfl, by simp [freshProcess]⟩

def mainModule : RuntimeModule := ⟨0x400000, 0x1000, 0x3000, "C:\\a.exe".toList, true⟩
def dllModule : RuntimeModule := ⟨0x77000000, 0x2000, 0x5000, "C:\\k.dll".toList, false⟩

theorem initPeb_freshProcess : LoaderProcess.initPeb x86Env freshProcess [] =
    (.ok (), (LoaderProcess.initPeb x86Env freshProcess []).2) := rfl

theorem loader_lists_run_addRemove :
    ((LoaderProcess.initPeb x86Env freshProcess []).2.run x86Env
      [.addModuleToPeb mainModule, .addModuleToPeb dllModule, .removeModuleFromPeb mainModule]).RingsWritten
        x86Env.ptrSize :=
  (LoaderProcess.loader_lists_run pebReady_freshProcess (by simp) initPeb_freshProcess (by
      simp [LoaderOp.module, RuntimeModule.Fits, x86Env, mainModule, dllModule])).1

/-- Before the lists are linked, a removal that finds no entry leaves the head unlinked. -/
theorem loader_lists_unlinked :
    ¬∀ ops : List LoaderOp, (∀ op ∈ ops, op.module.Fits x86Env) →
      (freshProcess.run x86Env ops).RingsWritten x86Env.ptrSize := by
  intro h
  have hring := (h [.removeModuleFromPeb dllModule] (by
    simp [LoaderOp.module, RuntimeModule.Fits, x86Env, dllModule])).ring .inLoadOrder
  have hself : freshProcess.flinkAt 4 0x1000C = 0x1000C := hring.forward
  exact absurd hself (by decide)

end Speakeasy
