import Speakeasy.CrtDescriptors

namespace Speakeasy

section

theorem fileSize_cases (env : CrtEnv) : (env.fileSize = 0x30 ∧ env.fileOffset = 0x1C) ∨
    (env.fileSize = 0x20 ∧ env.fileOffset = 0x10) := by
  unfold CrtEnv.fileSize CrtEnv.fileOffset
  by_cases h : env.ptrSize = 8
  · exact Or.inl ⟨if_pos h, if_pos h⟩
  · exact Or.inr ⟨if_neg h, if_neg h⟩

theorem signedDword_of_lt {n : Nat} (h : n < 2 ^ 31) : signedDword n = n := if_pos h

section

variable {fds : AList fun _ : Int => Nat} {fd : Int}

/-- Each turn passes a descriptor, so that the loop ends at one that is free. -/
theorem newFdLoop_lowest {fuel : Nat} (habove : 3 ≤ fd) (hpassed : ∀ k, 3 ≤ k → k < fd → fds.lookup k ≠ none)
    (hfuel : (fds.keys.filter fun k => decide (fd ≤ k)).length ≤ fuel) : Lowest fds (newFdLoop fds fuel fd) := by
  induction fuel generalizing fd with
  | zero =>
    have hnil := List.length_eq_zero_iff.mp (Nat.le_zero.mp hfuel)
    refine ⟨habove, ?_, hpassed⟩
    rw [AList.lookup_eq_none]
    intro hmem
    have hin : fd ∈ fds.keys.filter fun k => decide (fd ≤ k) :=
      List.mem_filter.mpr ⟨AList.mem_keys.mp hmem, decide_eq_true (Int.le_refl fd)⟩
    rw [hnil] at hin
    cases hin
  | succ fuel ih =>
    unfold newFdLoop
    by_cases hmem : fd ∈ fds
    · rw [if_pos hmem]
      have hsub : (fds.keys.filter fun k => decide (fd + 1 ≤ k)).length <
          (fds.keys.filter fun k => decide (fd ≤ k)).length := by
        have heq : (fds.keys.filter fun k => decide (fd + 1 ≤ k)) =
            (fds.keys.filter fun k => decide (fd ≤ k)).filter fun k => decide (fd + 1 ≤ k) := by
          rw [List.filter_filter]
          apply List.filter_congr
          intro k _
          by_cases hk : fd + 1 ≤ k
          · simp [hk, show fd ≤ k by omega]
          · simp [hk]
        rw [heq]
        refine List.length_filter_lt_length_iff_exists.mpr ⟨fd, ?_, by simp⟩
        exact List.mem_filter.mpr ⟨AList.mem_keys.mp hmem, decide_eq_true (Int.le_refl fd)⟩
      refine ih (by omega) (fun k hk hlt => ?_) (by omega)
      by_cases heq : k = fd
      · rw [heq]
        exact fun hnone => AList.lookup_eq_none.mp hnone hmem
      · exact hpassed k hk (by omega)
    · rw [if_neg hmem]
      exact ⟨habove, AList.lookup_eq_none.mpr hmem, hpassed⟩

theorem newFd_lowest (fds : AList fun _ : Int => Nat) : Lowest fds (newFd fds) :=
  newFdLoop_lowest (Int.le_refl 3) (fun k hk hlt => absurd hlt (by omega)) (List.length_filter_le _ _)

end

namespace CrtState

variable {env : CrtEnv} {s s' : CrtState} {stream other : Nat} {fd : Int}

theorem inIob_fields {iob : Nat} (h : s.inIob env stream) (hiob : iob ∈ s.iob) :
    ∃ i < 3, stream = iob + i * env.fileSize := by
  obtain ⟨iob', hiob', hle, hlt, hmod⟩ := h
  have hsame : iob' = iob := Option.some.inj (hiob'.symm.trans hiob)
  rw [hsame] at hle hlt hmod
  have hpos : 0 < env.fileSize := by
    cases fileSize_cases env with
    | inl hsize => omega
    | inr hsize => omega
  refine ⟨(stream - iob) / env.fileSize, ?_, ?_⟩
  · exact (Nat.div_lt_iff_lt_mul hpos).mpr hlt
  · have hdiv := Nat.div_add_mod (stream - iob) env.fileSize
    rw [hmod, Nat.mul_comm] at hdiv
    omega

/-- The descriptor of a FILE depends on its bytes and on the streams of the runtime. -/
theorem getStreamFd_congr (hmemory : s'.memory = s.memory) (hiob : s'.iob = s.iob)
    (hcrt : other ∈ s'.crtStreams ↔ other ∈ s.crtStreams) : s'.getStreamFd env other = s.getStreamFd env other := by
  have hin : s'.inIob env other ↔ s.inIob env other := by
    unfold inIob
    rw [hiob]
  unfold getStreamFd
  rw [hmemory]
  by_cases hnone : ¬s.inIob env other ∧ other ∉ s.crtStreams
  · rw [if_pos hnone, if_pos ⟨fun h => hnone.1 (hin.mp h), fun h => hnone.2 (hcrt.mp h)⟩]
  · rw [if_neg hnone, if_neg fun h => hnone ⟨fun hi => h.1 (hin.mpr hi), fun hc => h.2 (hcrt.mpr hc)⟩]

/-- A new FILE has its descriptor, and every other FILE keeps its own. -/
theorem newStream_getStreamFd (hfresh : s.Fresh env stream) {fd : Nat} (hfd : fd < 2 ^ 31) (hfile : Option Nat)
    (other : Nat) : (s.newStream env stream fd hfile).getStreamFd env other =
      if other = stream then some (fd : Int) else s.getStreamFd env other := by
  by_cases heq : other = stream
  · rw [if_pos heq, heq]
    unfold getStreamFd
    rw [if_neg (by intro h; exact h.2 List.mem_cons_self)]
    have hread : (s.newStream env stream fd hfile).memory.readInt (stream + env.fileOffset) 4 = fd := by
      have hself := ByteMemory.readBytes_writeBytes_self s.memory (stream + env.fileOffset) (toBytes 4 fd)
      rw [toBytes_length] at hself
      show fromBytes ((s.memory.writeBytes (stream + env.fileOffset) (toBytes 4 (fd : Int).toNat)).readBytes
        (stream + env.fileOffset) 4) = fd
      rw [Int.toNat_natCast, hself, fromBytes_toBytes_of_lt (by omega)]
    rw [hread, signedDword_of_lt hfd]
  · rw [if_neg heq]
    have hmem : other ∈ stream :: s.crtStreams ↔ other ∈ s.crtStreams := by
      rw [List.mem_cons]
      exact or_iff_right heq
    unfold getStreamFd
    show (if ¬s.inIob env other ∧ other ∉ stream :: s.crtStreams then none else _) = _
    by_cases hnone : ¬s.inIob env other ∧ other ∉ s.crtStreams
    · rw [if_pos ⟨hnone.1, fun h => hnone.2 (hmem.mp h)⟩, if_pos hnone]
    · rw [if_neg fun h => hnone ⟨h.1, fun hin => h.2 (hmem.mpr hin)⟩, if_neg hnone]
      have hapart : stream + env.fileSize ≤ other ∨ other + env.fileSize ≤ stream := by
        by_cases hcrt : other ∈ s.crtStreams
        · exact hfresh.1 other hcrt
        · have hin : s.inIob env other := by
            by_contra hno
            exact hnone ⟨hno, hcrt⟩
          have hin' := hin
          obtain ⟨iob, hiob, _⟩ := hin'
          obtain ⟨i, hi, hother⟩ := inIob_fields hin hiob
          have hout := hfresh.2 iob hiob
          have hmul : i * env.fileSize + env.fileSize ≤ 3 * env.fileSize := by
            calc i * env.fileSize + env.fileSize = (i + 1) * env.fileSize := by rw [Nat.add_mul, Nat.one_mul]
              _ ≤ 3 * env.fileSize := Nat.mul_le_mul_right _ hi
          omega
      have hread : (s.newStream env stream fd hfile).memory.readInt (other + env.fileOffset) 4 =
          s.memory.readInt (other + env.fileOffset) 4 := by
        unfold ByteMemory.readInt
        show fromBytes ((s.memory.writeBytes (stream + env.fileOffset) (toBytes 4 (fd : Int).toNat)).readBytes
          (other + env.fileOffset) 4) = _
        rw [ByteMemory.readBytes_writeBytes_of_apart]
        rw [toBytes_length]
        cases fileSize_cases env with
        | inl hsize => omega
        | inr hsize => omega
      rw [hread]

end CrtState

end

section

open CrtState

/-- The descriptors have handles that are open. -/
def HandlesOpen (env : CrtEnv) (handles : HandleState) (fds : AList fun _ : Int => Nat) : Prop :=
  ∃ base history, HandleState.Inv base handles history ∧
    ∀ fd h, fds.lookup fd = some h → ∃ obj, (env.table, h, obj) ∈ openHandles history

structure CrtInv (env : CrtEnv) (s : CrtState) : Prop where
  handles : HandlesOpen env s.handles s.fds
  room : s.handles.allocator.handle ≤ 0x100000000
  nonneg : ∀ {stream fd}, s.getStreamFd env stream = some fd → 0 ≤ fd
  standard : ∀ {fd h}, s.fds.lookup fd = some h → 3 ≤ fd ∨ (0 ≤ fd ∧
    ∃ stream, s.getStreamFd env stream = some fd ∧ s.fileStreams.lookup stream = some h)
  same : ∀ {stream h}, s.fileStreams.lookup stream = some h → ∃ fd, s.getStreamFd env stream = some fd ∧
    s.fds.lookup fd = some h

/-- What `file_open` does: a handle of a new object, and no change of the runtime. -/
structure Opened (env : CrtEnv) (s : CrtState) (hfile : Option Nat) (s₁ : CrtState) : Prop where
  memory : s₁.memory = s.memory
  iob : s₁.iob = s.iob
  fileStreams : s₁.fileStreams = s.fileStreams
  crtStreams : s₁.crtStreams = s.crtStreams
  fds : s₁.fds = s.fds
  handles : (hfile = none ∧ s₁.handles = s.handles) ∨
    ∃ h, hfile = some h ∧ (s₁.handles, h) = s.handles.newHandle env.table s.nextObject

variable {env : CrtEnv} {s s' s₁ : CrtState} {hfile : Option Nat} {stream : Nat}

theorem fileOpen_opened {path : PyStr} {create : Bool} (h : s.fileOpen env path create = .ok (hfile, s₁)) :
    Opened env s hfile s₁ := by
  unfold CrtState.fileOpen at h
  split at h
  next => cases h
  next =>
    obtain ⟨rfl, rfl⟩ := Prod.mk.inj (Except.ok.inj h)
    exact ⟨rfl, rfl, rfl, rfl, rfl, Or.inl ⟨rfl, rfl⟩⟩
  next =>
    obtain ⟨rfl, rfl⟩ := Prod.mk.inj (Except.ok.inj h)
    exact ⟨rfl, rfl, rfl, rfl, rfl, Or.inr ⟨_, rfl, rfl⟩⟩

theorem openStreamFile_opened {path mode : PyStr} (h : s.openStreamFile env path mode = .ok (hfile, s₁)) :
    Opened env s hfile s₁ := by
  unfold CrtState.openStreamFile at h
  split at h
  next => exact fileOpen_opened h
  next =>
    split at h
    next => exact fileOpen_opened h
    next => exact fileOpen_opened h

namespace Opened

variable (h : Opened env s hfile s₁)

include h

theorem getStreamFd (stream : Nat) : s₁.getStreamFd env stream = s.getStreamFd env stream := by
  apply getStreamFd_congr h.memory h.iob
  rw [h.crtStreams]

theorem fresh (hfresh : s.Fresh env stream) : s₁.Fresh env stream := by
  unfold Fresh
  rw [h.crtStreams, h.iob]
  exact hfresh

/-- The handles stay open, with the new one. -/
theorem handlesOpen {fds : AList fun _ : Int => Nat} (hopen : HandlesOpen env s.handles s.fds)
    (hfds : ∀ fd h, fds.lookup fd = some h → hfile = some h ∨ s.fds.lookup fd = some h) :
    HandlesOpen env s₁.handles fds := by
  obtain ⟨base, history, hinv, hold⟩ := hopen
  cases h.handles with
  | inl hnone =>
    obtain ⟨hnofile, hsame⟩ := hnone
    refine ⟨base, history, hsame ▸ hinv, fun fd handle hlookup => ?_⟩
    cases hfds fd handle hlookup with
    | inl hnew =>
      rw [hnofile] at hnew
      cases hnew
    | inr hbefore => exact hold fd handle hbefore
  | inr hsome =>
    obtain ⟨handle, hfile, hnew⟩ := hsome
    have hnext : HandleState.Inv base s₁.handles ((.newHandle env.table s.nextObject, .handle handle) :: history) := by
      have hstep := hinv.newHandle env.table s.nextObject
      have hhandles : s₁.handles = (s.handles.newHandle env.table s.nextObject).1 := congrArg Prod.fst hnew
      have hhandle : handle = (s.handles.newHandle env.table s.nextObject).2 := congrArg Prod.snd hnew
      rw [hhandles, hhandle]
      exact hstep
    refine ⟨base, _, hnext, fun fd handle' hlookup => ?_⟩
    cases hfds fd handle' hlookup with
    | inl hthis =>
      rw [hfile] at hthis
      rw [← Option.some.inj hthis]
      exact ⟨s.nextObject, List.mem_cons_self⟩
    | inr hbefore =>
      obtain ⟨obj, hmem⟩ := hold fd handle' hbefore
      exact ⟨obj, List.mem_cons_of_mem _ hmem⟩

theorem handle_le (hroom : s.handles.allocator.handle ≤ 0x100000000) (hnext : hfile ≠ none → s.Room) :
    s₁.handles.allocator.handle ≤ 0x100000000 := by
  cases h.handles with
  | inl hnone => exact hnone.2 ▸ hroom
  | inr hsome =>
    obtain ⟨handle, hfile, hnew⟩ := hsome
    have hhandles : s₁.handles = (s.handles.newHandle env.table s.nextObject).1 := congrArg Prod.fst hnew
    have hroom' : s.Room := hnext (by rw [hfile]; exact Option.some_ne_none handle)
    rw [hhandles]
    exact hroom'

/-- A failed open leaves the runtime as it is. -/
theorem frame : s.Frame env s₁ none none :=
  ⟨fun _ _ => by rw [h.fds], fun other _ => ⟨by rw [h.fileStreams], h.getStreamFd other⟩⟩

theorem inv (hinv : CrtInv env s) (hnone : hfile = none) : CrtInv env s₁ where
  handles := h.handlesOpen hinv.handles fun fd handle hlookup => Or.inr (h.fds ▸ hlookup)
  room := h.handle_le hinv.room fun hne => absurd hnone hne
  nonneg := by
    intro stream fd hfd
    exact hinv.nonneg ((h.getStreamFd stream).symm.trans hfd)
  standard := by
    intro fd handle hlookup
    rw [h.fds] at hlookup
    simp only [h.getStreamFd, h.fileStreams]
    exact hinv.standard hlookup
  same := by
    intro stream handle hlookup
    rw [h.fileStreams] at hlookup
    rw [h.getStreamFd, h.fds]
    exact hinv.same hlookup

end Opened

/-! New descriptors and new streams. -/

/-- A stream that is new has no file yet. -/
theorem CrtInv.fresh_noFile (h : CrtInv env s) (hfresh : s.Fresh env stream) : s.fileStreams.lookup stream = none := by
  by_contra hsome
  obtain ⟨handle, hlookup⟩ := Option.ne_none_iff_exists'.mp hsome
  obtain ⟨fd, hfd, _⟩ := h.same hlookup
  have hpos : 0 < env.fileSize := by
    cases fileSize_cases env with
    | inl hsize => omega
    | inr hsize => omega
  unfold CrtState.getStreamFd at hfd
  split at hfd
  next => cases hfd
  next hin =>
    by_cases hcrt : stream ∈ s.crtStreams
    · have hapart := hfresh.1 stream hcrt
      omega
    · have hiob : s.inIob env stream := by
        by_contra hno
        exact hin ⟨hno, hcrt⟩
      obtain ⟨iob, hmem, hle, hlt, _⟩ := hiob
      have hapart := hfresh.2 iob hmem
      omega

end

section

open CrtState

variable {env : CrtEnv} {s s' s₁ : CrtState} {hfile : Option Nat} {stream : Nat} {fd rv : Int}

/-- The new descriptor and its file. -/
theorem Opened.newFd_inv (h : Opened env s hfile s₁) (hinv : CrtInv env s) {handle : Nat} (hfile : hfile = some handle)
    (hroom : s.Room) : CrtInv env { s₁ with fds := s₁.fds.insert (newFd s₁.fds) handle } ∧
      s.Frame env { s₁ with fds := s₁.fds.insert (newFd s₁.fds) handle } (some (newFd s₁.fds)) none := by
  have hlowest := newFd_lowest s₁.fds
  have hfd : ∀ other, CrtState.getStreamFd env { s₁ with fds := s₁.fds.insert (newFd s₁.fds) handle } other =
      s.getStreamFd env other := fun other => h.getStreamFd other
  have hother : ∀ {k h'}, (s₁.fds.insert (newFd s₁.fds) handle).lookup k = some h' →
      (k = newFd s₁.fds ∧ handle = h') ∨ s.fds.lookup k = some h' := by
    intro k h' hlookup
    by_cases hk : k = newFd s₁.fds
    · rw [hk, AList.lookup_insert] at hlookup
      exact Or.inl ⟨hk, Option.some.inj hlookup⟩
    · rw [AList.lookup_insert_ne hk, h.fds] at hlookup
      exact Or.inr hlookup
  refine ⟨⟨?_, h.handle_le hinv.room fun _ => hroom, fun {stream fd} hsome => hinv.nonneg ((hfd stream).symm.trans hsome),
    fun {k h'} hlookup => ?_, fun {stream h'} hlookup => ?_⟩, fun k hk => ?_, fun other _ => ⟨?_, hfd other⟩⟩
  · refine h.handlesOpen hinv.handles fun k h' hlookup => ?_
    cases hother hlookup with
    | inl hnew => exact Or.inl (hfile.trans (congrArg some hnew.2))
    | inr hold => exact Or.inr hold
  · cases hother hlookup with
    | inl hnew => exact Or.inl (hnew.1 ▸ hlowest.above)
    | inr hold =>
      cases hinv.standard hold with
      | inl habove => exact Or.inl habove
      | inr hstd =>
        obtain ⟨hpos, stream, hsfd, hfile⟩ := hstd
        exact Or.inr ⟨hpos, stream, (hfd stream).trans hsfd, (congrArg (AList.lookup stream) h.fileStreams).trans hfile⟩
  · have hfile : s.fileStreams.lookup stream = some h' := (congrArg (AList.lookup stream) h.fileStreams).symm.trans hlookup
    obtain ⟨k, hk, hold⟩ := hinv.same hfile
    refine ⟨k, (hfd stream).trans hk, ?_⟩
    show (s₁.fds.insert (newFd s₁.fds) handle).lookup k = some h'
    have hne : k ≠ newFd s₁.fds := by
      intro heq
      have hfree := hlowest.free
      rw [← heq, h.fds, hold] at hfree
      cases hfree
    rw [AList.lookup_insert_ne hne, h.fds]
    exact hold
  · show (s₁.fds.insert (newFd s₁.fds) handle).lookup k = s.fds.lookup k
    rw [AList.lookup_insert_ne fun heq => hk (congrArg some heq), h.fds]
  · show s₁.fileStreams.lookup other = s.fileStreams.lookup other
    rw [h.fileStreams]

/-- A new stream of a descriptor that is open or standard. -/
theorem CrtInv.newStream (h : CrtInv env s) (hfresh : s.Fresh env stream) {n : Nat} (hn : n < 2 ^ 31) :
    CrtInv env (s.newStream env stream n (s.fds.lookup (n : Int))) ∧
      (s.newStream env stream n (s.fds.lookup (n : Int))).getStreamFd env stream = some (n : Int) ∧
      (s.newStream env stream n (s.fds.lookup (n : Int))).fileStreams.lookup stream = s.fds.lookup (n : Int) ∧
      s.Frame env (s.newStream env stream n (s.fds.lookup (n : Int))) none (some stream) := by
  have hgets := newStream_getStreamFd hfresh hn (s.fds.lookup (n : Int))
  have hself : (s.newStream env stream n (s.fds.lookup (n : Int))).getStreamFd env stream = some (n : Int) := by
    rw [hgets, if_pos rfl]
  have hrest : ∀ other, other ≠ stream →
      (s.newStream env stream n (s.fds.lookup (n : Int))).getStreamFd env other = s.getStreamFd env other := by
    intro other hne
    rw [hgets, if_neg hne]
  have hfiles : ∀ other, (s.newStream env stream n (s.fds.lookup (n : Int))).fileStreams.lookup other =
      if other = stream then s.fds.lookup (n : Int) else s.fileStreams.lookup other := by
    intro other
    unfold CrtState.newStream
    by_cases heq : other = stream
    · rw [if_pos heq, heq]
      cases hn : s.fds.lookup (n : Int) with
      | none => exact h.fresh_noFile hfresh
      | some handle => exact AList.lookup_insert _
    · rw [if_neg heq]
      cases s.fds.lookup (n : Int) with
      | none => rfl
      | some handle => exact AList.lookup_insert_ne heq
  refine ⟨⟨h.handles, h.room, fun {other fd} hsome => ?_, fun {k h'} hlookup => ?_, fun {other h'} hlookup => ?_⟩, hself,
    (hfiles stream).trans (if_pos rfl), fun _ _ => rfl, fun other hne => ?_⟩
  · by_cases heq : other = stream
    · rw [heq, hself] at hsome
      rw [← Option.some.inj hsome]
      omega
    · exact h.nonneg ((hrest other heq).symm.trans hsome)
  · cases h.standard hlookup with
    | inl habove => exact Or.inl habove
    | inr hstd =>
      obtain ⟨hpos, other, hfd, hfile⟩ := hstd
      have hne : other ≠ stream := by
        intro heq
        rw [heq, h.fresh_noFile hfresh] at hfile
        cases hfile
      exact Or.inr ⟨hpos, other, (hrest other hne).trans hfd, (hfiles other).trans ((if_neg hne).trans hfile)⟩
  · rw [hfiles] at hlookup
    by_cases heq : other = stream
    · rw [if_pos heq] at hlookup
      exact ⟨n, by rw [heq]; exact hself, hlookup⟩
    · rw [if_neg heq] at hlookup
      obtain ⟨k, hk, hold⟩ := h.same hlookup
      exact ⟨k, (hrest other heq).trans hk, hold⟩
  · have hne : other ≠ stream := fun heq => hne (congrArg some heq)
    exact ⟨(hfiles other).trans (if_neg hne), hrest other hne⟩

end

section

open CrtState

variable {env : CrtEnv} {s s' s₁ : CrtState} {hfile : Option Nat} {stream : Nat} {fd rv : Int}

theorem CrtState.Frame.refl (env : CrtEnv) (s : CrtState) : s.Frame env s none none :=
  ⟨fun _ _ => rfl, fun _ _ => ⟨rfl, rfl⟩⟩

theorem CrtInv.openStream (h : CrtInv env s) {path mode : PyStr} (hfresh : s.Fresh env stream) (hroom : s.Room)
    (hfd : newFd s.fds < 2 ^ 31) (hres : s.openStream env path mode stream = .ok (rv, s')) :
    CrtInv env s' ∧ ((rv = 0 ∧ s.Frame env s' none none) ∨ (rv = stream ∧ ∃ fd h, Lowest s.fds fd ∧
      s'.getStreamFd env stream = some fd ∧ s'.fds.lookup fd = some h ∧ s'.fileStreams.lookup stream = some h ∧
      s.Frame env s' (some fd) (some stream))) := by
  unfold CrtState.openStream at hres
  cases hopen : s.openStreamFile env path mode with
  | error e =>
    rw [hopen] at hres
    cases hres
  | ok opened =>
    obtain ⟨hfile, s₁⟩ := opened
    rw [hopen] at hres
    have hopened := openStreamFile_opened hopen
    cases hfile with
    | none =>
      obtain ⟨rfl, rfl⟩ := Prod.mk.inj (Except.ok.inj hres)
      exact ⟨hopened.inv h rfl, Or.inl ⟨rfl, hopened.frame⟩⟩
    | some handle =>
      obtain ⟨rfl, rfl⟩ := Prod.mk.inj (Except.ok.inj hres)
      obtain ⟨hinv, hframe⟩ := hopened.newFd_inv h rfl hroom
      have hlowest : Lowest s.fds (newFd s₁.fds) := by
        rw [hopened.fds]
        exact newFd_lowest s.fds
      obtain ⟨n, hn⟩ := Int.eq_ofNat_of_zero_le (show 0 ≤ newFd s₁.fds by have habove := hlowest.above; omega)
      have hlt : n < 2 ^ 31 := by
        rw [← hopened.fds] at hfd
        omega
      rw [hn] at hinv hframe hlowest ⊢
      obtain ⟨hinv', hgets, hfiles, hframe'⟩ := hinv.newStream (hopened.fresh hfresh) hlt
      have hself : (s₁.fds.insert (n : Int) handle).lookup (n : Int) = some handle := AList.lookup_insert _
      have hnew : ({ s₁ with fds := s₁.fds.insert (n : Int) handle } : CrtState).fds.lookup (n : Int) = some handle := hself
      rw [hnew] at hinv' hgets hfiles hframe'
      refine ⟨hinv', Or.inr ⟨rfl, n, handle, hlowest, hgets, hself, hfiles, fun k hk => ?_, fun other hother => ?_⟩⟩
      · exact (hframe'.fds k (by simp)).trans (hframe.fds k hk)
      · obtain ⟨hfiles', hgets'⟩ := hframe'.streams other hother
        obtain ⟨hfiles₁, hgets₁⟩ := hframe.streams other (by simp)
        exact ⟨hfiles'.trans hfiles₁, hgets'.trans hgets₁⟩

theorem CrtInv.openFd (h : CrtInv env s) {filename : Option PyStr} {oflag : Nat} (hroom : s.Room)
    (hres : s.openFd env filename oflag = .ok (rv, s')) :
    CrtInv env s' ∧ ((rv = -1 ∧ s.Frame env s' none none) ∨ (Lowest s.fds rv ∧ (∃ h, s'.fds.lookup rv = some h) ∧
      s.Frame env s' (some rv) none)) := by
  unfold CrtState.openFd at hres
  cases filename with
  | none =>
    obtain ⟨rfl, rfl⟩ := Prod.mk.inj (Except.ok.inj hres)
    exact ⟨h, Or.inl ⟨rfl, Frame.refl env s⟩⟩
  | some path =>
    simp only at hres
    split at hres
    next =>
      obtain ⟨rfl, rfl⟩ := Prod.mk.inj (Except.ok.inj hres)
      exact ⟨h, Or.inl ⟨rfl, Frame.refl env s⟩⟩
    next =>
      cases hopen : s.fileOpen env path
          (hasFlag oflag oCreat && (!s.files.doesFileExist env.files path || hasFlag oflag oTrunc)) with
      | error e =>
        rw [hopen] at hres
        cases hres
      | ok opened =>
        obtain ⟨hfile, s₁⟩ := opened
        rw [hopen] at hres
        have hopened := fileOpen_opened hopen
        cases hfile with
        | none =>
          obtain ⟨rfl, rfl⟩ := Prod.mk.inj (Except.ok.inj hres)
          exact ⟨hopened.inv h rfl, Or.inl ⟨rfl, hopened.frame⟩⟩
        | some handle =>
          obtain ⟨rfl, rfl⟩ := Prod.mk.inj (Except.ok.inj hres)
          obtain ⟨hinv, hframe⟩ := hopened.newFd_inv h rfl hroom
          refine ⟨hinv, Or.inr ⟨?_, ⟨handle, AList.lookup_insert _⟩, hframe⟩⟩
          rw [hopened.fds]
          exact newFd_lowest s.fds

theorem CrtInv.fdopen (h : CrtInv env s) {mode : Bool} (hfresh : s.Fresh env stream) (hfd : fd < 2 ^ 31) :
    CrtInv env (s.fdopen env fd mode stream).2 ∧
      (((s.fdopen env fd mode stream).1 = 0 ∧ s.Frame env (s.fdopen env fd mode stream).2 none none) ∨
      ((s.fdopen env fd mode stream).1 = stream ∧ (s.fdopen env fd mode stream).2.getStreamFd env stream = some fd ∧
        (s.fdopen env fd mode stream).2.fileStreams.lookup stream = s.fds.lookup fd ∧
        s.Frame env (s.fdopen env fd mode stream).2 none (some stream))) := by
  unfold CrtState.fdopen
  split
  next => exact ⟨h, Or.inl ⟨rfl, Frame.refl env s⟩⟩
  next =>
    split
    next => exact ⟨h, Or.inl ⟨rfl, Frame.refl env s⟩⟩
    next hknown =>
      have hpos : 0 ≤ fd := by
        by_cases hmem : fd ∈ s.fds
        · obtain ⟨handle, hlookup⟩ := Option.isSome_iff_exists.mp (AList.lookup_isSome.mpr hmem)
          cases h.standard hlookup with
          | inl habove => omega
          | inr hstd => exact hstd.1
        · have hstd : ¬(fd ≠ 0 ∧ fd ≠ 1 ∧ fd ≠ 2) := fun hno => hknown ⟨hmem, hno⟩
          omega
      obtain ⟨n, rfl⟩ := Int.eq_ofNat_of_zero_le hpos
      obtain ⟨hinv, hgets, hfiles, hframe⟩ := h.newStream hfresh (show n < 2 ^ 31 by omega)
      exact ⟨hinv, Or.inr ⟨rfl, hgets, hfiles, hframe⟩⟩

theorem CrtInv.close (h : CrtInv env s) (hallowed : ∀ stream, ¬s.Owns env fd stream) :
    CrtInv env (s.close fd).2 ∧ (s.close fd).2.fds.lookup fd = none ∧ s.Frame env (s.close fd).2 (some fd) none := by
  have hother : ∀ {k h'}, (s.fds.erase fd).lookup k = some h' → k ≠ fd ∧ s.fds.lookup k = some h' := by
    intro k h' hlookup
    by_cases hk : k = fd
    · rw [hk, AList.lookup_erase] at hlookup
      cases hlookup
    · rw [AList.lookup_erase_ne hk] at hlookup
      exact ⟨hk, hlookup⟩
  unfold CrtState.close
  split
  next =>
    refine ⟨⟨?_, h.room, h.nonneg, fun {k h'} hlookup => h.standard (hother hlookup).2, fun {stream h'} hlookup => ?_⟩,
      AList.lookup_erase _ _, fun k hk => AList.lookup_erase_ne fun heq => hk (congrArg some heq), fun _ _ => ⟨rfl, rfl⟩⟩
    · obtain ⟨base, history, hhandles, hopen⟩ := h.handles
      exact ⟨base, history, hhandles, fun k h' hlookup => hopen k h' (hother hlookup).2⟩
    · obtain ⟨k, hk, hold⟩ := h.same hlookup
      have hne : k ≠ fd := by
        intro heq
        refine hallowed stream ⟨?_, heq ▸ hk⟩
        have hlookup : s.fileStreams.lookup stream = some h' := hlookup
        rw [hlookup]
        exact Option.some_ne_none h'
      exact ⟨k, hk, (AList.lookup_erase_ne hne).trans hold⟩
  next hunknown =>
    have hnone : s.fds.lookup fd = none := AList.lookup_eq_none.mpr fun hmem => hunknown (Or.inl hmem)
    exact ⟨h, hnone, fun _ _ => rfl, fun _ _ => ⟨rfl, rfl⟩⟩

end

end Speakeasy
