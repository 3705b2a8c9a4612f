import Speakeasy.FileObjects

namespace Speakeasy

/-- A file object that has the first buffer of its heap. -/
def FileObject.touch (f : FileObject) : FileObject := { f with data := some 0 }

theorem readAt_end {bytes : List UInt8} {pos : Nat} (h : bytes.length ≤ pos) (size : Int) :
    readAt bytes pos size = [] := by
  have hdrop : bytes.drop pos = [] := List.drop_eq_nil_iff.mpr h
  unfold readAt
  split
  next => exact hdrop
  next => rw [hdrop, List.take_nil]

theorem writeAt_end (bytes data : List UInt8) : writeAt bytes bytes.length data = bytes ++ data := by
  unfold writeAt
  split
  next h => rw [h, List.append_nil]
  next =>
    have hdrop : bytes.drop (bytes.length + data.length) = [] :=
      List.drop_eq_nil_iff.mpr (Nat.le_add_right ..)
    rw [hdrop, List.take_length, Nat.sub_self]
    simp

namespace FileObject

variable (f : FileObject) (buf : BytesIO)

/-- A read is at the cursor of the file, whatever the position of the buffer. -/
theorem getData_spec (size : Int) (reset : Bool) :
    let cursor := if f.pos = buf.bytes.length ∧ reset then 0 else f.pos
    let data := readAt buf.bytes cursor size
    ∃ buf', f.getData buf size reset = (data, { f with pos := cursor + data.length }, buf') ∧
      buf'.bytes = buf.bytes := by
  simp only [getData, BytesIO.size]
  by_cases hend : f.pos = buf.bytes.length
  · cases reset with
    | true =>
      refine ⟨((buf.seekTo 0).read size).2, ?_, rfl⟩
      simp [hend, BytesIO.read, BytesIO.seekTo, BytesIO.seekEnd]
    | false =>
      have hnil : readAt buf.bytes f.pos size = [] := readAt_end (Nat.le_of_eq hend.symm) size
      refine ⟨buf.seekEnd, ?_, rfl⟩
      simp [hnil]
      exact fun h => absurd hend h
  · refine ⟨((buf.seekTo f.pos).read size).2, ?_, rfl⟩
    simp [hend, BytesIO.read, BytesIO.seekTo, BytesIO.seekEnd]

theorem seek_spec (offset : Int) (whence : Nat) :
    ∃ buf', buf'.bytes = buf.bytes ∧ f.seek buf offset whence =
      (seekTarget buf.bytes.length f.pos offset whence,
        { f with pos := (seekTarget buf.bytes.length f.pos offset whence).getD f.pos }, buf') := by
  unfold seek
  cases h : seekTarget buf.bytes.length f.pos offset whence with
  | none => exact ⟨buf.seekTo f.pos, rfl, by simp [ BytesIO.size, BytesIO.seekTo, h]⟩
  | some pos => exact ⟨buf.seekTo pos, rfl, by simp [ BytesIO.size, BytesIO.seekTo, h]⟩

theorem addData_bytes (data : List UInt8) : (f.addData buf data).2.bytes = buf.bytes ++ data :=
  writeAt_end buf.bytes data

/-- A read at the end that does not go back reads nothing, whatever its size. -/
theorem tryGetData_end {size : Int} (h : f.pos = buf.bytes.length) :
    ∃ buf', f.tryGetData buf size false = (.ok [], f, buf') ∧ buf'.bytes = buf.bytes := by
  refine ⟨buf.seekEnd, ?_, rfl⟩
  simp [tryGetData, getData, BytesIO.size, h]

theorem tryGetData_fits {size : Int} (hsize : isSsize size = true) (reset : Bool) :
    let cursor := if f.pos = buf.bytes.length ∧ reset then 0 else f.pos
    let data := readAt buf.bytes cursor size
    ∃ buf', f.tryGetData buf size reset = (.ok data, { f with pos := cursor + data.length }, buf') ∧
      buf'.bytes = buf.bytes := by
  intro cursor data
  obtain ⟨buf', hget, hbytes⟩ := f.getData_spec buf size reset
  refine ⟨buf', ?_, hbytes⟩
  unfold tryGetData
  rw [hsize, Bool.true_or, if_pos rfl, hget]

theorem tryGetData_overflow {size : Int} {reset : Bool} (hsize : isSsize size = false)
    (hend : ¬(f.pos = buf.bytes.length ∧ reset = false)) :
    let cursor := if f.pos = buf.bytes.length ∧ reset then 0 else f.pos
    ∃ buf', f.tryGetData buf size reset = (.error .overflowError, { f with pos := cursor }, buf') ∧
      buf'.bytes = buf.bytes := by
  intro cursor
  have hguard : ¬(isSsize size || (decide (f.pos = buf.size) && !reset)) = true := by
    rw [hsize, Bool.false_or, Bool.and_eq_true, decide_eq_true_iff, Bool.not_eq_true']
    exact hend
  have hcursor : (if f.pos = buf.size then 0 else f.pos) = cursor := by
    by_cases hpos : f.pos = buf.bytes.length
    · have hreset : reset = true := by simpa using fun h => hend ⟨hpos, h⟩
      have hleft : (if f.pos = buf.size then 0 else f.pos) = 0 := if_pos hpos
      exact hleft.trans (if_pos ⟨hpos, hreset⟩).symm
    · have hleft : (if f.pos = buf.size then 0 else f.pos) = f.pos := if_neg hpos
      exact hleft.trans (if_neg fun h => hpos h.1).symm
  refine ⟨buf.seekTo cursor, ?_, rfl⟩
  unfold tryGetData
  rw [if_neg hguard]
  simp only [hcursor]

theorem trySeek_overflow {offset : Int} {whence : Nat}
    (h : ¬(isSsize offset && isSsize (f.seekStart buf whence + offset)) = true) :
    ∃ buf', f.trySeek buf offset whence = (.error .overflowError, f, buf') ∧ buf'.bytes = buf.bytes :=
  ⟨buf.seekTo f.pos, if_neg h, rfl⟩

theorem seekTarget_eq {offset : Int} {whence : Nat} (hwhence : whence ≤ 2) :
    seekTarget buf.bytes.length f.pos offset whence =
      if whence = 0 ∧ offset < 0 then none else some ((f.seekStart buf whence : Int) + offset).toNat := by
  have hcases : whence = 0 ∨ whence = 1 ∨ whence = 2 := by omega
  rcases hcases with rfl | rfl | rfl
  · simp [seekTarget, seekStart]
  · simp [seekTarget, seekStart]
  · simp [seekTarget, seekStart, BytesIO.size]

theorem trySeek_fits {offset : Int} {whence : Nat} (hwhence : whence ≤ 2)
    (h : (isSsize offset && isSsize (f.seekStart buf whence + offset)) = true) :
    ∃ buf', buf'.bytes = buf.bytes ∧ f.trySeek buf offset whence =
      if whence = 0 ∧ offset < 0 then (.error .valueError, f, buf')
      else (.ok (f.seekStart buf whence + offset).toNat,
        { f with pos := ((f.seekStart buf whence : Int) + offset).toNat }, buf') := by
  obtain ⟨buf', hbytes, hseek⟩ := f.seek_spec buf offset whence
  refine ⟨buf', hbytes, ?_⟩
  unfold trySeek
  rw [if_pos h, hseek, f.seekTarget_eq buf hwhence]
  by_cases hneg : whence = 0 ∧ offset < 0
  · simp only [if_pos hneg, Option.getD_none]
  · simp only [if_neg hneg, Option.getD_some]

end FileObject

/-- A write at a cursor, with the zeros of the gap before it. -/
theorem SharedFile.store_bytes (a : SharedFile) (cursor : Nat) (data : List UInt8) :
    (a.store cursor data).bytes = writeAt a.bytes cursor data := by
  unfold SharedFile.store writeAt
  by_cases hdata : data = []
  · simp [hdata]
  · have hgap : (List.replicate (cursor - a.bytes.length) (0 : UInt8)).drop
        (cursor + data.length - a.bytes.length) = [] :=
      List.drop_eq_nil_iff.mpr (by rw [List.length_replicate]; omega)
    simp only [if_neg hdata, List.take_append, List.drop_append, hgap, List.append_nil, List.take_replicate, Nat.min_self]

/-- The file objects share one buffer, or there is one file object, without its buffer. -/
def FileHeap.HasBuffer (s : FileHeap) (buf : BytesIO) : Prop :=
  (s.buffers = [buf] ∧ ∀ f ∈ s.files, f.data = some 0) ∨
    (s.buffers = [] ∧ ∃ f, s.files = [f] ∧ f.data = none ∧ buf = ⟨f.config.getD [], 0⟩)

theorem FileHeap.HasBuffer.getBuffer_eq {s : FileHeap} {buf : BytesIO} (hs : s.HasBuffer buf)
    {h : Nat} {f : FileObject} (hf : s.files[h]? = some f) :
    s.getBuffer h f = (0, ⟨[buf], s.files.map FileObject.touch⟩) := by
  rcases hs with ⟨hbuffers, hdata⟩ | ⟨hbuffers, g, hfiles, hnone, hbuf⟩
  · have hmap : s.files.map FileObject.touch = s.files := by
      refine (List.map_congr_left fun g hg => ?_).trans (List.map_id _)
      have hd := hdata g hg
      cases g
      simp_all [FileObject.touch]
    unfold getBuffer
    rw [hdata f (List.mem_of_getElem? hf), hmap, ← hbuffers]
  · have h0 : h = 0 := by
      have hlt := (List.getElem?_eq_some_iff.mp hf).1
      simp only [hfiles, List.length_singleton] at hlt
      omega
    subst h0
    have hfg : g = f := by simpa [hfiles] using hf
    subst hfg
    unfold getBuffer
    rw [hnone]
    simp [hbuffers, hfiles, hbuf, FileHeap.setFile, FileObject.touch]

theorem FileHeap.HasBuffer.setAppend {s : FileHeap} {buf : BytesIO} (hs : s.HasBuffer buf)
    {h : Nat} {f : FileObject} (hf : s.files[h]? = some f) (append : Bool) :
    (s.setFile h { f with append := append }).HasBuffer buf := by
  rcases hs with ⟨hbuffers, hdata⟩ | ⟨hbuffers, g, hfiles, hnone, hbuf⟩
  · refine Or.inl ⟨hbuffers, fun g hg => ?_⟩
    rcases List.mem_or_eq_of_mem_set hg with hg | hg
    · exact hdata g hg
    · rw [hg]
      exact hdata f (List.mem_of_getElem? hf)
  · have h0 : h = 0 := by
      have hlt := (List.getElem?_eq_some_iff.mp hf).1
      simp only [hfiles, List.length_singleton] at hlt
      omega
    subst h0
    have hfg : g = f := by simpa [hfiles] using hf
    subst hfg
    exact Or.inr ⟨hbuffers, { g with append := append }, by simp [FileHeap.setFile, hfiles], hnone, hbuf⟩

/-- The file objects of a path and a shared array with a cursor for each of them. -/
structure Refines (s : OpenPath) (a : SharedFile) : Prop where
  handles : s.heap.files.map (fun f : FileObject => (f.pos, f.append)) = a.handles
  contents : ∀ h data heap, s.heap.getContents h = some (data, heap) → data = a.bytes
  written : ∀ f, s.heap.files[0]? = some f → f.bytesWritten = a.written

/-- All the file objects have, or will get, one buffer, and the others are duplicates of the first. -/
structure SharedInv (s : OpenPath) (a : SharedFile) : Prop where
  handles : ∀ h : Nat, (s.heap.files[h]?).map (fun f : FileObject => (f.pos, f.append)) = a.handles[h]?
  known : a.known = (decide (s.heap.files ≠ []) || s.config.isSome)
  origin : ∀ (h : Nat) f, s.heap.files[h]? = some f → f.origin = if h = 0 then none else some 0
  written : ∀ f, s.heap.files[0]? = some f → f.bytesWritten = a.written
  closed : s.heap.files = [] → a.bytes = s.config.getD [] ∧ a.written = 0
  buffer : s.heap.files ≠ [] → ∃ buf : BytesIO, buf.bytes = a.bytes ∧ s.heap.HasBuffer buf

/-- A file object after a method on handle `h`, which left `f'` and wrote `n` bytes. -/
def FileObject.after (h n : Nat) (f' : FileObject) (i : Nat) (g : FileObject) : FileObject :=
  if i = h then f'
  else if i = 0 then { g.touch with bytesWritten := g.bytesWritten + n } else g.touch

section After

variable {h n i : Nat} {f' g : FileObject}

@[simp] theorem FileObject.after_self : FileObject.after h n f' h g = f' := if_pos rfl

@[simp] theorem FileObject.after_first (h0 : 0 ≠ h) :
    FileObject.after h n f' 0 g = { g.touch with bytesWritten := g.bytesWritten + n } := by
  rw [after, if_neg h0, if_pos rfl]

@[simp] theorem FileObject.after_other (hih : i ≠ h) (hi0 : i ≠ 0) :
    FileObject.after h n f' i g = g.touch := by
  rw [after, if_neg hih, if_neg hi0]

theorem FileObject.after_data (hdata : f'.data = some 0) :
    (FileObject.after h n f' i g).data = some 0 := by
  unfold after
  split
  next => exact hdata
  next => split <;> rfl

/-- The other file objects keep their cursor, their mode and their origin. -/
theorem FileObject.after_frame (hih : i ≠ h) :
    (FileObject.after h n f' i g).pos = g.pos ∧ (FileObject.after h n f' i g).append = g.append ∧
      (FileObject.after h n f' i g).origin = g.origin := by
  unfold after
  rw [if_neg hih]
  split <;> exact ⟨rfl, rfl, rfl⟩

end After

/-- The heap after a method on a handle that wrote `n` bytes. -/
theorem FileHeap.countWritten_files {files : List FileObject} {h n : Nat} {f f' : FileObject}
    {buf : BytesIO} (horigin : ∀ (i : Nat) g, files[i]? = some g → g.origin = if i = 0 then none else some 0)
    (hf : files[h]? = some f) (hsame : f'.origin = f.origin) :
    (FileHeap.mk [buf] ((files.map FileObject.touch).set h f')).countWritten h n =
      ⟨[buf], files.mapIdx (FileObject.after h n f')⟩ := by
  obtain ⟨hlt, hfe⟩ := List.getElem?_eq_some_iff.mp hf
  have hread : ((files.map FileObject.touch).set h f')[h]? = some f' := by simp [hlt]
  have ho := (hsame.trans (horigin h f hf))
  unfold countWritten
  by_cases h0 : h = 0
  · rw [if_pos h0] at ho
    simp only [hread, Option.bind_some, ho]
    congr 1
    refine List.ext_getElem? fun i => ?_
    rw [List.getElem?_set, List.getElem?_mapIdx]
    by_cases hi : h = i
    · simp [← hi, hlt]
    · have hi0 : i ≠ 0 := by omega
      have hih : i ≠ h := Ne.symm hi
      cases hg : files[i]? <;> simp [hi, hi0, hih, hg]
  · rw [if_neg h0] at ho
    have hlt0 : 0 < files.length := by omega
    have hfirst : ((files.map FileObject.touch).set h f')[0]? = some files[0].touch := by
      simp [h0, hlt0]
    simp only [hread, Option.bind_some, ho, hfirst, setFile]
    congr 1
    refine List.ext_getElem? fun i => ?_
    rw [List.getElem?_set, List.getElem?_set, List.getElem?_mapIdx]
    by_cases hi0 : 0 = i
    · subst hi0
      simp [hlt0, Ne.symm h0, FileObject.touch]
    · have hi0' : i ≠ 0 := Ne.symm hi0
      by_cases hi : h = i
      · simp [← hi, hlt, Ne.symm h0]
      · have hih : i ≠ h := Ne.symm hi
        cases hg : files[i]? <;> simp [hi0, hi, hi0', hih, hg]

namespace SharedInv

variable {s : OpenPath} {a : SharedFile}

theorem withBuffer_eq {ρ : Type} (hs : SharedInv s a) {h : Nat} {f : FileObject}
    (hf : s.heap.files[h]? = some f) :
    ∃ buf : BytesIO, buf.bytes = a.bytes ∧
      ∀ method : FileObject → BytesIO → ρ × FileObject × BytesIO,
        s.heap.withBuffer h method = some ((method f.touch buf).1,
          ⟨[(method f.touch buf).2.2],
            (s.heap.files.map FileObject.touch).set h (method f.touch buf).2.1⟩) := by
  have hne : s.heap.files ≠ [] := by
    intro hnil
    simp [hnil] at hf
  obtain ⟨buf, hbytes, hbuf⟩ := hs.buffer hne
  refine ⟨buf, hbytes, fun method => ?_⟩
  unfold FileHeap.withBuffer
  rw [hf]
  simp only [hbuf.getBuffer_eq hf]
  rfl

/-- A method keeps the invariant when it changes the file and the bytes as the array says. -/
theorem set (hs : SharedInv s a) {h n : Nat} {f f' : FileObject} {buf : BytesIO} {a' : SharedFile}
    (hf : s.heap.files[h]? = some f) (hdata : f'.data = some 0) (hsame : f'.origin = f.origin)
    (hcount : f'.bytesWritten = f.bytesWritten + n) (hknown : a'.known = a.known)
    (hhandles : a'.handles = a.handles.set h (f'.pos, f'.append))
    (hwritten : a'.written = a.written + n) (hbytes : buf.bytes = a'.bytes) :
    SharedInv ⟨s.config, (FileHeap.mk [buf]
      ((s.heap.files.map FileObject.touch).set h f')).countWritten h n⟩ a' := by
  rw [FileHeap.countWritten_files hs.origin hf hsame]
  obtain ⟨hlt, hfe⟩ := List.getElem?_eq_some_iff.mp hf
  have hne : s.heap.files ≠ [] := by
    intro hnil
    simp [hnil] at hf
  constructor
  case handles =>
    intro i
    have hi := hs.handles i
    rw [hhandles, List.getElem?_set, List.getElem?_mapIdx, ← hi, Option.map_map]
    by_cases hih : h = i
    · have hlen : h < a.handles.length := by
        have hh := hs.handles h
        rw [hf] at hh
        exact (List.getElem?_eq_some_iff.mp hh.symm).1
      simp [← hih, hlt, hlen]
    · have hhi : i ≠ h := Ne.symm hih
      cases hg : s.heap.files[i]? with
      | none => simp [hih]
      | some g =>
        have hframe : (FileObject.after h n f' i g).pos = g.pos ∧
            (FileObject.after h n f' i g).append = g.append ∧
            (FileObject.after h n f' i g).origin = g.origin := FileObject.after_frame hhi
        simp [hih, hframe.1, hframe.2.1]
  case known =>
    rw [hknown, hs.known]
    simp [hne]
  case origin =>
    intro i g hg
    rw [List.getElem?_mapIdx, Option.map_eq_some_iff] at hg
    obtain ⟨g', hg', hgg⟩ := hg
    have ho := hs.origin i g' hg'
    by_cases hih : i = h
    · rw [← hgg, hih, FileObject.after_self, hsame, hs.origin h f hf]
    · rw [← hgg, (FileObject.after_frame hih).2.2, ho]
  case written =>
    intro g hg
    rw [List.getElem?_mapIdx, Option.map_eq_some_iff] at hg
    obtain ⟨g', hg', hgg⟩ := hg
    have hw := hs.written g' hg'
    by_cases hih : 0 = h
    · subst hih
      have hfg : f = g' := Option.some.inj (hf.symm.trans hg')
      rw [← hgg, FileObject.after_self, hcount, hwritten, hfg, hw]
    · rw [← hgg, FileObject.after_first hih, hwritten, ← hw]
  case closed =>
    intro hnil
    exact absurd (List.mapIdx_eq_nil_iff.mp hnil) hne
  case buffer =>
    intro _
    refine ⟨buf, hbytes, Or.inl ⟨rfl, fun g hg => ?_⟩⟩
    obtain ⟨i, hi⟩ := List.getElem?_of_mem hg
    rw [List.getElem?_mapIdx, Option.map_eq_some_iff] at hi
    obtain ⟨g', hg', hgg⟩ := hi
    rw [← hgg]
    exact FileObject.after_data hdata

theorem length_eq (hs : SharedInv s a) : s.heap.files.length = a.handles.length := by
  have hmap : s.heap.files.map (fun f : FileObject => (f.pos, f.append)) = a.handles :=
    List.ext_getElem? fun h => List.getElem?_map.trans (hs.handles h)
  rw [← hmap, List.length_map]

theorem setAppend (hs : SharedInv s a) {h : Nat} {f : FileObject} (hf : s.heap.files[h]? = some f)
    (append : Bool) :
    SharedInv ⟨s.config, s.heap.setFile h { f with append := append }⟩ (a.setHandle h f.pos append) := by
  have hlt := (List.getElem?_eq_some_iff.mp hf).1
  have hne : s.heap.files ≠ [] := by
    intro hnil
    simp [hnil] at hf
  have hne' : s.heap.files.set h { f with append := append } ≠ [] := by simpa using hne
  constructor
  case handles =>
    intro i
    have hi := hs.handles i
    show ((s.heap.files.set h _)[i]?).map _ = (a.handles.set h _)[i]?
    rw [List.getElem?_set, List.getElem?_set, ← hi, ← hs.length_eq]
    by_cases hih : h = i
    · simp [← hih, hlt]
    · simp [hih]
  case known =>
    show a.known = _
    rw [hs.known]
    simp [hne, FileHeap.setFile]
  case origin =>
    intro i g hg
    have hg' : (s.heap.files.set h { f with append := append })[i]? = some g := hg
    rw [List.getElem?_set] at hg'
    by_cases hih : h = i
    · rw [if_pos hih, if_pos hlt, Option.some.injEq] at hg'
      rw [← hg', ← hih]
      exact hs.origin h f hf
    · rw [if_neg hih] at hg'
      exact hs.origin i g hg'
  case written =>
    intro g hg
    have hg' : (s.heap.files.set h { f with append := append })[0]? = some g := hg
    rw [List.getElem?_set] at hg'
    by_cases hih : h = 0
    · rw [if_pos hih, if_pos hlt, Option.some.injEq] at hg'
      rw [hih] at hf
      rw [← hg']
      exact hs.written f hf
    · rw [if_neg hih] at hg'
      exact hs.written g hg'
  case closed => exact fun hnil => absurd hnil hne'
  case buffer =>
    intro _
    obtain ⟨buf, hbytes, hbuf⟩ := hs.buffer hne
    exact ⟨buf, hbytes, hbuf.setAppend hf append⟩

/-- A duplicate starts at the beginning of the shared bytes. -/
theorem duplicate (hs : SharedInv s a) {f : FileObject} (hf : s.heap.files[0]? = some f) :
    ∃ heap, s.heap.duplicate 0 = some heap ∧
      SharedInv ⟨s.config, heap⟩ { a with handles := a.handles ++ [(0, false)] } := by
  have hne : s.heap.files ≠ [] := by
    intro hnil
    simp [hnil] at hf
  obtain ⟨buf, hbytes, hbuf⟩ := hs.buffer hne
  have horigin : f.origin = none := hs.origin 0 f hf
  refine ⟨⟨[buf], s.heap.files.map FileObject.touch ++
    [{ FileObject.init f.config with data := some 0, origin := some 0 }]⟩, ?_, ?_⟩
  · unfold FileHeap.duplicate
    rw [hf]
    simp only [hbuf.getBuffer_eq hf, horigin, Option.getD_none]
  have hlast : ∀ {i : Nat} {g new : FileObject},
      (s.heap.files.map FileObject.touch ++ [new])[i]? = some g →
      (∃ g', s.heap.files[i]? = some g' ∧ g'.touch = g) ∨ (i ≠ 0 ∧ g = new) := by
    intro i g new hg
    rcases Nat.lt_trichotomy i s.heap.files.length with hi | hi | hi
    · rw [List.getElem?_append_left (by simpa using hi), List.getElem?_map] at hg
      exact Or.inl (Option.map_eq_some_iff.mp hg)
    · subst hi
      have hpos := List.length_pos_iff.mpr hne
      refine Or.inr ⟨by omega, ?_⟩
      simpa using hg.symm
    · rw [List.getElem?_eq_none (by simp; omega)] at hg
      cases hg
  constructor
  case handles =>
    intro i
    have hmap : s.heap.files.map (fun f : FileObject => (f.pos, f.append)) = a.handles :=
      List.ext_getElem? fun h => List.getElem?_map.trans (hs.handles h)
    rw [← hmap, ← List.getElem?_map]
    simp [FileObject.init, FileObject.touch, Function.comp_def]
  case known =>
    show a.known = _
    rw [hs.known]
    simp [hne]
  case origin =>
    intro i g hg
    rcases hlast hg with ⟨g', hg', htouch⟩ | ⟨hi0, hnew⟩
    · rw [← htouch]
      exact hs.origin i g' hg'
    · rw [if_neg hi0, hnew]
  case written =>
    intro g hg
    rcases hlast hg with ⟨g', hg', htouch⟩ | ⟨hi0, hnew⟩
    · rw [← htouch]
      exact hs.written g' hg'
    · exact absurd rfl hi0
  case closed => exact fun hnil => absurd hnil (by simp)
  case buffer =>
    intro _
    refine ⟨buf, hbytes, Or.inl ⟨rfl, fun g hg => ?_⟩⟩
    rcases List.mem_append.mp hg with hg | hg
    · obtain ⟨g', hg', htouch⟩ := List.mem_map.mp hg
      rw [← htouch]
      rfl
    · rw [List.mem_singleton.mp hg]

theorem fileOpen (hs : SharedInv s a) :
    s.fileOpen.1 = a.fileOpen.1 ∧ SharedInv s.fileOpen.2 a.fileOpen.2 := by
  cases hf : s.heap.files[0]? with
  | some f =>
    obtain ⟨heap, hdup, hinv⟩ := hs.duplicate hf
    have hknown : a.known = true := by
      have hne : s.heap.files ≠ [] := by
        intro hnil
        simp [hnil] at hf
      rw [hs.known]
      simp [hne]
    unfold OpenPath.fileOpen SharedFile.fileOpen
    rw [hdup, if_pos hknown]
    exact ⟨by rw [hs.length_eq], hinv⟩
  | none =>
    have hnil : s.heap.files = [] := by simpa using hf
    have hhandles : a.handles = [] := by
      rw [← List.length_eq_zero_iff, ← hs.length_eq, hnil, List.length_nil]
    have hclosed := hs.closed hnil
    have hdup : s.heap.duplicate 0 = none := by rw [FileHeap.duplicate, hf]
    unfold OpenPath.fileOpen SharedFile.fileOpen
    rw [hdup]
    cases hconfig : s.config with
    | none =>
      have hknown : ¬a.known = true := by simp [hs.known, hnil, hconfig]
      rw [if_neg hknown]
      exact ⟨rfl, hs⟩
    | some data =>
      have hknown : a.known = true := by simp [hs.known, hconfig]
      rw [if_pos hknown, hhandles]
      refine ⟨rfl, ?_⟩
      constructor
      case handles =>
        intro i
        cases i <;> simp [FileObject.init]
      case known => simp [hknown]
      case origin =>
        intro i g hg
        cases i with
        | zero =>
          have hg' : FileObject.init (some data) = g := by simpa using hg
          rw [← hg']
          rfl
        | succ i => simp at hg
      case written =>
        intro g hg
        have hg' : FileObject.init (some data) = g := by simpa using hg
        rw [← hg']
        exact hclosed.2.symm
      case closed => exact fun h => absurd h (by simp)
      case buffer =>
        intro _
        refine ⟨⟨data, 0⟩, ?_, Or.inr ⟨rfl, _, rfl, rfl, rfl⟩⟩
        show data = a.bytes
        rw [hclosed.1, hconfig, Option.getD_some]

end SharedInv

end Speakeasy
