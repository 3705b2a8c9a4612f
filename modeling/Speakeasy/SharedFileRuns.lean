import Speakeasy.SharedFileRefinement

namespace Speakeasy

namespace FileHeap

/-- Nothing counts for a method that does not write. -/
theorem countWritten_zero (s : FileHeap) (h : Nat) : s.countWritten h 0 = s := by
  unfold countWritten
  cases (s.files[h]?).bind FileObject.origin with
  | none => rfl
  | some o =>
    simp only
    cases hf : s.files[o]? with
    | none => rfl
    | some f =>
      have hset : s.files.set o f = s.files := by
        obtain ⟨hlt, hfe⟩ := List.getElem?_eq_some_iff.mp hf
        rw [← hfe, List.set_getElem_self]
      show FileHeap.mk s.buffers (s.files.set o f) = s
      rw [hset]

theorem withBuffer_none {ρ : Type} {s : FileHeap} {h : Nat} (hf : s.files[h]? = none)
    (method : FileObject → BytesIO → ρ × FileObject × BytesIO) : s.withBuffer h method = none := by
  unfold withBuffer
  rw [hf]

end FileHeap

/-- A call on a handle that the path does not have does nothing. -/
theorem OpenPath.step_noHandle {s : OpenPath} {op : FileCall} {h : Nat} (hop : op.target = some h)
    (hf : s.heap.files[h]? = none) : s.step op = (.noHandle, s) := by
  cases op with
  | fileOpen => cases hop
  | setAppend h' append =>
    cases Option.some.inj hop
    simp [OpenPath.step, FileHeap.setAppend, hf]
  | getData h' size reset =>
    cases Option.some.inj hop
    simp [OpenPath.step, FileHeap.getData, FileHeap.withBuffer_none hf]
  | getContents h' =>
    cases Option.some.inj hop
    simp [OpenPath.step, FileHeap.getContents, FileHeap.withBuffer_none hf]
  | seek h' offset whence =>
    cases Option.some.inj hop
    have hnone : s.heap.seek h offset whence = none := by
      unfold FileHeap.seek
      rw [hf, FileHeap.withBuffer_none hf]
      split <;> rfl
    simp [OpenPath.step, hnone]
  | addData h' data =>
    cases Option.some.inj hop
    simp [OpenPath.step, FileHeap.addData, FileHeap.withBuffer_none hf]
  | writeData h' data =>
    cases Option.some.inj hop
    simp [OpenPath.step, FileHeap.writeData, FileHeap.withBuffer_none hf]

namespace SharedInv

variable {s : OpenPath} {a : SharedFile}

theorem start (first : FileStart) : SharedInv (OpenPath.start first) (SharedFile.start first) := by
  cases first with
  | config data =>
    constructor
    case handles => exact fun h => rfl
    case known => simp [OpenPath.start, SharedFile.start]
    case origin => exact fun h f hf => by simp [OpenPath.start] at hf
    case written => exact fun f hf => by simp [OpenPath.start] at hf
    case closed => exact fun _ => ⟨rfl, rfl⟩
    case buffer => exact fun h => absurd rfl h
  | existing data =>
    have hfile : ∃ f, (OpenPath.start (.existing data)).heap.files = [f] ∧ f.pos = 0 ∧
        f.append = false ∧ f.origin = none ∧ f.bytesWritten = 0 := by
      unfold OpenPath.start
      by_cases hdata : data = []
      · simp [hdata, FileObject.init]
      · simp [hdata, FileObject.init]
    obtain ⟨f, hfiles, hpos, happend, horigin, hwritten⟩ := hfile
    constructor
    case handles =>
      intro h
      rw [hfiles]
      cases h <;> simp [SharedFile.start, hpos, happend]
    case known => simp [SharedFile.start, hfiles]
    case origin =>
      intro h g hg
      rw [hfiles] at hg
      cases h with
      | zero =>
        cases Option.some.inj hg
        exact horigin
      | succ h => simp at hg
    case written =>
      intro g hg
      rw [hfiles] at hg
      cases Option.some.inj hg
      exact hwritten
    case closed =>
      intro hnil
      rw [hfiles] at hnil
      cases hnil
    case buffer =>
      intro _
      refine ⟨⟨data, 0⟩, rfl, ?_⟩
      unfold OpenPath.start
      by_cases hdata : data = []
      · exact Or.inr ⟨by simp [hdata], FileObject.init none, by simp [hdata], rfl, by simp [hdata, FileObject.init]⟩
      · exact Or.inl ⟨by simp [hdata], by simp [hdata]⟩

theorem set_self (hs : SharedInv s a) {h : Nat} {f : FileObject} (hf : s.heap.files[h]? = some f) :
    a.handles.set h (f.pos, f.append) = a.handles := by
  have hh := hs.handles h
  rw [hf] at hh
  obtain ⟨hlt, hfe⟩ := List.getElem?_eq_some_iff.mp hh.symm
  have hread : (f.pos, f.append) = a.handles[h] := hfe.symm
  rw [hread, List.set_getElem_self]

theorem getData_step (hs : SharedInv s a) {h : Nat} {f : FileObject} (hf : s.heap.files[h]? = some f)
    (size : Int) (reset : Bool) :
    (s.step (.getData h size reset)).1 = (a.handleStep isSsize f.pos f.append (.getData h size reset)).1 ∧
      SharedInv (s.step (.getData h size reset)).2
        (a.handleStep isSsize f.pos f.append (.getData h size reset)).2 := by
  obtain ⟨buf, hbytes, hrun⟩ := hs.withBuffer_eq hf
  have hheap := hrun fun f buf => f.tryGetData buf size reset
  have hpos : f.touch.pos = f.pos := rfl
  by_cases hend : f.pos = a.bytes.length ∧ (!reset) = true
  · have hreset : reset = false := by simpa using hend.2
    obtain ⟨buf', hget, hbytes'⟩ := @FileObject.tryGetData_end f.touch buf size (by rw [hpos, hend.1, hbytes])
    rw [hreset, hget] at hheap
    rw [hreset] at hend
    simp only [OpenPath.step, FileHeap.getData, hreset, hheap, SharedFile.handleStep, if_pos hend]
    refine ⟨trivial, ?_⟩
    rw [← FileHeap.countWritten_zero ⟨[buf'], _⟩ h]
    exact hs.set hf rfl rfl rfl rfl (hs.set_self hf).symm rfl (hbytes'.trans hbytes)
  · cases hsize : isSsize size with
    | true =>
      obtain ⟨buf', hget, hbytes'⟩ := f.touch.tryGetData_fits buf hsize reset
      rw [hget, hbytes, hpos] at hheap
      simp only [OpenPath.step, FileHeap.getData, hheap, SharedFile.handleStep, if_neg hend, hsize, if_true]
      refine ⟨rfl, ?_⟩
      rw [← FileHeap.countWritten_zero ⟨[buf'], _⟩ h]
      exact hs.set hf rfl rfl rfl rfl rfl rfl (hbytes'.trans hbytes)
    | false =>
      have hend' : ¬(f.touch.pos = buf.bytes.length ∧ reset = false) := by
        rw [hpos, hbytes]
        exact fun h => hend ⟨h.1, by rw [h.2]; rfl⟩
      obtain ⟨buf', hget, hbytes'⟩ := f.touch.tryGetData_overflow buf hsize hend'
      rw [hget, hbytes, hpos] at hheap
      simp only [OpenPath.step, FileHeap.getData, hheap, SharedFile.handleStep, if_neg hend, hsize,
        Bool.false_eq_true, if_false]
      refine ⟨trivial, ?_⟩
      rw [← FileHeap.countWritten_zero ⟨[buf'], _⟩ h]
      exact hs.set hf rfl rfl rfl rfl rfl rfl (hbytes'.trans hbytes)

theorem seek_step (hs : SharedInv s a) {h : Nat} {f : FileObject} (hf : s.heap.files[h]? = some f)
    (offset : Int) (whence : Nat) :
    (s.step (.seek h offset whence)).1 = (a.handleStep isSsize f.pos f.append (.seek h offset whence)).1 ∧
      SharedInv (s.step (.seek h offset whence)).2
        (a.handleStep isSsize f.pos f.append (.seek h offset whence)).2 := by
  by_cases hwhence : 2 < whence
  · simp only [OpenPath.step, FileHeap.seek, if_pos hwhence, hf, Option.map_some, SharedFile.handleStep]
    exact ⟨trivial, hs⟩
  · obtain ⟨buf, hbytes, hrun⟩ := hs.withBuffer_eq hf
    have hheap := hrun fun f buf => f.trySeek buf offset whence
    have hstart : (if whence = 0 then 0 else if whence = 1 then f.pos else a.bytes.length) =
        f.touch.seekStart buf whence := by
      rw [← hbytes]
      rcases whence with _ | _ | whence
      · rfl
      · rfl
      · rfl
    simp only [OpenPath.step, FileHeap.seek, if_neg hwhence, SharedFile.handleStep, hstart]
    by_cases hfits : (isSsize offset && isSsize (f.touch.seekStart buf whence + offset)) = true
    · have hguard : ¬(!isSsize offset || !isSsize (f.touch.seekStart buf whence + offset)) = true := by
        rw [← Bool.not_and, hfits]
        decide
      obtain ⟨buf', hbytes', hseek⟩ := f.touch.trySeek_fits buf (Nat.le_of_not_lt hwhence) hfits
      rw [hseek] at hheap
      rw [if_neg hguard]
      by_cases hneg : whence = 0 ∧ offset < 0
      · rw [if_pos hneg] at hheap
        simp only [hheap, if_pos hneg]
        rw [← FileHeap.countWritten_zero ⟨[buf'], _⟩ h]
        exact ⟨trivial, hs.set hf rfl rfl rfl rfl (hs.set_self hf).symm rfl (hbytes'.trans hbytes)⟩
      · rw [if_neg hneg] at hheap
        simp only [hheap, if_neg hneg]
        rw [← FileHeap.countWritten_zero ⟨[buf'], _⟩ h]
        exact ⟨trivial, hs.set hf rfl rfl rfl rfl rfl rfl (hbytes'.trans hbytes)⟩
    · have hguard : (!isSsize offset || !isSsize (f.touch.seekStart buf whence + offset)) = true := by
        rw [← Bool.not_and, eq_false_of_ne_true hfits]
        rfl
      obtain ⟨buf', hseek, hbytes'⟩ := f.touch.trySeek_overflow buf hfits
      rw [hseek] at hheap
      rw [if_pos hguard]
      simp only [hheap]
      rw [← FileHeap.countWritten_zero ⟨[buf'], _⟩ h]
      exact ⟨trivial, hs.set hf rfl rfl rfl rfl (hs.set_self hf).symm rfl (hbytes'.trans hbytes)⟩

theorem addData_step (hs : SharedInv s a) {h : Nat} {f : FileObject} (hf : s.heap.files[h]? = some f)
    (data : List UInt8) :
    (s.step (.addData h data)).1 = (a.handleStep isSsize f.pos f.append (.addData h data)).1 ∧
      SharedInv (s.step (.addData h data)).2
        (a.handleStep isSsize f.pos f.append (.addData h data)).2 := by
  obtain ⟨buf, hbytes, hrun⟩ := hs.withBuffer_eq hf
  have hheap := hrun fun f buf => f.tryAddData buf data
  simp only [OpenPath.step, FileHeap.addData, hheap, Option.map_some, SharedFile.handleStep]
  by_cases hfits : (decide (data = []) || isSsize (a.bytes.length + data.length : Nat)) = true
  · have htry : f.touch.tryAddData buf data = (.ok (), f.touch.addData buf data) := by
      refine if_pos ?_
      rw [ BytesIO.size, hbytes]
      exact hfits
    have hguard : ¬(data ≠ [] ∧ (!isSsize (a.bytes.length + data.length : Nat)) = true) := by
      simpa [or_iff_not_imp_left] using hfits
    simp only [htry, if_neg hguard, FileHeap.counted]
    refine ⟨trivial, hs.set hf rfl rfl rfl rfl (hs.set_self hf).symm rfl ?_⟩
    rw [FileObject.addData_bytes, hbytes, SharedFile.store_bytes, writeAt_end]
  · have htry : f.touch.tryAddData buf data = (.error .overflowError, f.touch, buf.seekEnd) := by
      refine if_neg ?_
      rw [ BytesIO.size, hbytes]
      exact hfits
    have hguard : data ≠ [] ∧ (!isSsize (a.bytes.length + data.length : Nat)) = true := by simpa using hfits
    simp only [htry, if_pos hguard, FileHeap.counted]
    rw [← FileHeap.countWritten_zero ⟨[buf.seekEnd], _⟩ h]
    exact ⟨trivial, hs.set hf rfl rfl rfl rfl (hs.set_self hf).symm rfl hbytes⟩

theorem writeData_step (hs : SharedInv s a) {h : Nat} {f : FileObject} (hf : s.heap.files[h]? = some f)
    (data : List UInt8) :
    (s.step (.writeData h data)).1 = (a.handleStep isSsize f.pos f.append (.writeData h data)).1 ∧
      SharedInv (s.step (.writeData h data)).2
        (a.handleStep isSsize f.pos f.append (.writeData h data)).2 := by
  obtain ⟨buf, hbytes, hrun⟩ := hs.withBuffer_eq hf
  have hheap := hrun fun f buf => f.tryWriteData buf data
  simp only [OpenPath.step, FileHeap.writeData, hheap, Option.map_some, SharedFile.handleStep]
  have hcursor : (if f.touch.append then buf.size else f.touch.pos) =
      if f.append then a.bytes.length else f.pos := by
    rw [ BytesIO.size, hbytes]
    rfl
  by_cases hfits : (decide (data = []) ||
      isSsize ((if f.append then a.bytes.length else f.pos) + data.length : Nat)) = true
  · have htry : f.touch.tryWriteData buf data = (.ok (), f.touch.writeData buf data) := by
      refine if_pos ?_
      rw [hcursor]
      exact hfits
    have hguard : ¬(data ≠ [] ∧
        (!isSsize ((if f.append then a.bytes.length else f.pos) + data.length : Nat)) = true) := by
      simpa [or_iff_not_imp_left] using hfits
    simp only [htry, if_neg hguard, FileHeap.counted]
    refine ⟨trivial, hs.set hf rfl rfl rfl rfl ?_ rfl ?_⟩
    · show a.handles.set h ((if f.append then a.bytes.length else f.pos) + data.length, f.append) =
        a.handles.set h ((if f.touch.append then buf.size else f.touch.pos) + data.length, f.append)
      rw [hcursor]
    · rw [SharedFile.store_bytes]
      show writeAt buf.bytes (if f.touch.append then buf.size else f.touch.pos) data =
        writeAt a.bytes (if f.append then a.bytes.length else f.pos) data
      rw [hcursor, hbytes]
  · have htry : f.touch.tryWriteData buf data =
        (.error .overflowError, { f.touch with pos := if f.append then a.bytes.length else f.pos },
          buf.seekTo (if f.append then a.bytes.length else f.pos)) := by
      unfold FileObject.tryWriteData
      simp only [hcursor]
      exact if_neg hfits
    have hguard : data ≠ [] ∧
        (!isSsize ((if f.append then a.bytes.length else f.pos) + data.length : Nat)) = true := by
      simpa using hfits
    simp only [htry, if_pos hguard, FileHeap.counted]
    rw [← FileHeap.countWritten_zero ⟨[buf.seekTo _], _⟩ h]
    exact ⟨trivial, hs.set hf rfl rfl rfl rfl rfl rfl hbytes⟩

/-- A call on a handle acts on the shared array at the cursor of that handle. -/
theorem handleStep (hs : SharedInv s a) {op : FileCall} {h : Nat} {f : FileObject}
    (hop : op.target = some h) (hf : s.heap.files[h]? = some f) :
    (s.step op).1 = (a.handleStep isSsize f.pos f.append op).1 ∧
      SharedInv (s.step op).2 (a.handleStep isSsize f.pos f.append op).2 := by
  cases op with
  | fileOpen => cases hop
  | setAppend h' append =>
    cases Option.some.inj hop
    simp only [OpenPath.step, FileHeap.setAppend, hf, Option.map_some]
    exact ⟨rfl, hs.setAppend hf append⟩
  | getData h' size reset =>
    cases Option.some.inj hop
    exact hs.getData_step hf size reset
  | getContents h' =>
    cases Option.some.inj hop
    obtain ⟨buf, hbytes, hrun⟩ := hs.withBuffer_eq hf
    have hheap := hrun fun f buf => (buf.bytes, f, buf)
    simp only [OpenPath.step, FileHeap.getContents, hheap]
    refine ⟨by rw [hbytes]; rfl, ?_⟩
    rw [← FileHeap.countWritten_zero ⟨[buf], _⟩ h]
    exact hs.set hf rfl rfl rfl rfl (hs.set_self hf).symm rfl hbytes
  | seek h' offset whence =>
    cases Option.some.inj hop
    exact hs.seek_step hf offset whence
  | addData h' data =>
    cases Option.some.inj hop
    exact hs.addData_step hf data
  | writeData h' data =>
    cases Option.some.inj hop
    exact hs.writeData_step hf data

/-- Every call has the result that the shared array says, and keeps the two in step. -/
theorem step (hs : SharedInv s a) (op : FileCall) :
    (s.step op).1 = (a.step isSsize op).1 ∧ SharedInv (s.step op).2 (a.step isSsize op).2 := by
  cases hop : op.target with
  | none =>
    have hopen : op = .fileOpen := by cases op <;> simp_all [FileCall.target]
    subst hopen
    exact hs.fileOpen
  | some h =>
    have hh := hs.handles h
    cases hf : s.heap.files[h]? with
    | none =>
      rw [hf] at hh
      have hstep : a.step isSsize op = (.noHandle, a) := by
        unfold SharedFile.step
        rw [hop]
        simp only [← hh, Option.map_none]
      rw [OpenPath.step_noHandle hop hf, hstep]
      exact ⟨rfl, hs⟩
    | some f =>
      rw [hf] at hh
      have hstep : a.step isSsize op = a.handleStep isSsize f.pos f.append op := by
        unfold SharedFile.step
        rw [hop]
        simp only [← hh, Option.map_some]
      rw [hstep]
      exact hs.handleStep hop hf

theorem run (hs : SharedInv s a) (ops : List FileCall) :
    (runResults OpenPath.step s ops).1 = (runResults (SharedFile.step isSsize) a ops).1 ∧
      SharedInv (runResults OpenPath.step s ops).2 (runResults (SharedFile.step isSsize) a ops).2 := by
  induction ops generalizing s a with
  | nil => exact ⟨rfl, hs⟩
  | cons op ops ih =>
    obtain ⟨hresult, hnext⟩ := hs.step op
    obtain ⟨hresults, hlast⟩ := ih hnext
    refine ⟨?_, hlast⟩
    show (s.step op).1 :: (runResults OpenPath.step (s.step op).2 ops).1 =
      (a.step isSsize op).1 :: (runResults (SharedFile.step isSsize) (a.step isSsize op).2 ops).1
    rw [hresult, hresults]

theorem refines (hs : SharedInv s a) : Refines s a where
  handles := List.ext_getElem? fun h => List.getElem?_map.trans (hs.handles h)
  contents := by
    intro h data heap hget
    cases hf : s.heap.files[h]? with
    | none => simp [FileHeap.getContents, FileHeap.withBuffer_none hf] at hget
    | some f =>
      obtain ⟨buf, hbytes, hrun⟩ := hs.withBuffer_eq hf
      unfold FileHeap.getContents at hget
      rw [hrun, Option.some.injEq, Prod.mk.injEq] at hget
      rw [← hget.1]
      exact hbytes
  written := hs.written

end SharedInv

/-- A call on one handle does not move the cursor of another one. -/
theorem SharedFile.step_frame (fits : Int → Bool) (a : SharedFile) {op : FileCall} {h : Nat}
    (hop : op.target ≠ some h) {cursor : Nat × Bool} (hh : a.handles[h]? = some cursor) :
    (a.step fits op).2.handles[h]? = some cursor := by
  have hset : ∀ (k c : Nat) (append : Bool), op.target = some k →
      (a.handles.set k (c, append))[h]? = some cursor := by
    intro k c append hk
    have hkh : k ≠ h := fun heq => hop (heq ▸ hk)
    rw [List.getElem?_set_ne hkh, hh]
  unfold SharedFile.step
  cases htarget : op.target with
  | none =>
    show a.fileOpen.2.handles[h]? = some cursor
    unfold SharedFile.fileOpen
    split
    next => exact (List.getElem?_append_left (List.getElem?_eq_some_iff.mp hh).1).trans hh
    next => exact hh
  | some k =>
    cases hk : a.handles[k]? with
    | none => simpa [hk] using hh
    | some handle =>
      simp only [hk]
      cases op with
      | fileOpen => exact hh
      | setAppend h' flag => exact hset h' _ _ rfl
      | getData h' size reset =>
        simp only [SharedFile.handleStep]
        split
        next => exact hh
        next =>
          split
          next => exact hset h' _ _ rfl
          next => exact hset h' _ _ rfl
      | getContents h' => exact hh
      | seek h' offset whence =>
        simp only [SharedFile.handleStep]
        generalize (if whence = 0 then 0 else if whence = 1 then handle.1 else a.bytes.length) = start
        split
        next => exact hh
        next =>
          split
          next => exact hh
          next =>
            split
            next => exact hh
            next => exact hset h' _ _ rfl
      | addData h' data =>
        simp only [SharedFile.handleStep]
        split
        next => exact hh
        next => exact hh
      | writeData h' data =>
        simp only [SharedFile.handleStep]
        generalize (if handle.2 = true then a.bytes.length else handle.1) = start
        split
        next => exact hset h' _ _ rfl
        next => exact hset h' _ _ rfl

/-- After some calls, the results are those of one shared array with a cursor for each handle, and the next
call moves no cursor of another handle. -/
structure RefinesAfter (fits : Int → Bool) (first : FileStart) (ops : List FileCall) : Prop where
  results : (runResults OpenPath.step (OpenPath.start first) ops).1 =
    (runResults (SharedFile.step fits) (SharedFile.start first) ops).1
  state : Refines (runResults OpenPath.step (OpenPath.start first) ops).2
    (runResults (SharedFile.step fits) (SharedFile.start first) ops).2
  frame : ∀ op h, op.target ≠ some h →
    ∀ cursor, (runResults (SharedFile.step fits) (SharedFile.start first) ops).2.handles[h]? = some cursor →
      ((runResults OpenPath.step (OpenPath.start first) (ops ++ [op])).2.heap.files[h]?).map
        (fun f => (f.pos, f.append)) = some cursor

/-- The calls on the handles of a path are calls on a shared array whose positions are those of `io.BytesIO`. -/
theorem openPath_refines (first : FileStart) (ops : List FileCall) : RefinesAfter isSsize first ops := by
  obtain ⟨hresults, hinv⟩ := (SharedInv.start first).run ops
  refine ⟨hresults, hinv.refines, fun op h hop cursor hcursor => ?_⟩
  rw [runResults_append]
  exact ((hinv.step op).2.handles h).trans (SharedFile.step_frame isSsize _ hop hcursor)

/-- A write at the last position of `io.BytesIO` fails. -/
theorem openPath_not_refines : ¬∀ first ops, RefinesAfter (fun _ => true) first ops := by
  intro h
  have hresults := (h (.existing []) [.seek 0 0x7FFFFFFFFFFFFFFF 0, .writeData 0 [1]]).results
  exact absurd hresults (by decide)

end Speakeasy
