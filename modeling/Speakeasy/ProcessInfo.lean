import Speakeasy.LoadedImage
import Speakeasy.CodeUnits
import Speakeasy.GuestStrings
import Speakeasy.GuestCallbacks

namespace Speakeasy

namespace ProcessInfo

/-- What the call reads of a process: its image name, its id and the ids of its threads. -/
structure Process where
  image : PyStr
  id : Nat
  threads : List Nat
deriving DecidableEq, Repr

/-- `SYSTEM_PROCESS_INFORMATION`, with the fields that the call sets. The others are zero. -/
def spiFields (arch : Arch) (next threads nameLength nameBuffer id : Nat) : List PackField :=
  [.int 4 next, .int 4 threads, .bytes 48 [], .int 2 nameLength, .int 2 nameLength,
    .bytes (arch.ptrSize - 4) [], .int (arch.ptrSize) nameBuffer, .bytes (arch.ptrSize) [],
    .int (arch.ptrSize) id, .bytes (match arch with | .x86 => 112 | .amd64 => 168) []]

def sizeofSpi : Arch → Nat
  | .x86 => 184
  | .amd64 => 256

/-- `SYSTEM_THREAD_INFORMATION`. -/
def stiFields (arch : Arch) (process thread : Nat) : List PackField :=
  [.bytes 24 [], .bytes (arch.ptrSize) [], .bytes (arch.ptrSize) [], .int (arch.ptrSize) process,
    .int (arch.ptrSize) thread, .bytes 24 []]

def sizeofSti : Arch → Nat
  | .x86 => 64
  | .amd64 => 80

/-- `(proc.image + "\x00").encode("utf-16le")`. -/
def imageName (p : Process) : List UInt8 := charBytes 2 (encodeUnits (p.image.map Char.toNat ++ [0]))

def threadRecords (arch : Arch) (p : Process) : List UInt8 :=
  p.threads.flatMap fun t => packFields (stiFields arch p.id t)

/-- The first loop: the size of the whole list. -/
def processListSize (arch : Arch) (procs : List Process) : Nat :=
  procs.foldl (fun size p => size + sizeofSpi arch + (imageName p).length + p.threads.length * sizeofSti arch) 0

/-- The data of one process at `bufPtr`. -/
def entryData (arch : Arch) (bufPtr : Nat) (last : Bool) (p : Process) : List UInt8 :=
  let nameOffset := sizeofSpi arch + p.threads.length * sizeofSti arch
  let relOffset := nameOffset + (imageName p).length
  let next := if last then 0 else relOffset
  packFields (spiFields arch next p.threads.length (imageName p).length (bufPtr + nameOffset) p.id) ++
    threadRecords arch p ++ imageName p

/-- The second loop: the writes, one for each process. -/
def processWrites (arch : Arch) : Nat → List Process → List (Nat × List UInt8)
  | _, [] => []
  | bufPtr, p :: ps =>
    let data := entryData arch bufPtr ps.isEmpty p
    (bufPtr, data) :: processWrites arch (bufPtr + data.length) ps

inductive Status
  | success
  | infoLengthMismatch
deriving DecidableEq, Repr

def writeReturnLength (m : ByteMemory) (returnLength size : Nat) : ByteMemory :=
  if returnLength ≠ 0 then m.writeBytes returnLength (toBytes 4 size) else m

/-- `ZwQuerySystemInformation` for `SystemProcessInformation`. -/
def querySystemInformation (arch : Arch) (procs : List Process) (m : ByteMemory)
    (systemInformation length returnLength : Nat) : Status × ByteMemory :=
  let size := processListSize arch procs
  if size ≤ length then
    (.success, writeReturnLength (m.writeAll (processWrites arch systemInformation procs)) returnLength size)
  else (.infoLengthMismatch, writeReturnLength m returnLength size)

/-- The number of bytes that the second loop writes. -/
def writtenBytes (arch : Arch) (buf : Nat) (procs : List Process) : Nat :=
  ((processWrites arch buf procs).map fun w => w.2.length).sum

/-- The bytes of an entry: its fields, its thread records and its name, in UTF-16 with a NUL. -/
def entrySize (arch : Arch) (p : Process) : Nat :=
  sizeofSpi arch + p.threads.length * sizeofSti arch + ByteMemory.textSize (p.image.map Char.toNat)

/-- The walk by `NextEntryOffset`, for at most `fuel` entries. -/
def walk (m : ByteMemory) : Nat → Nat → Option (List Nat)
  | 0, _ => none
  | fuel + 1, a =>
    let next := m.readInt a 4
    if next = 0 then some [a] else (walk m fuel (a + next)).map (a :: ·)

/-- The record of a thread names its process and the thread. -/
structure ThreadAt (arch : Arch) (m : ByteMemory) (a process thread : Nat) : Prop where
  processId : m.readInt (a + 24 + 2 * arch.ptrSize) arch.ptrSize = process % 256 ^ arch.ptrSize
  threadId : m.readInt (a + 24 + 3 * arch.ptrSize) arch.ptrSize = thread % 256 ^ arch.ptrSize

/-- The entry of a process at an address, in a buffer that ends at `limit`. The length of the name has 16 bits. -/
structure EntryAt (arch : Arch) (m : ByteMemory) (limit a : Nat) (p : Process) : Prop where
  inside : a + entrySize arch p ≤ limit
  threadCount : m.readInt (a + 4) 4 = p.threads.length
  processId : m.readInt (a + 56 + 3 * arch.ptrSize) (arch.ptrSize) = p.id % 256 ^ arch.ptrSize
  threads : ∀ i t, p.threads[i]? = some t → ThreadAt arch m (a + sizeofSpi arch + i * sizeofSti arch) p.id t
  nameLength : m.readInt (a + 56) 2 = ByteMemory.textSize (p.image.map Char.toNat) % 256 ^ 2
  nameMaximum : m.readInt (a + 58) 2 = ByteMemory.textSize (p.image.map Char.toNat) % 256 ^ 2
  nameBuffer : m.readInt (a + 56 + arch.ptrSize) (arch.ptrSize) =
    a + sizeofSpi arch + p.threads.length * sizeofSti arch
  name : m.HoldsText (a + sizeofSpi arch + p.threads.length * sizeofSti arch) (p.image.map Char.toNat)

/-- The call of the program: the length is 32 bits wide, the buffer lies in the address space, and the
return length lies outside the buffer. -/
structure Call (arch : Arch) (buf length returnLength : Nat) : Prop where
  length_lt : length < 2 ^ 32
  space : buf + length ≤ 256 ^ arch.ptrSize
  apart : returnLength = 0 ∨ returnLength + 4 ≤ buf ∨ buf + length ≤ returnLength

/-- What the caller gets. -/
structure QueryLaw (arch : Arch) (procs : List Process) (m : ByteMemory) (buf length returnLength : Nat)
    (status : Status) (m' : ByteMemory) : Prop where
  written : writtenBytes arch buf procs = (procs.map (entrySize arch)).sum
  succeeds : status = .success ↔ writtenBytes arch buf procs ≤ length
  lengthReturned : returnLength ≠ 0 → ∀ l < 2 ^ 32,
    (querySystemInformation arch procs m buf l returnLength).1 = .success →
      m'.readInt returnLength 4 = writtenBytes arch buf procs
  fails : status ≠ .success → ∀ x, buf ≤ x → x < buf + length → m' x = m x
  within : ∀ x, (x < returnLength ∨ returnLength + 4 ≤ x) → (x < buf ∨ buf + writtenBytes arch buf procs ≤ x) →
    m' x = m x
  entries : status = .success → procs ≠ [] → ∃ starts, walk m' procs.length buf = some starts ∧
    List.Forall₂ (EntryAt arch m' (buf + writtenBytes arch buf procs)) starts procs ∧
    (starts.zip procs).Pairwise fun e f => e.1 + entrySize arch e.2 ≤ f.1

section Sizes

variable {arch : Arch}

@[simp] theorem encode_bytes_length (width : Nat) (data : List UInt8) :
    (PackField.encode (.bytes width data)).length = width := by
  simp [PackField.encode]
  omega

@[simp] theorem encode_int_length (width value : Nat) :
    (PackField.encode (.int width value)).length = width := toBytes_length width value

theorem packFields_length (fields : List PackField) :
    (packFields fields).length = (fields.map fun f => f.encode.length).sum := by
  simp [packFields, List.length_flatMap]

theorem spi_length (next threads nameLength nameBuffer id : Nat) :
    (packFields (spiFields arch next threads nameLength nameBuffer id)).length = sizeofSpi arch := by
  cases arch <;> simp [packFields_length, spiFields, Arch.ptrSize, sizeofSpi]

theorem sti_length (process thread : Nat) :
    (packFields (stiFields arch process thread)).length = sizeofSti arch := by
  cases arch <;> simp [packFields_length, stiFields, Arch.ptrSize, sizeofSti]

theorem threadRecords_length (p : Process) :
    (threadRecords arch p).length = p.threads.length * sizeofSti arch := by
  simp [threadRecords, List.length_flatMap, sti_length]

theorem imageName_length (p : Process) : (imageName p).length = ByteMemory.textSize (p.image.map Char.toNat) :=
  ByteMemory.textSize_eq _

theorem entryData_length (bufPtr : Nat) (last : Bool) (p : Process) :
    (entryData arch bufPtr last p).length = entrySize arch p := by
  unfold entryData entrySize
  simp only [List.length_append, spi_length, threadRecords_length, imageName_length]

theorem entrySize_pos (arch : Arch) (p : Process) : 56 + 2 * arch.ptrSize + 4 ≤ entrySize arch p := by
  unfold entrySize
  cases arch <;> simp [sizeofSpi, Arch.ptrSize] <;> omega

/-- The two loops count the same bytes. -/
theorem processListSize_eq (procs : List Process) :
    processListSize arch procs = (procs.map (entrySize arch)).sum := by
  have hfold : ∀ size, procs.foldl (fun size p => size + sizeofSpi arch + (imageName p).length +
      p.threads.length * sizeofSti arch) size = size + (procs.map (entrySize arch)).sum := by
    induction procs with
    | nil => simp
    | cons p ps ih =>
      intro size
      rw [List.foldl_cons, ih, List.map_cons, List.sum_cons, entrySize, imageName_length]
      omega
  rw [processListSize, hfold, Nat.zero_add]

theorem writtenBytes_eq (buf : Nat) (procs : List Process) :
    writtenBytes arch buf procs = (procs.map (entrySize arch)).sum := by
  unfold writtenBytes
  induction procs generalizing buf with
  | nil => rfl
  | cons p ps ih =>
    rw [processWrites, List.map_cons, List.sum_cons, ih, entryData_length, List.map_cons, List.sum_cons]

end Sizes

section Layout

variable {arch : Arch}

/-- An integer field is read back up to its width. -/
theorem readInt_field (pre : List PackField) {m : ByteMemory} {a width value : Nat} {post : List PackField}
    (h : m.Holds a (packFields (pre ++ .int width value :: post))) :
    m.readInt (a + (packFields pre).length) width = value % 256 ^ width := by
  have hsplit : packFields (pre ++ .int width value :: post) =
      packFields pre ++ (toBytes width value ++ packFields post) := by
    rw [packFields_append]
    rfl
  rw [hsplit] at h
  exact h.of_append.2.of_append.1.readInt_eq

theorem processWrites_cons (buf : Nat) (p : Process) (ps : List Process) :
    processWrites arch buf (p :: ps) =
      (buf, entryData arch buf ps.isEmpty p) :: processWrites arch (buf + entrySize arch p) ps := by
  rw [processWrites, entryData_length]

theorem processWrites_bounds {buf : Nat} {procs : List Process} {w : Nat × List UInt8}
    (h : w ∈ processWrites arch buf procs) :
    buf ≤ w.1 ∧ w.1 + w.2.length ≤ buf + (procs.map (entrySize arch)).sum := by
  induction procs generalizing buf with
  | nil => cases h
  | cons p ps ih =>
    rw [List.map_cons, List.sum_cons]
    rcases List.mem_cons.mp h with heq | hin
    · rw [heq, entryData_length]
      omega
    · have hrest := ih hin
      rw [entryData_length] at hrest
      omega

theorem processWrites_pairwise (buf : Nat) (procs : List Process) :
    (processWrites arch buf procs).Pairwise fun v w => v.1 + v.2.length ≤ w.1 := by
  induction procs generalizing buf with
  | nil => exact List.Pairwise.nil
  | cons p ps ih => exact List.pairwise_cons.mpr ⟨fun w hw => (processWrites_bounds hw).1, ih _⟩

theorem spiFields_at {m : ByteMemory} {a next threads nameLength nameBuffer id : Nat}
    (h : m.Holds a (packFields (spiFields arch next threads nameLength nameBuffer id))) :
    m.readInt a 4 = next % 256 ^ 4 ∧ m.readInt (a + 4) 4 = threads % 256 ^ 4 ∧
      m.readInt (a + 56) 2 = nameLength % 256 ^ 2 ∧ m.readInt (a + 58) 2 = nameLength % 256 ^ 2 ∧
      m.readInt (a + 56 + arch.ptrSize) (arch.ptrSize) = nameBuffer % 256 ^ arch.ptrSize ∧
      m.readInt (a + 56 + 3 * arch.ptrSize) (arch.ptrSize) = id % 256 ^ arch.ptrSize := by
  have hnext := readInt_field [] h
  have hthreads := readInt_field [.int 4 next] h
  have hlength := readInt_field [.int 4 next, .int 4 threads, .bytes 48 []] h
  have hmaximum := readInt_field [.int 4 next, .int 4 threads, .bytes 48 [], .int 2 nameLength] h
  have hbuffer := readInt_field [.int 4 next, .int 4 threads, .bytes 48 [], .int 2 nameLength,
    .int 2 nameLength, .bytes (arch.ptrSize - 4) []] h
  have hid := readInt_field [.int 4 next, .int 4 threads, .bytes 48 [], .int 2 nameLength,
    .int 2 nameLength, .bytes (arch.ptrSize - 4) [], .int (arch.ptrSize) nameBuffer,
    .bytes (arch.ptrSize) []] h
  cases arch <;>
    simp only [packFields_length, Arch.ptrSize, List.map_cons, List.map_nil, List.sum_cons, List.sum_nil,
      encode_int_length, encode_bytes_length, Nat.reduceAdd, Nat.reduceSub, Nat.reduceMul, Nat.add_zero,
      Nat.add_assoc] at hnext hthreads hlength hmaximum hbuffer hid ⊢ <;>
    exact ⟨hnext, hthreads, hlength, hmaximum, hbuffer, hid⟩

theorem threadAt_of_holds {m : ByteMemory} {a process thread : Nat}
    (h : m.Holds a (packFields (stiFields arch process thread))) : ThreadAt arch m a process thread := by
  have hprocess := readInt_field [.bytes 24 [], .bytes (arch.ptrSize) [], .bytes (arch.ptrSize) []] h
  have hthread := readInt_field [.bytes 24 [], .bytes (arch.ptrSize) [], .bytes (arch.ptrSize) [],
    .int (arch.ptrSize) process] h
  cases arch <;>
    simp only [packFields_length, Arch.ptrSize, List.map_cons, List.map_nil, List.sum_cons, List.sum_nil,
      encode_int_length, encode_bytes_length, Nat.reduceAdd, Nat.add_zero] at hprocess hthread <;>
    exact ⟨hprocess, hthread⟩

/-- The records of the threads stand one behind the other. -/
theorem threads_of_holds {m : ByteMemory} {a process i t : Nat} {threads : List Nat}
    (h : m.Holds a (threads.flatMap fun t => packFields (stiFields arch process t))) (ht : threads[i]? = some t) :
    ThreadAt arch m (a + i * sizeofSti arch) process t := by
  induction threads generalizing a i with
  | nil => cases ht
  | cons t' threads ih =>
    obtain ⟨hfirst, hrest⟩ := ByteMemory.Holds.of_append h
    cases i with
    | zero =>
      cases ht
      rw [Nat.zero_mul]
      exact threadAt_of_holds hfirst
    | succ i =>
      rw [sti_length] at hrest
      have hnext := ih hrest ht
      rwa [Nat.add_assoc, ← Nat.add_comm (i * _), ← Nat.succ_mul] at hnext

/-- What the data of an entry holds, when it lies at its address below the limit. -/
theorem entryAt_of_holds {m : ByteMemory} {a limit : Nat} {last : Bool} {p : Process}
    (h : m.Holds a (entryData arch a last p)) (hinside : a + entrySize arch p ≤ limit)
    (hlimit : limit ≤ 256 ^ arch.ptrSize) (hsize : entrySize arch p < 2 ^ 32) :
    EntryAt arch m limit a p := by
  have hrecords : m.Holds a (packFields (spiFields arch (if last then 0 else sizeofSpi arch +
      p.threads.length * sizeofSti arch + (imageName p).length) p.threads.length (imageName p).length
      (a + (sizeofSpi arch + p.threads.length * sizeofSti arch)) p.id) ++ threadRecords arch p ++
      imageName p) := h
  obtain ⟨hfront, hname⟩ := hrecords.of_append
  obtain ⟨hspi, hthreads⟩ := hfront.of_append
  obtain ⟨-, hcount, hlength, hmaximum, hbuffer, hid⟩ := spiFields_at hspi
  rw [imageName_length] at hlength hmaximum
  rw [List.length_append, spi_length, threadRecords_length, ← Nat.add_assoc] at hname
  rw [spi_length] at hthreads
  have hcountLt : p.threads.length < 2 ^ 32 := by
    have hle : p.threads.length ≤ p.threads.length * sizeofSti arch :=
      Nat.le_mul_of_pos_right _ (by cases arch <;> decide)
    unfold entrySize at hsize
    omega
  have hbufferLt : a + (sizeofSpi arch + p.threads.length * sizeofSti arch) < 256 ^ arch.ptrSize := by
    unfold entrySize ByteMemory.textSize at hinside
    omega
  refine ⟨hinside, ?_, hid, fun i t ht => threads_of_holds hthreads ht, hlength, hmaximum, ?_,
    ByteMemory.holdsText_of_holds (fun _ => ByteMemory.toNat_lt_of_mem) hname⟩
  · rw [hcount, Nat.mod_eq_of_lt (by omega)]
  · rw [hbuffer, Nat.mod_eq_of_lt hbufferLt, Nat.add_assoc]

theorem entryData_next {m : ByteMemory} {a : Nat} {last : Bool} {p : Process}
    (h : m.Holds a (entryData arch a last p)) (hsize : entrySize arch p < 2 ^ 32) :
    m.readInt a 4 = if last then 0 else entrySize arch p := by
  have hnext := (spiFields_at h.of_append.1.of_append.1).1
  rw [hnext, imageName_length]
  cases last with
  | true => rfl
  | false => exact Nat.mod_eq_of_lt hsize

theorem sum_cons_lt {p : Process} {ps : List Process} {n : Nat}
    (h : ((p :: ps).map (entrySize arch)).sum < n) :
    entrySize arch p < n ∧ (ps.map (entrySize arch)).sum < n := by
  rw [List.map_cons, List.sum_cons] at h
  omega

/-- The induction is on the processes: the walk goes from each entry to the next one. -/
theorem walk_eq {m : ByteMemory} {buf : Nat} {procs : List Process} (hne : procs ≠ [])
    (h : ∀ w ∈ processWrites arch buf procs, m.Holds w.1 w.2)
    (hsize : (procs.map (entrySize arch)).sum < 2 ^ 32) :
    walk m procs.length buf = some ((processWrites arch buf procs).map Prod.fst) := by
  induction procs generalizing buf with
  | nil => exact absurd rfl hne
  | cons p ps ih =>
    obtain ⟨hp, hps⟩ := sum_cons_lt hsize
    have hfirst : m.Holds buf (entryData arch buf ps.isEmpty p) := h _ List.mem_cons_self
    have hnext := entryData_next hfirst hp
    rw [List.length_cons, walk, hnext]
    cases ps with
    | nil => rfl
    | cons q qs =>
      have hpos := entrySize_pos arch p
      have hne' : ¬entrySize arch p = 0 := by omega
      have hrest := @ih (buf + entrySize arch p) (List.cons_ne_nil q qs)
        (fun w hw => h w (List.mem_cons_of_mem _ (by rw [entryData_length]; exact hw))) hps
      simp only [List.isEmpty_cons, Bool.false_eq_true, if_false, hne', hrest, Option.map_some]
      rw [processWrites_cons buf p]
      rfl

theorem entries_eq {m : ByteMemory} {buf limit : Nat} {procs : List Process}
    (h : ∀ w ∈ processWrites arch buf procs, m.Holds w.1 w.2)
    (hsize : (procs.map (entrySize arch)).sum < 2 ^ 32)
    (hlimit : buf + (procs.map (entrySize arch)).sum ≤ limit) (hspace : limit ≤ 256 ^ arch.ptrSize) :
    List.Forall₂ (EntryAt arch m limit) ((processWrites arch buf procs).map Prod.fst) procs ∧
      (((processWrites arch buf procs).map Prod.fst).zip procs).Pairwise
        fun e f => e.1 + entrySize arch e.2 ≤ f.1 := by
  induction procs generalizing buf with
  | nil => exact ⟨List.Forall₂.nil, List.Pairwise.nil⟩
  | cons p ps ih =>
    obtain ⟨hp, hps⟩ := sum_cons_lt hsize
    rw [List.map_cons, List.sum_cons] at hlimit
    obtain ⟨hall, hapart⟩ := @ih (buf + (entryData arch buf ps.isEmpty p).length)
      (fun w hw => h w (List.mem_cons_of_mem _ hw)) hps (by rw [entryData_length]; omega)
    have hfirst := entryAt_of_holds (h _ List.mem_cons_self) (by simp only; omega) hspace hp
    refine ⟨List.Forall₂.cons hfirst hall, List.pairwise_cons.mpr ⟨?_, hapart⟩⟩
    rintro ⟨a, q⟩ hq
    obtain ⟨w, hw, rfl⟩ := List.mem_map.mp (List.of_mem_zip hq).1
    have hle := (processWrites_bounds hw).1
    rwa [entryData_length] at hle

end Layout

section Law

variable {arch : Arch} {procs : List Process} {m : ByteMemory} {buf length returnLength : Nat}

theorem writeReturnLength_outside {size x : Nat}
    (h : returnLength = 0 ∨ x < returnLength ∨ returnLength + 4 ≤ x) :
    writeReturnLength m returnLength size x = m x := by
  unfold writeReturnLength
  split
  next hne => exact ByteMemory.writeBytes_outside (by rw [toBytes_length]; exact h.resolve_left hne)
  next => rfl

theorem readInt_writeReturnLength (h : returnLength ≠ 0) (size : Nat) :
    (writeReturnLength m returnLength size).readInt returnLength 4 = size % 256 ^ 4 := by
  have hread := ByteMemory.readBytes_writeBytes_self m returnLength (toBytes 4 size)
  rw [toBytes_length] at hread
  rw [writeReturnLength, if_pos h, ByteMemory.readInt, hread, fromBytes_toBytes]

theorem query_status (arch : Arch) (procs : List Process) (m : ByteMemory) (buf length returnLength : Nat) :
    (querySystemInformation arch procs m buf length returnLength).1 = .success ↔
      (procs.map (entrySize arch)).sum ≤ length := by
  unfold querySystemInformation
  rw [processListSize_eq]
  simp only
  split
  next h => exact iff_of_true rfl h
  next h => exact iff_of_false (fun heq => by cases heq) h

theorem query_returnLength (hne : returnLength ≠ 0) :
    (querySystemInformation arch procs m buf length returnLength).2.readInt returnLength 4 =
      (procs.map (entrySize arch)).sum % 256 ^ 4 := by
  unfold querySystemInformation
  rw [processListSize_eq]
  simp only
  split
  next => exact readInt_writeReturnLength hne _
  next => exact readInt_writeReturnLength hne _

theorem query_within {x : Nat} (hout : x < returnLength ∨ returnLength + 4 ≤ x)
    (hx : x < buf ∨ buf + (procs.map (entrySize arch)).sum ≤ x) :
    (querySystemInformation arch procs m buf length returnLength).2 x = m x := by
  unfold querySystemInformation
  simp only
  split
  next =>
    refine (writeReturnLength_outside (Or.inr hout)).trans (ByteMemory.writeAll_outside fun w hw => ?_)
    have hbounds := processWrites_bounds hw
    omega
  next => exact writeReturnLength_outside (Or.inr hout)

theorem query_fails {x : Nat} (hout : returnLength = 0 ∨ x < returnLength ∨ returnLength + 4 ≤ x)
    (h : (querySystemInformation arch procs m buf length returnLength).1 ≠ .success) :
    (querySystemInformation arch procs m buf length returnLength).2 x = m x := by
  unfold querySystemInformation at h ⊢
  simp only at h ⊢
  split at h
  next => exact absurd rfl h
  next hlt =>
    rw [if_neg hlt]
    exact writeReturnLength_outside hout

/-- After a success, the writes of the loop lie in the buffer. -/
theorem query_holds (hcall : Call arch buf length returnLength)
    (h : (procs.map (entrySize arch)).sum ≤ length) {w : Nat × List UInt8}
    (hw : w ∈ processWrites arch buf procs) :
    (querySystemInformation arch procs m buf length returnLength).2.Holds w.1 w.2 := by
  have hapart : (processWrites arch buf procs).Pairwise
      fun v w => v.1 + v.2.length ≤ w.1 ∨ w.1 + w.2.length ≤ v.1 :=
    (processWrites_pairwise buf procs).imp Or.inl
  have hbounds := processWrites_bounds hw
  have hret := hcall.apart
  unfold querySystemInformation
  rw [processListSize_eq]
  simp only
  rw [if_pos h]
  have hloop : ByteMemory.Holds (m.writeAll (processWrites arch buf procs)) w.1 w.2 :=
    ByteMemory.holds_writeAll hapart hw
  exact hloop.congr fun x hle hlt => writeReturnLength_outside (by omega)

theorem query_law (arch : Arch) (procs : List Process) (m : ByteMemory) (buf length returnLength : Nat)
    (hcall : Call arch buf length returnLength) :
    QueryLaw arch procs m buf length returnLength
      (querySystemInformation arch procs m buf length returnLength).1
      (querySystemInformation arch procs m buf length returnLength).2 := by
  have hlen := hcall.length_lt
  have hret := hcall.apart
  constructor
  · exact writtenBytes_eq buf procs
  · rw [writtenBytes_eq]
    exact query_status arch procs m buf length returnLength
  · intro hne l hl hsuccess
    rw [query_status] at hsuccess
    rw [query_returnLength hne, writtenBytes_eq, Nat.mod_eq_of_lt (by omega)]
  · exact fun h x hle hlt => query_fails (by omega) h
  · intro x hout hx
    rw [writtenBytes_eq] at hx
    exact query_within hout hx
  · intro hsuccess hne
    rw [query_status] at hsuccess
    have hholds : ∀ w ∈ processWrites arch buf procs,
        (querySystemInformation arch procs m buf length returnLength).2.Holds w.1 w.2 :=
      fun w hw => query_holds hcall hsuccess hw
    have hspace := hcall.space
    rw [writtenBytes_eq]
    exact ⟨_, walk_eq hne hholds (by omega), entries_eq hholds (by omega) le_rfl (by omega)⟩

theorem query_law_system :
    Call .x86 0x2000 0x1000 0x1000 ∧
      QueryLaw .x86 [⟨"a.exe".toList, 8, [1, 2]⟩] (fun _ => 0) 0x2000 0x1000 0x1000
        (querySystemInformation .x86 [⟨"a.exe".toList, 8, [1, 2]⟩] (fun _ => 0) 0x2000 0x1000 0x1000).1
        (querySystemInformation .x86 [⟨"a.exe".toList, 8, [1, 2]⟩] (fun _ => 0) 0x2000 0x1000 0x1000).2 :=
  ⟨⟨by decide, by decide, by decide⟩, query_law .x86 [⟨"a.exe".toList, 8, [1, 2]⟩] (fun _ => 0)
    0x2000 0x1000 0x1000 ⟨by decide, by decide, by decide⟩⟩

end Law

end ProcessInfo

end Speakeasy
