import Speakeasy.GdbFrames

namespace Speakeasy

open PyBytes

/-- The documents that the server writes anew for each packet. -/
structure XferDocuments where
  targetXml : Packet
  libraryXml : Packet
  executablePath : Packet
  memoryMapXml : Packet

def threadsXml : Packet := rsp "<threads><thread id=\"1\" name=\"main\"/></threads>"

def xferDocument (docs : XferDocuments) (objectName annex : Packet) : Option Packet :=
  if objectName = rsp "features" ∧ annex = rsp "target.xml" then some docs.targetXml
  else if objectName = rsp "libraries" ∧ annex = [] then some docs.libraryXml
  else if objectName = rsp "exec-file" then some docs.executablePath
  else if objectName = rsp "threads" ∧ annex = [] then some threadsXml
  else if objectName = rsp "memory-map" ∧ annex = [] then some docs.memoryMapXml
  else none

/-- The answer at an offset of a document, with its marker. -/
def xferChunk (data : Packet) (offset requested : Nat) : Packet :=
  if offset ≥ data.length then rsp "l"
  else
    let chunk := (data.drop offset).take (min requested ((gdbPacketSize - 1) / 2))
    (if offset + chunk.length ≥ data.length then rsp "l" else rsp "m") ++ chunk

/-- `_handle_xfer` -/
def handleXfer (docs : XferDocuments) (payload : Packet) : Option Packet :=
  if ¬rsp "qXfer:" <+: payload then some (rsp "E01")
  else
    match split 0x3A 3 (payload.drop 6) with
    | [objectName, operation, annex, position] =>
      if operation ≠ rsp "read" then none
      else
        match split 0x2C 1 position with
        | [offsetText, lengthText] =>
          match intHex offsetText, intHex lengthText with
          | some offset, some requested =>
            if offset < 0 ∨ requested ≤ 0 then some (rsp "E01")
            else
              (xferDocument docs objectName annex).map fun data =>
                xferChunk data offset.toNat requested.toNat
          | _, _ => some (rsp "E01")
        | _ => some (rsp "E01")
    | _ => some (rsp "E01")

def xferRequest (objectName annex : Packet) (offset requested : Nat) : Packet :=
  rsp "qXfer:" ++ (objectName ++ 0x3A :: (rsp "read" ++ 0x3A :: (annex ++ 0x3A ::
    (hexText offset ++ 0x2C :: hexText requested))))

/-- A client that reads a document from its start. It asks for `lengths k` bytes in request `k`, and does
not end within `fuel` requests when the result is `none`. -/
def readDocument (server : Packet → List Packet) (objectName annex : Packet) (lengths : Nat → Nat) :
    Nat → Nat → Packet → Option Packet
  | 0, _, _ => none
  | fuel + 1, k, received =>
    match server (xferRequest objectName annex received.length (lengths k)) with
    | [reply] =>
      match rspUnescape reply with
      | 0x6C :: chunk => some (received ++ chunk)
      | 0x6D :: chunk => readDocument server objectName annex lengths fuel (k + 1) (received ++ chunk)
      | _ => none
    | _ => none

theorem hexText_not_mem {b : UInt8} (h : b = 0x3A ∨ b = 0x2C) (n : Nat) : b ∉ hexText n := by
  intro hmem
  have hrange := hexText_range hmem
  grind

theorem xferDocument_name {docs : XferDocuments} {objectName annex data : Packet}
    (h : xferDocument docs objectName annex = some data) : 0x3A ∉ objectName := by
  unfold xferDocument at h
  split at h
  next hname => rw [hname.1]; decide
  split at h
  next hname => rw [hname.1]; decide
  split at h
  next hname => rw [hname]; decide
  split at h
  next hname => rw [hname.1]; decide
  split at h
  next hname => rw [hname.1]; decide
  cases h

/-- A request of the client is read as it is meant. -/
theorem handleXfer_request {docs : XferDocuments} {objectName annex data : Packet}
    (hdoc : xferDocument docs objectName annex = some data) (hannex : 0x3A ∉ annex) (offset : Nat)
    {requested : Nat} (hpos : 0 < requested) :
    handleXfer docs (xferRequest objectName annex offset requested) =
      some (xferChunk data offset requested) := by
  have hsix : (rsp "qXfer:").length = 6 := by decide
  have hread : 0x3A ∉ rsp "read" := by decide
  have hfour : split 0x3A 3 ((xferRequest objectName annex offset requested).drop 6) =
      [objectName, rsp "read", annex, hexText offset ++ 0x2C :: hexText requested] := by
    rw [xferRequest, ← hsix, List.drop_left, split_cons (xferDocument_name hdoc), split_cons hread,
      split_cons hannex]
    rfl
  have htwo : split 0x2C 1 (hexText offset ++ 0x2C :: hexText requested) =
      [hexText offset, hexText requested] := by
    rw [split_cons (hexText_not_mem (Or.inr rfl) offset)]
    rfl
  have hstart : rsp "qXfer:" <+: xferRequest objectName annex offset requested := List.prefix_append ..
  unfold handleXfer
  rw [if_neg (not_not.mpr hstart), hfour]
  simp only [ne_eq, not_true_eq_false, if_false, htwo, intHex_hexText]
  rw [if_neg (by omega), hdoc]
  rfl

theorem xferChunk_last {data : Packet} {offset requested : Nat}
    (h : data.length ≤ offset + min requested ((gdbPacketSize - 1) / 2)) :
    xferChunk data offset requested = rsp "l" ++ data.drop offset := by
  unfold xferChunk
  by_cases hend : offset ≥ data.length
  · rw [if_pos hend, List.drop_eq_nil_of_le hend, List.append_nil]
  · rw [if_neg hend]
    have hall : (data.drop offset).take (min requested ((gdbPacketSize - 1) / 2)) = data.drop offset := by
      apply List.take_of_length_le
      rw [List.length_drop]
      omega
    simp only [hall]
    rw [if_pos (by rw [List.length_drop]; omega)]

theorem xferChunk_more {data : Packet} {offset requested : Nat}
    (h : offset + min requested ((gdbPacketSize - 1) / 2) < data.length) :
    xferChunk data offset requested =
      rsp "m" ++ (data.drop offset).take (min requested ((gdbPacketSize - 1) / 2)) := by
  unfold xferChunk
  rw [if_neg (by omega)]
  have hlen : ((data.drop offset).take (min requested ((gdbPacketSize - 1) / 2))).length =
      min requested ((gdbPacketSize - 1) / 2) := by
    rw [List.length_take, List.length_drop]
    omega
  simp only [hlen]
  rw [if_neg (by omega)]

theorem xferChunk_length (data : Packet) (offset requested : Nat) :
    (xferChunk data offset requested).length ≤ 1 + (gdbPacketSize - 1) / 2 := by
  have hmarker : ∀ marker ∈ [rsp "l", rsp "m"], marker.length = 1 := by decide
  unfold xferChunk
  split
  next =>
    have hone := hmarker (rsp "l") (by simp)
    omega
  next =>
    have htake := List.length_take_le (min requested ((gdbPacketSize - 1) / 2)) (data.drop offset)
    rw [List.length_append]
    split
    next =>
      have hone := hmarker (rsp "l") (by simp)
      omega
    next =>
      have hone := hmarker (rsp "m") (by simp)
      omega

/-- A response has at most half a packet behind its first byte. -/
theorem handleXfer_length {docs : XferDocuments} {payload response : Packet}
    (h : handleXfer docs payload = some response) : response.length ≤ 1 + (gdbPacketSize - 1) / 2 := by
  have herror : (rsp "E01").length = 3 := by decide
  have hsize : gdbPacketSize = 0x10000 := rfl
  unfold handleXfer at h
  split at h
  next =>
    cases h
    omega
  split at h
  next =>
    split at h
    next => cases h
    split at h
    next =>
      split at h
      next =>
        split at h
        next =>
          cases h
          omega
        next =>
          rw [Option.map_eq_some_iff] at h
          obtain ⟨data, _, rfl⟩ := h
          exact xferChunk_length ..
      next =>
        cases h
        omega
    next =>
      cases h
      omega
  next =>
    cases h
    omega

/-- The reply is unescaped to the response. -/
theorem rspUnescape_xferReply {marker : UInt8} (h : marker ≠ 0x7D) (chunk : Packet) :
    rspUnescape (Gdb.xferReply (some (marker :: chunk))) = marker :: chunk := by
  show rspUnescape (marker :: rspEscape chunk) = _
  rw [rspUnescape_cons h, rspUnescape_escape]

theorem xferReply_length {docs : XferDocuments} (payload : Packet) :
    (Gdb.xferReply (handleXfer docs payload)).length ≤ gdbPacketSize := by
  cases hr : handleXfer docs payload with
  | none => simp [Gdb.xferReply]
  | some response =>
    have hlen := handleXfer_length hr
    have hescape := rspEscape_length_le (response.drop 1)
    have hsize : gdbPacketSize = 0x10000 := rfl
    rw [List.length_drop] at hescape
    simp only [Gdb.xferReply, List.length_append, List.length_take]
    omega

theorem handleCommand_xfer (t : Target) (stop : Packet) {payload : Packet} (h : rsp "qXfer:" <+: payload) :
    Gdb.handleCommand t stop payload =
      Handled.tryReply (fun _ => false) ((t.handleXfer payload).map Gdb.xferReply) := by
  have hstart : payload.take 2 = [0x71, 0x58] := by
    obtain ⟨rest, rfl⟩ := h
    rfl
  have hone : payload.take 1 ∉ [rsp "Z", rsp "z"] := by
    have htake : payload.take 1 = [0x71] := by
      obtain ⟨rest, rfl⟩ := h
      rfl
    rw [htake]
    decide
  unfold Gdb.handleCommand
  rw [if_neg (Gdb.not_command hstart (by decide)), if_neg (Gdb.ne_command hstart (by decide)),
    if_neg (Gdb.ne_command hstart (by decide)), if_neg (Gdb.ne_command hstart (by decide)),
    if_neg (Gdb.not_command hstart (by decide)), if_neg (Gdb.not_command hstart (by decide)),
    if_neg (Gdb.not_command hstart (by decide)), if_neg (Gdb.not_command hstart (by decide)),
    if_neg (Gdb.not_command hstart (by decide)), if_neg (Gdb.not_command hstart (by decide)),
    if_neg hone, if_pos h]

section Client

variable {t : Target} {docs : XferDocuments} (ht : ∀ payload, t.handleXfer payload = .ok (handleXfer docs payload))
  (stop : Packet)

include ht

/-- A `qXfer` packet gets one reply. -/
theorem answer_xfer {payload : Packet} (h : rsp "qXfer:" <+: payload) :
    (Gdb.answer t stop payload).1 = [Gdb.xferReply (handleXfer docs payload)] := by
  unfold Gdb.answer
  rw [handleCommand_xfer t stop h, ht]
  rfl

variable {objectName annex data : Packet} (hdoc : xferDocument docs objectName annex = some data)
  (hannex : 0x3A ∉ annex)

include hdoc hannex

/-- The client has the front of the document until it has all of it. -/
theorem readDocument_front {lengths : Nat → Nat} (hpos : ∀ k, 0 < lengths k) {fuel : Nat} (k : Nat) {n : Nat}
    (hn : n ≤ data.length) (hfuel : data.length < n + fuel) :
    readDocument (fun request => (Gdb.answer t stop request).1) objectName annex lengths fuel k
      (data.take n) = some data := by
  induction fuel generalizing k n with
  | zero => omega
  | succ fuel ih =>
    have hlen : (data.take n).length = n := by rw [List.length_take, min_eq_left hn]
    have hrequest : rsp "qXfer:" <+: xferRequest objectName annex n (lengths k) := List.prefix_append ..
    have hanswer := answer_xfer ht stop hrequest
    have hsome := handleXfer_request hdoc hannex n (hpos k)
    have hhalf : (gdbPacketSize - 1) / 2 = 32767 := rfl
    have hk := hpos k
    unfold readDocument
    rw [hlen]
    simp only [hanswer, hsome]
    by_cases hlast : data.length ≤ n + min (lengths k) ((gdbPacketSize - 1) / 2)
    · have hmarker : (0x6C : UInt8) ≠ 0x7D := by decide
      have hreply := rspUnescape_xferReply hmarker (data.drop n)
      have hchunk : xferChunk data n (lengths k) = 0x6C :: data.drop n := xferChunk_last hlast
      rw [hchunk, hreply]
      simp only [List.take_append_drop]
    · have hmore := Nat.lt_of_not_le hlast
      have hmarker : (0x6D : UInt8) ≠ 0x7D := by decide
      have hreply := rspUnescape_xferReply hmarker
        ((data.drop n).take (min (lengths k) ((gdbPacketSize - 1) / 2)))
      have hchunk : xferChunk data n (lengths k) =
          0x6D :: (data.drop n).take (min (lengths k) ((gdbPacketSize - 1) / 2)) := xferChunk_more hmore
      rw [hchunk, hreply]
      simp only [← List.take_add]
      exact ih (k + 1) (Nat.le_of_lt hmore) (by omega)

end Client

/-- A client that asks for any positive lengths gets the document, and each reply fits in a packet. -/
theorem xfer_reassembles {t : Target} {docs : XferDocuments}
    (ht : ∀ payload, t.handleXfer payload = .ok (handleXfer docs payload)) (stop : Packet) :
    (∀ objectName annex data, xferDocument docs objectName annex = some data → 0x3A ∉ annex →
      ∀ lengths : Nat → Nat, (∀ k, 0 < lengths k) →
      readDocument (fun request => (Gdb.answer t stop request).1) objectName annex lengths
        (data.length + 1) 0 [] = some data) ∧
    ∀ payload, rsp "qXfer:" <+: payload →
      ∀ reply ∈ (Gdb.answer t stop payload).1, reply.length ≤ gdbPacketSize := by
  constructor
  · intro objectName annex data hdoc hannex lengths hpos
    have hfuel : data.length < 0 + (data.length + 1) := by omega
    exact readDocument_front ht stop hdoc hannex hpos 0 (Nat.zero_le data.length) hfuel
  · intro payload hpayload reply hreply
    rw [answer_xfer ht stop hpayload, List.mem_singleton] at hreply
    rw [hreply]
    exact xferReply_length payload

/-- A target of which only the documents are read. -/
def xferTarget (docs : XferDocuments) : Target where
  readRegisters := .error .other
  writeRegisters _ := .error .other
  readRegister _ := .error .other
  writeRegister _ := .error .other
  readMemory _ := .error .other
  writeMemoryHex _ := .error .other
  writeMemoryBinary _ := .error .other
  changeBreakpoint _ := .error .other
  handleXfer payload := .ok (handleXfer docs payload)
  tebAddress := .error .other
  setPc _ := .error .other

theorem xfer_reassembles_threads :
    readDocument (fun request => (Gdb.answer (xferTarget ⟨[], [], [], []⟩) [] request).1) (rsp "threads") []
      (fun _ => 5) (threadsXml.length + 1) 0 [] = some threadsXml :=
  (xfer_reassembles (t := xferTarget ⟨[], [], [], []⟩) (fun _ => rfl) []).1 (rsp "threads") [] threadsXml
    (by decide) (by decide) (fun _ => 5) fun _ => by decide

end Speakeasy
