import Speakeasy.GdbCommands
import Speakeasy.PyBytes
import Speakeasy.ChunkedReads
import Mathlib.Data.List.TakeWhile

namespace Speakeasy

section

open PyBytes

def gdbPacketSize : Nat := 0x10000

/-- `sum(payload) & 0xFF`. -/
def rspChecksum (payload : Packet) : Nat := (payload.map UInt8.toNat).sum % 256

def rspPacket (payload : Packet) : Packet :=
  0x24 :: payload ++ 0x23 :: [hexDigit (rspChecksum payload / 16), hexDigit (rspChecksum payload % 16)]

def rspUnescape : Packet → Packet
  | [] => []
  | [b] => [b]
  | b :: c :: rest =>
    if b = 0x7D then (c ^^^ 0x20) :: rspUnescape rest else b :: rspUnescape (c :: rest)

/-- What `_extract_packet` gives: the frame, its payload, and if the frame is valid. -/
structure ExtractedPacket where
  raw : Packet
  payload : Packet
  valid : Bool
deriving DecidableEq

/-- `digits` is the text of the checksum. -/
def packetValid (encoded digits : Packet) : Bool :=
  match intHex digits with
  | none => false
  | some checksum =>
    encoded.length ≤ gdbPacketSize ∧ encoded.getLast? ≠ some 0x7D ∧ checksum = rspChecksum encoded

/-- `_extract_packet`, with what it leaves in the buffer. -/
def extractPacket (buffer : Packet) : Option (ExtractedPacket × Packet) :=
  if buffer.head? ≠ some 0x24 then none
  else
    let body := buffer.drop 1
    let encoded := body.takeWhile (· ≠ 0x23)
    let tail := (body.dropWhile (· ≠ 0x23)).drop 1
    if 0x23 ∉ body ∨ tail.length < 2 then none
    else
      some (⟨0x24 :: encoded ++ 0x23 :: tail.take 2, rspUnescape encoded,
        packetValid encoded (tail.take 2)⟩, tail.drop 2)

section Frame

variable {encoded : Packet} (h : 0x23 ∉ encoded) (tail : Packet)

include h

theorem takeWhile_frame : (encoded ++ 0x23 :: tail).takeWhile (· ≠ 0x23) = encoded := by
  have hne : ∀ b ∈ encoded, decide (b ≠ 0x23) = true := fun b hb => decide_eq_true fun heq => h (heq ▸ hb)
  rw [List.takeWhile_append_of_pos hne]
  simp

theorem dropWhile_frame : (encoded ++ 0x23 :: tail).dropWhile (· ≠ 0x23) = 0x23 :: tail := by
  have hne : ∀ b ∈ encoded, decide (b ≠ 0x23) = true := fun b hb => decide_eq_true fun heq => h (heq ▸ hb)
  rw [List.dropWhile_append_of_pos hne]
  simp

/-- A frame is taken from the front of what a buffer has. -/
theorem extractPacket_frame (c d : UInt8) (rest : Packet) :
    extractPacket (0x24 :: encoded ++ 0x23 :: c :: d :: rest) =
      some (⟨0x24 :: encoded ++ 0x23 :: [c, d], rspUnescape encoded, packetValid encoded [c, d]⟩, rest) := by
  have hin : ¬(0x23 ∉ encoded ++ 0x23 :: c :: d :: rest ∨ (c :: d :: rest).length < 2) := by simp
  unfold extractPacket
  rw [List.cons_append, List.head?_cons, if_neg (fun hhead => hhead rfl)]
  simp only [List.drop_one, List.tail_cons, takeWhile_frame h, dropWhile_frame h]
  rw [if_neg hin]
  rfl

/-- A frame without both digits of its checksum waits for them. -/
theorem extractPacket_short (hshort : tail.length < 2) :
    extractPacket (0x24 :: encoded ++ 0x23 :: tail) = none := by
  unfold extractPacket
  rw [List.cons_append, List.head?_cons, if_neg (fun hhead => hhead rfl)]
  simp only [List.drop_one, List.tail_cons, dropWhile_frame h]
  rw [if_pos (Or.inr hshort)]

end Frame

theorem extractPacket_eq_some {buffer rest : Packet} {packet : ExtractedPacket}
    (h : extractPacket buffer = some (packet, rest)) :
    ∃ encoded c d, 0x23 ∉ encoded ∧ buffer = 0x24 :: encoded ++ 0x23 :: c :: d :: rest := by
  have hhead : buffer.head? = some 0x24 := by
    by_contra hne
    rw [extractPacket, if_pos hne] at h
    cases h
  obtain ⟨body, rfl⟩ := List.head?_eq_some_iff.mp hhead
  have hin : 0x23 ∈ body := by
    by_contra hout
    rw [extractPacket, if_neg (fun hne => hne hhead)] at h
    simp only [List.drop_one, List.tail_cons] at h
    rw [if_pos (Or.inl hout)] at h
    cases h
  obtain ⟨encoded, tail, rfl, hnot⟩ := List.eq_append_cons_of_mem hin
  rw [← List.cons_append] at h
  match tail with
  | [] =>
    rw [extractPacket_short hnot [] (by simp)] at h
    cases h
  | [c] =>
    rw [extractPacket_short hnot [c] (by simp)] at h
    cases h
  | c :: d :: left =>
    rw [extractPacket_frame hnot] at h
    have hrest : left = rest := congrArg Prod.snd (Option.some.inj h)
    exact ⟨encoded, c, d, hnot, by rw [hrest]; rfl⟩

/-! The escape of `_rsp_escape` leaves no byte that ends a frame. -/

theorem rspEscape_cons (b : UInt8) (bs : Packet) :
    rspEscape (b :: bs) = rspEscape [b] ++ rspEscape bs := by
  simp [rspEscape]

/-- A byte is escaped as itself, or as a bracket and another byte. -/
theorem rspEscape_byte (b : UInt8) : (rspEscape [b] = [b] ∧ b ≠ 0x23 ∧ b ≠ 0x7D) ∨
    (rspEscape [b] = [0x7D, b ^^^ 0x20] ∧ b ^^^ 0x20 ≠ 0x23 ∧ b ^^^ 0x20 ≠ 0x7D) := by
  have hset : rsp "$#\x7d*" = [0x24, 0x23, 0x7D, 0x2A] := by decide
  by_cases hb : b ∈ rsp "$#\x7d*"
  · right
    have hesc : rspEscape [b] = [0x7D, b ^^^ 0x20] := by simp [rspEscape, hb]
    refine ⟨hesc, ?_⟩
    rw [hset] at hb
    simp only [List.mem_cons, List.not_mem_nil, or_false] at hb
    obtain rfl | rfl | rfl | rfl := hb <;> decide
  · left
    have hesc : rspEscape [b] = [b] := by simp [rspEscape, hb]
    rw [hset] at hb
    simp only [List.mem_cons, List.not_mem_nil, or_false, not_or] at hb
    exact ⟨hesc, hb.2.1, hb.2.2.1⟩

theorem xor_twice (b : UInt8) : b ^^^ 0x20 ^^^ 0x20 = b := by
  rw [UInt8.xor_assoc, UInt8.xor_self, UInt8.xor_zero]

theorem rspUnescape_cons {b : UInt8} (h : b ≠ 0x7D) (bs : Packet) :
    rspUnescape (b :: bs) = b :: rspUnescape bs := by
  cases bs with
  | nil => rfl
  | cons c rest => rw [rspUnescape, if_neg h]

theorem rspUnescape_escape (payload : Packet) : rspUnescape (rspEscape payload) = payload := by
  induction payload with
  | nil => rfl
  | cons b bs ih =>
    rw [rspEscape_cons]
    obtain ⟨hesc, _, hne⟩ | ⟨hesc, _, _⟩ := rspEscape_byte b
    · rw [hesc, List.singleton_append, rspUnescape_cons hne, ih]
    · rw [hesc, List.cons_append, List.singleton_append, rspUnescape, if_pos rfl, xor_twice, ih]

theorem hash_not_mem_rspEscape (payload : Packet) : 0x23 ∉ rspEscape payload := by
  induction payload with
  | nil => exact List.not_mem_nil
  | cons b bs ih =>
    rw [rspEscape_cons]
    obtain ⟨hesc, hne, _⟩ | ⟨hesc, hne, _⟩ := rspEscape_byte b
    · simp [hesc, ih, Ne.symm hne]
    · simp [hesc, ih, Ne.symm hne]

theorem getLast_rspEscape (payload : Packet) : (rspEscape payload).getLast? ≠ some 0x7D := by
  induction payload with
  | nil => simp [rspEscape]
  | cons b bs ih =>
    rw [rspEscape_cons, List.getLast?_append]
    cases hlast : (rspEscape bs).getLast? with
    | some x =>
      rw [hlast] at ih
      exact ih
    | none =>
      obtain ⟨hesc, _, hne⟩ | ⟨hesc, _, hne⟩ := rspEscape_byte b
      · simp [hesc, hne]
      · simp [hesc, hne]

theorem rspEscape_byte_length (b : UInt8) : 1 ≤ (rspEscape [b]).length ∧ (rspEscape [b]).length ≤ 2 := by
  obtain ⟨hesc, _⟩ | ⟨hesc, _⟩ := rspEscape_byte b
  · simp [hesc]
  · simp [hesc]

theorem rspEscape_length_le (payload : Packet) : (rspEscape payload).length ≤ 2 * payload.length := by
  induction payload with
  | nil => simp [rspEscape]
  | cons b bs ih =>
    have hbyte := rspEscape_byte_length b
    rw [rspEscape_cons, List.length_append, List.length_cons]
    omega

theorem le_rspEscape_length (payload : Packet) : payload.length ≤ (rspEscape payload).length := by
  induction payload with
  | nil => simp
  | cons b bs ih =>
    have hbyte := rspEscape_byte_length b
    rw [rspEscape_cons, List.length_append, List.length_cons]
    omega

theorem intHex_checksum (encoded : Packet) :
    intHex [hexDigit (rspChecksum encoded / 16), hexDigit (rspChecksum encoded % 16)] =
      some (rspChecksum encoded : Int) := by
  have hlt : rspChecksum encoded < 256 := Nat.mod_lt _ (by omega)
  have hdigits : ∀ d ∈ [rspChecksum encoded / 16, rspChecksum encoded % 16], d < 16 := by
    intro d hd
    simp only [List.mem_cons, List.not_mem_nil, or_false] at hd
    omega
  have hvalue := intHex_digits hdigits (by simp)
  simp only [List.map_cons, List.map_nil, List.foldl_cons, List.foldl_nil] at hvalue
  rw [hvalue]
  congr 2
  omega

/-- A frame of an escaped payload gives the payload back, and is valid when it is not too long. -/
theorem extractPacket_rspPacket (payload rest : Packet) :
    extractPacket (rspPacket (rspEscape payload) ++ rest) =
      some (⟨rspPacket (rspEscape payload), payload,
        decide ((rspEscape payload).length ≤ gdbPacketSize)⟩, rest) := by
  have hframe := extractPacket_frame (hash_not_mem_rspEscape payload)
    (hexDigit (rspChecksum (rspEscape payload) / 16)) (hexDigit (rspChecksum (rspEscape payload) % 16)) rest
  have happend : rspPacket (rspEscape payload) ++ rest = 0x24 :: rspEscape payload ++
      0x23 :: hexDigit (rspChecksum (rspEscape payload) / 16) ::
        hexDigit (rspChecksum (rspEscape payload) % 16) :: rest := by simp [rspPacket]
  have hlast := getLast_rspEscape payload
  rw [happend, hframe, rspUnescape_escape, packetValid, intHex_checksum]
  simp [rspPacket, hlast]

end

section

open ChunkedReads

/-- What one turn of the inner loop of `_read_loop` takes from its buffer. -/
inductive Received
  | interrupt
  | ack
  | nak
  | junk (value : UInt8)
  | packet (payload : Packet) (valid : Bool)
deriving DecidableEq

/-- What `_read_loop` does. -/
inductive ReaderEvent
  | interrupt
  | sendLast
  | sendAck
  | sendNak
  | command (payload : Packet)
  /-- `self._commands.put(None)`. -/
  | closed
deriving DecidableEq

def readStep (buffer : Packet) : Option (List Received × Packet) :=
  match buffer with
  | [] => none
  | value :: rest =>
    if value = 3 then some ([.interrupt], rest)
    else if value = 0x2B then some ([.ack], rest)
    else if value = 0x2D then some ([.nak], rest)
    else if value ≠ 0x24 then some ([.junk value], rest)
    else
      match extractPacket buffer with
      | none => none
      | some (packet, left) => some ([.packet packet.payload packet.valid], left)

theorem readStep_packet (body : Packet) : readStep (0x24 :: body) =
    (extractPacket (0x24 :: body)).map fun out => ([.packet out.1.payload out.1.valid], out.2) := by
  unfold readStep
  simp only [show ¬(0x24 : UInt8) = 3 by decide, show ¬(0x24 : UInt8) = 0x2B by decide,
    show ¬(0x24 : UInt8) = 0x2D by decide, ne_eq, not_true_eq_false, if_false]
  cases extractPacket (0x24 :: body) with
  | none => rfl
  | some out => rfl

def receivedByte (value : UInt8) : Received :=
  if value = 3 then .interrupt
  else if value = 0x2B then .ack
  else if value = 0x2D then .nak
  else .junk value

theorem readStep_byte {value : UInt8} (h : value ≠ 0x24) (rest : Packet) :
    readStep (value :: rest) = some ([receivedByte value], rest) := by
  unfold readStep receivedByte
  simp only [if_pos h]
  by_cases hint : value = 3
  · rw [if_pos hint, if_pos hint]
  rw [if_neg hint, if_neg hint]
  by_cases hplus : value = 0x2B
  · rw [if_pos hplus, if_pos hplus]
  rw [if_neg hplus, if_neg hplus]
  by_cases hminus : value = 0x2D
  · rw [if_pos hminus, if_pos hminus]
  rw [if_neg hminus, if_neg hminus]

theorem readStep_shrinks {buffer rest : Packet} {items : List Received}
    (h : readStep buffer = some (items, rest)) : rest.length < buffer.length := by
  cases buffer with
  | nil => cases h
  | cons value body =>
    by_cases hvalue : value = 0x24
    · subst hvalue
      rw [readStep_packet, Option.map_eq_some_iff] at h
      obtain ⟨⟨packet, left⟩, hout, heq⟩ := h
      obtain ⟨encoded, c, d, _, hbuffer⟩ := extractPacket_eq_some hout
      have hrest : left = rest := congrArg Prod.snd heq
      rw [hbuffer, ← hrest]
      simp
      omega
    · rw [readStep_byte hvalue] at h
      have hrest : body = rest := congrArg Prod.snd (Option.some.inj h)
      simp [hrest]

theorem readStep_stable {buffer rest : Packet} {items : List Received}
    (h : readStep buffer = some (items, rest)) (more : Packet) :
    readStep (buffer ++ more) = some (items, rest ++ more) := by
  cases buffer with
  | nil => cases h
  | cons value body =>
    by_cases hvalue : value = 0x24
    · subst hvalue
      rw [readStep_packet, Option.map_eq_some_iff] at h
      obtain ⟨⟨packet, left⟩, hout, heq⟩ := h
      obtain ⟨encoded, c, d, hnot, hbuffer⟩ := extractPacket_eq_some hout
      have hmore : 0x24 :: body ++ more = 0x24 :: encoded ++ 0x23 :: c :: d :: (left ++ more) := by
        rw [hbuffer]
        simp
      rw [hbuffer, extractPacket_frame hnot] at hout
      rw [hmore, List.cons_append, readStep_packet, ← List.cons_append, extractPacket_frame hnot,
        Option.map_some]
      have hpacket := congrArg Prod.fst (Option.some.inj hout)
      have hitems := congrArg Prod.fst heq
      have hrest := congrArg Prod.snd heq
      simp only at hpacket hitems hrest
      rw [hpacket, hitems, hrest]
    · rw [readStep_byte hvalue] at h
      have hpair := Option.some.inj h
      have hitems : [receivedByte value] = items := congrArg Prod.fst hpair
      have hrest : body = rest := congrArg Prod.snd hpair
      rw [List.cons_append, readStep_byte hvalue, hitems, hrest]

def packetReader : Parser UInt8 Received where
  step := readStep
  shrinks := readStep_shrinks
  stable := readStep_stable

/-- What the loop does for an item. Another thread sets `_no_ack` and `_last_packet` at some time. -/
def receivedEvents (noAck hasLast : Bool) : Received → List ReaderEvent
  | .interrupt => [.interrupt]
  | .ack => []
  | .nak => if hasLast then [.sendLast] else []
  | .junk _ => []
  | .packet payload valid =>
    if valid then (if noAck then [] else [.sendAck]) ++ [.command payload]
    else if noAck then [] else [.sendNak]

/-- What the loop does for all items and at its end. The flags are those at the time of each item. -/
def readEvents (noAck hasLast : Nat → Bool) (items : List Received) : List ReaderEvent :=
  items.zipIdx.flatMap (fun (item, n) => receivedEvents (noAck n) (hasLast n) item) ++ [.closed, .interrupt]

/-- `_read_loop` on what `recv` gives, and if it closes the connection for its size. -/
def readLoop (noAck hasLast : Nat → Bool) (chunks : List Packet) : List ReaderEvent × Bool :=
  let (items, oversized) := packetReader.run (gdbPacketSize + 4) [] (chunks.takeWhile (· ≠ []))
  (readEvents noAck hasLast items, oversized)

/-! A stream of single bytes and of packets that are not too long. -/

inductive StreamItem
  | byte (value : UInt8) (h : value ≠ 0x24)
  | packet (encoded : Packet) (c d : UInt8) (hend : 0x23 ∉ encoded) (hsize : encoded.length ≤ gdbPacketSize)

def StreamItem.bytes : StreamItem → Packet
  | .byte value _ => [value]
  | .packet encoded c d _ _ => 0x24 :: encoded ++ [0x23, c, d]

def StreamItem.received : StreamItem → Received
  | .byte value _ => receivedByte value
  | .packet encoded c d _ _ => .packet (rspUnescape encoded) (packetValid encoded [c, d])

/-- The reader takes an item when it has all bytes of it. -/
theorem StreamItem.step (item : StreamItem) (rest : Packet) :
    packetReader.step (item.bytes ++ rest) = some ([item.received], rest) := by
  cases item with
  | byte value h => exact readStep_byte h rest
  | packet encoded c d hend hsize =>
    have happend : (StreamItem.packet encoded c d hend hsize).bytes ++ rest =
        0x24 :: encoded ++ 0x23 :: c :: d :: rest := by simp [StreamItem.bytes]
    have hframe := extractPacket_frame hend c d rest
    have hstep : packetReader.step (0x24 :: encoded ++ 0x23 :: c :: d :: rest) =
        readStep (0x24 :: (encoded ++ 0x23 :: c :: d :: rest)) := rfl
    rw [happend, hstep, readStep_packet, ← List.cons_append, hframe]
    rfl

theorem StreamItem.length_le (item : StreamItem) : item.bytes.length ≤ gdbPacketSize + 4 := by
  cases item with
  | byte value h => simp [StreamItem.bytes]
  | packet encoded c d hend hsize =>
    simp only [StreamItem.bytes, List.cons_append, List.length_cons, List.length_append, List.length_nil]
    omega

/-- What `recv(65536)` gives before the stream ends. -/
abbrev IsRecv (chunk : Packet) : Prop := chunk ≠ [] ∧ chunk.length ≤ 65536

/-- The chunks in which a stream arrives do not change what the loop takes from it. -/
theorem readLoop_eq_drain (noAck hasLast : Nat → Bool) (items : List StreamItem) {chunks : List Packet}
    (hchunks : ∀ chunk ∈ chunks, IsRecv chunk) (h : chunks.flatten <+: items.flatMap StreamItem.bytes) :
    readLoop noAck hasLast chunks =
      (readEvents noAck hasLast (packetReader.drain chunks.flatten).1, false) := by
  have hall : chunks.takeWhile (· ≠ []) = chunks := by
    rw [List.takeWhile_eq_self_iff]
    exact fun chunk hchunk => decide_eq_true (hchunks chunk hchunk).1
  have hlimit : ∀ front, front <+: chunks.flatten →
      (packetReader.drain ([] ++ front)).2.length ≤ gdbPacketSize + 4 := fun front hfront =>
    Parser.drain_blocks_le StreamItem.step StreamItem.length_le items (List.IsPrefix.trans hfront h)
  have hrun := Parser.run_eq_drain Parser.step_nil hlimit
  unfold readLoop
  rw [hall, hrun]
  rfl

/-- The framing does not depend on the chunks, and an escaped payload that fits comes back. -/
theorem framing_independent :
    (∀ noAck hasLast (items : List StreamItem) chunks chunks', (∀ chunk ∈ chunks, IsRecv chunk) →
      (∀ chunk ∈ chunks', IsRecv chunk) → chunks.flatten <+: items.flatMap StreamItem.bytes →
      chunks.flatten = chunks'.flatten →
      readLoop noAck hasLast chunks = readLoop noAck hasLast chunks' ∧
      (readLoop noAck hasLast chunks).2 = false) ∧
    (∀ noAck hasLast (items : List StreamItem) chunks, (∀ chunk ∈ chunks, IsRecv chunk) →
      chunks.flatten = items.flatMap StreamItem.bytes →
      readLoop noAck hasLast chunks = (readEvents noAck hasLast (items.map StreamItem.received), false)) ∧
    ∀ payload rest, (rspEscape payload).length ≤ gdbPacketSize →
      extractPacket (rspPacket (rspEscape payload) ++ rest) =
        some (⟨rspPacket (rspEscape payload), payload, true⟩, rest) := by
  refine ⟨?_, ?_, ?_⟩
  · intro noAck hasLast items chunks chunks' hchunks hchunks' hprefix hsame
    have hleft := readLoop_eq_drain noAck hasLast items hchunks hprefix
    have hright := readLoop_eq_drain noAck hasLast items hchunks' (hsame ▸ hprefix)
    rw [hleft, hright, hsame]
    exact ⟨rfl, rfl⟩
  · intro noAck hasLast items chunks hchunks hall
    have hdrain := Parser.drain_blocks (p := packetReader) StreamItem.step items
    rw [readLoop_eq_drain noAck hasLast items hchunks (hall ▸ List.prefix_refl _), hall, hdrain, List.map_eq_flatMap]
  · intro payload rest hsize
    rw [extractPacket_rspPacket, decide_eq_true hsize]

theorem framing_independent_interrupt :
    (readLoop (fun _ => false) (fun _ => false) [[3], [0x24, 0x23], [0x30, 0x30]] =
      ([.interrupt, .sendAck, .command [], .closed, .interrupt], false)) ∧
    extractPacket (rspPacket (rspEscape (rsp "g"))) = some (⟨rspPacket (rsp "g"), rsp "g", true⟩, []) := by
  have hchunks : ∀ chunk ∈ [[3], [0x24, 0x23], [0x30, 0x30]], IsRecv chunk := by decide
  have hstream := framing_independent.2.1 (fun _ => false) (fun _ => false)
    [.byte 3 (by decide), .packet [] 0x30 0x30 (by decide) (by decide)] _ hchunks (by decide)
  exact ⟨hstream, framing_independent.2.2 (rsp "g") [] (by decide)⟩

/-- A payload that is too long is not valid. -/
theorem framing_not_all_valid : ¬∀ payload rest, extractPacket (rspPacket (rspEscape payload) ++ rest) =
    some (⟨rspPacket (rspEscape payload), payload, true⟩, rest) := by
  intro h
  have hlong := h (List.replicate (gdbPacketSize + 1) 0x61) []
  have hle := le_rspEscape_length (List.replicate (gdbPacketSize + 1) 0x61)
  rw [List.length_replicate] at hle
  rw [extractPacket_rspPacket, decide_eq_false (by omega)] at hlong
  cases hlong

end

end Speakeasy
