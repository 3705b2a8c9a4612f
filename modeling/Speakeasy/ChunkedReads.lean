import Mathlib.Data.List.Basic

/-! Parsers that take what they can from the front of a buffer while chunks of a stream arrive. -/

namespace ChunkedReads

variable {β ε : Type*}

/-- A parser step that takes some of a buffer, or waits for more. -/
structure Parser (β ε : Type*) where
  step : List β → Option (List ε × List β)
  shrinks : ∀ {buffer events rest}, step buffer = some (events, rest) → rest.length < buffer.length
  /-- More data behind the buffer does not change what the step takes. -/
  stable : ∀ {buffer events rest}, step buffer = some (events, rest) →
    ∀ more, step (buffer ++ more) = some (events, rest ++ more)

namespace Parser

variable (p : Parser β ε)

/-- The steps on a buffer until the parser waits, in at most as many as `fuel`. -/
def drainFuel : Nat → List β → List ε × List β
  | 0, buffer => ([], buffer)
  | fuel + 1, buffer =>
    match p.step buffer with
    | none => ([], buffer)
    | some (events, rest) =>
      let (more, rest) := drainFuel fuel rest
      (events ++ more, rest)

example {buffer rest : List β} {events : List ε} (h : p.step buffer = some (events, rest)) (hwait : p.step rest = none) :
    p.drainFuel 2 buffer = (events, rest) := by
  simp only [drainFuel, h, hwait, List.append_nil]

def drain (buffer : List β) : List ε × List β := p.drainFuel buffer.length buffer

variable {p}

/-- A buffer has no more steps than elements. -/
theorem drainFuel_eq {fuel : Nat} {buffer : List β} (h : buffer.length ≤ fuel) :
    p.drainFuel fuel buffer = p.drain buffer := by
  induction fuel using Nat.strongRecOn generalizing buffer with
  | ind fuel ih =>
    unfold drain
    cases fuel with
    | zero => rw [Nat.le_zero.mp h]
    | succ fuel =>
      cases hlen : buffer.length with
      | zero =>
        cases hs : p.step buffer with
        | none => simp only [drainFuel, hs]
        | some out =>
          have hlt := p.shrinks hs
          omega
      | succ n =>
        rw [drainFuel, drainFuel]
        cases hs : p.step buffer with
        | none => rfl
        | some out =>
          obtain ⟨events, rest⟩ := out
          have hlt := p.shrinks hs
          have hleft := ih fuel (Nat.lt_succ_self fuel) (show rest.length ≤ fuel by omega)
          have hright := ih n (by omega) (show rest.length ≤ n by omega)
          simp only [hleft, hright]

theorem drain_wait {buffer : List β} (h : p.step buffer = none) : p.drain buffer = ([], buffer) := by
  unfold drain
  cases buffer.length with
  | zero => rfl
  | succ n => rw [drainFuel, h]

theorem drain_step {buffer rest : List β} {events : List ε} (h : p.step buffer = some (events, rest)) :
    p.drain buffer = (events ++ (p.drain rest).1, (p.drain rest).2) := by
  have hlt := p.shrinks h
  obtain ⟨n, hn⟩ := Nat.exists_eq_succ_of_ne_zero (show buffer.length ≠ 0 by omega)
  rw [drain, hn, drainFuel, h]
  simp only [drainFuel_eq (show rest.length ≤ n by omega)]

/-- The parser waits at what it leaves. -/
theorem drain_waits (buffer : List β) : p.step (p.drain buffer).2 = none := by
  induction hn : buffer.length using Nat.strongRecOn generalizing buffer with
  | ind n ih =>
    cases hs : p.step buffer with
    | none => rw [drain_wait hs, hs]
    | some out =>
      obtain ⟨events, rest⟩ := out
      have hlt := p.shrinks hs
      rw [drain_step hs]
      exact ih rest.length (by omega) rest rfl

/-- Data that arrives later is parsed behind what the parser left. -/
theorem drain_append (a b : List β) :
    p.drain (a ++ b) = ((p.drain a).1 ++ (p.drain ((p.drain a).2 ++ b)).1,
      (p.drain ((p.drain a).2 ++ b)).2) := by
  induction hn : a.length using Nat.strongRecOn generalizing a with
  | ind n ih =>
    cases hs : p.step a with
    | none => rw [drain_wait hs, List.nil_append]
    | some out =>
      obtain ⟨events, rest⟩ := out
      have hlt := p.shrinks hs
      rw [drain_step (p.stable hs b), drain_step hs, ih rest.length (by omega) rest rfl]
      simp

/-! A stream of blocks, each of which is what one step takes. -/

/-- Less than a block makes the parser wait. -/
theorem step_of_lt_block {block front : List β} {events : List ε} (hblock : p.step block = some (events, []))
    (h : front <+: block) (hlt : front.length < block.length) : p.step front = none := by
  obtain ⟨more, rfl⟩ := h
  cases hs : p.step front with
  | none => rfl
  | some out =>
    obtain ⟨taken, rest⟩ := out
    have hpair := Option.some.inj ((p.stable hs more).symm.trans hblock)
    have hrest : rest ++ more = [] := congrArg Prod.snd hpair
    have hmore := (List.append_eq_nil_iff.mp hrest).2
    rw [hmore, List.append_nil] at hlt
    exact absurd hlt (Nat.lt_irrefl _)

theorem step_nil : p.step [] = none := by
  cases hs : p.step [] with
  | none => rfl
  | some out => exact absurd (p.shrinks hs) (Nat.not_lt_zero _)

variable {ι : Type*} {bytes : ι → List β} {events : ι → List ε}

/-- What waits of a stream of blocks is less than a block. -/
theorem drain_blocks_le (hblock : ∀ i rest, p.step (bytes i ++ rest) = some (events i, rest)) {limit : Nat}
    (hsize : ∀ i, (bytes i).length ≤ limit) (blocks : List ι) {front : List β}
    (h : front <+: blocks.flatMap bytes) : (p.drain front).2.length ≤ limit := by
  induction blocks generalizing front with
  | nil =>
    have hnil : front = [] := List.prefix_nil.mp h
    rw [hnil, drain_wait step_nil]
    exact Nat.zero_le _
  | cons block blocks ih =>
    rw [List.flatMap_cons] at h
    by_cases hlt : front.length < (bytes block).length
    · have hfront := List.prefix_of_prefix_length_le h (List.prefix_append ..) (Nat.le_of_lt hlt)
      have hfull := hblock block []
      rw [List.append_nil] at hfull
      rw [drain_wait (step_of_lt_block hfull hfront hlt)]
      have hle := hsize block
      exact Nat.le_trans (Nat.le_of_lt hlt) hle
    · obtain ⟨left, rfl⟩ := List.prefix_of_prefix_length_le (List.prefix_append (bytes block) _) h
        (Nat.le_of_not_lt hlt)
      rw [List.prefix_append_right_inj] at h
      rw [drain_step (hblock block left)]
      exact ih h

theorem drain_blocks (hblock : ∀ i rest, p.step (bytes i ++ rest) = some (events i, rest)) (blocks : List ι) :
    p.drain (blocks.flatMap bytes) = (blocks.flatMap events, []) := by
  induction blocks with
  | nil => exact drain_wait step_nil
  | cons block blocks ih => rw [List.flatMap_cons, drain_step (hblock block _), ih, List.flatMap_cons]

variable (p)

/-- The events of a stream that arrives in chunks, and if the parser gave it up. It does when more than
`limit` elements wait after a chunk. -/
def run (limit : Nat) (buffer : List β) : List (List β) → List ε × Bool
  | [] => ([], false)
  | chunk :: chunks =>
    let (events, rest) := p.drain (buffer ++ chunk)
    if limit < rest.length then (events, true)
    else
      let (more, gaveUp) := run limit rest chunks
      (events ++ more, gaveUp)

variable {p}

/-- A stream of which never too much waits gives the same events in any chunks. -/
theorem run_eq_drain {limit : Nat} {buffer : List β} {chunks : List (List β)}
    (hwaits : p.step buffer = none)
    (h : ∀ front, front <+: chunks.flatten → (p.drain (buffer ++ front)).2.length ≤ limit) :
    p.run limit buffer chunks = ((p.drain (buffer ++ chunks.flatten)).1, false) := by
  induction chunks generalizing buffer with
  | nil =>
    rw [List.flatten_nil, List.append_nil, drain_wait hwaits]
    rfl
  | cons chunk chunks ih =>
    have hle : (p.drain (buffer ++ chunk)).2.length ≤ limit :=
      h chunk (by rw [List.flatten_cons]; exact List.prefix_append ..)
    have hrest := drain_waits (p := p) (buffer ++ chunk)
    have hnext := ih hrest fun front hfront => by
      have hall := h (chunk ++ front) (by
        rw [List.flatten_cons, List.prefix_append_right_inj]
        exact hfront)
      rw [← List.append_assoc, drain_append] at hall
      exact hall
    rw [List.flatten_cons, ← List.append_assoc, drain_append]
    unfold run
    simp only [if_neg (Nat.not_lt.mpr hle), hnext]

end Parser

end ChunkedReads
