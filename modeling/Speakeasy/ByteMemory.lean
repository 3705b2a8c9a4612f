import Mathlib.Data.List.Basic
import Mathlib.Data.List.Pairwise
import Mathlib.Algebra.Order.Ring.Nat

namespace Speakeasy

/-- Little endian bytes of an integer, which is truncated to their number. -/
def toBytes : Nat → Nat → List UInt8
  | 0, _ => []
  | count + 1, n => UInt8.ofNat n :: toBytes count (n / 256)

def fromBytes : List UInt8 → Nat
  | [] => 0
  | b :: bs => b.toNat + 256 * fromBytes bs

@[simp] theorem toBytes_length (count n : Nat) : (toBytes count n).length = count := by
  induction count generalizing n with
  | zero => rfl
  | succ count ih => simp [toBytes, ih]

theorem fromBytes_toBytes (count n : Nat) : fromBytes (toBytes count n) = n % 256 ^ count := by
  induction count generalizing n with
  | zero => simp [toBytes, fromBytes, Nat.mod_one]
  | succ count ih =>
    rw [toBytes, fromBytes, ih, Nat.pow_succ', Nat.mod_mul]
    simp

theorem fromBytes_toBytes_of_lt {count n : Nat} (h : n < 256 ^ count) :
    fromBytes (toBytes count n) = n := by
  rw [fromBytes_toBytes, Nat.mod_eq_of_lt h]

theorem fromBytes_lt (bs : List UInt8) : fromBytes bs < 256 ^ bs.length := by
  induction bs with
  | nil => simp [fromBytes]
  | cons b bs ih =>
    have := b.toNat_lt
    rw [fromBytes, List.length_cons, Nat.pow_succ']
    omega

/-- The bytes of the guest. -/
abbrev ByteMemory := Nat → UInt8

namespace ByteMemory

def readBytes (m : ByteMemory) (a count : Nat) : List UInt8 :=
  (List.range count).map fun i => m (a + i)

def writeBytes (m : ByteMemory) (a : Nat) (bs : List UInt8) : ByteMemory := fun x =>
  if a ≤ x ∧ x < a + bs.length then bs.getD (x - a) 0 else m x

def readInt (m : ByteMemory) (a count : Nat) : Nat := fromBytes (m.readBytes a count)

@[simp] theorem readBytes_length (m : ByteMemory) (a count : Nat) :
    (m.readBytes a count).length = count := by
  simp [readBytes]

theorem readBytes_congr {m m' : ByteMemory} {a count : Nat}
    (h : ∀ x, a ≤ x → x < a + count → m x = m' x) : m.readBytes a count = m'.readBytes a count := by
  apply List.map_congr_left
  intro i hi
  rw [List.mem_range] at hi
  exact h (a + i) (by omega) (by omega)

theorem writeBytes_outside {m : ByteMemory} {a x : Nat} {bs : List UInt8}
    (h : x < a ∨ a + bs.length ≤ x) : m.writeBytes a bs x = m x := if_neg (by omega)

theorem writeBytes_inside {m : ByteMemory} {a i : Nat} {bs : List UInt8} (h : i < bs.length) :
    m.writeBytes a bs (a + i) = bs[i] := by
  rw [writeBytes, if_pos (by omega), Nat.add_sub_cancel_left]
  simp [h]

/-- A part of what was written is read back. -/
theorem readBytes_writeBytes {m : ByteMemory} {a k count : Nat} {bs : List UInt8}
    (h : k + count ≤ bs.length) :
    (m.writeBytes a bs).readBytes (a + k) count = (bs.drop k).take count := by
  apply List.ext_getElem
  · simp
    omega
  · intro i hi _
    simp only [readBytes, List.length_map, List.length_range] at hi
    simp only [readBytes, List.getElem_map, List.getElem_range, List.getElem_take, List.getElem_drop,
      Nat.add_assoc]
    exact writeBytes_inside (by omega)

theorem readBytes_writeBytes_self (m : ByteMemory) (a : Nat) (bs : List UInt8) :
    (m.writeBytes a bs).readBytes a bs.length = bs := by
  have h : (m.writeBytes a bs).readBytes (a + 0) bs.length = (bs.drop 0).take bs.length :=
    readBytes_writeBytes (by omega)
  rwa [Nat.add_zero, List.drop_zero, List.take_length] at h

theorem readBytes_writeBytes_of_apart {m : ByteMemory} {a b count : Nat} {bs : List UInt8}
    (h : b + count ≤ a ∨ a + bs.length ≤ b) :
    (m.writeBytes a bs).readBytes b count = m.readBytes b count :=
  readBytes_congr fun _ _ _ => writeBytes_outside (by omega)

/-- Bytes that are written one after the other, each at its address. -/
def writeAll (m : ByteMemory) (ws : List (Nat × List UInt8)) : ByteMemory :=
  ws.foldl (fun m w => m.writeBytes w.1 w.2) m

theorem writeAll_append (m : ByteMemory) (ws vs : List (Nat × List UInt8)) :
    m.writeAll (ws ++ vs) = (m.writeAll ws).writeAll vs := List.foldl_append ..

theorem readBytes_writeAll_of_apart {m : ByteMemory} {a count : Nat} {ws : List (Nat × List UInt8)}
    (h : ∀ w ∈ ws, a + count ≤ w.1 ∨ w.1 + w.2.length ≤ a) :
    (m.writeAll ws).readBytes a count = m.readBytes a count := by
  induction ws generalizing m with
  | nil => rfl
  | cons w ws ih =>
    exact (ih fun v hv => h v (List.mem_cons_of_mem _ hv)).trans
      (readBytes_writeBytes_of_apart (h w List.mem_cons_self))

theorem writeAll_outside {m : ByteMemory} {x : Nat} {ws : List (Nat × List UInt8)}
    (h : ∀ w ∈ ws, x < w.1 ∨ w.1 + w.2.length ≤ x) : m.writeAll ws x = m x := by
  induction ws generalizing m with
  | nil => rfl
  | cons w ws ih =>
    have hrest := ih (m := m.writeBytes w.1 w.2) fun v hv => h v (List.mem_cons_of_mem _ hv)
    exact hrest.trans (writeBytes_outside (h w List.mem_cons_self))

/-- The same bytes at several addresses, of which one holds the byte. -/
theorem writeAll_const {m : ByteMemory} {x a : Nat} {addrs : List Nat} {bs : List UInt8}
    (ha : a ∈ addrs) (hle : a ≤ x) (hlt : x < a + bs.length)
    (hone : ∀ b ∈ addrs, b ≤ x → x < b + bs.length → b = a) :
    m.writeAll (addrs.map fun b => (b, bs)) x = bs.getD (x - a) 0 := by
  induction addrs generalizing m with
  | nil => cases ha
  | cons b addrs ih =>
    show (m.writeBytes b bs).writeAll (addrs.map fun b => (b, bs)) x = _
    have hrest := fun c hc => hone c (List.mem_cons_of_mem _ hc)
    by_cases hin : a ∈ addrs
    · exact ih hin hrest
    · have hb : a = b := (List.mem_cons.mp ha).resolve_right hin
      rw [writeAll_outside]
      · rw [← hb]
        exact if_pos ⟨hle, hlt⟩
      · intro w hw
        obtain ⟨c, hc, hwc⟩ := List.mem_map.mp hw
        have hca : c ≤ x → x < c + bs.length → c = a := hrest c hc
        have hne : c ≠ a := fun heq => hin (heq ▸ hc)
        rw [← hwc]
        show x < c ∨ c + bs.length ≤ x
        by_contra hover
        exact hne (hca (by omega) (by omega))

/-- When no two of the writes overlap, each of them is read back. -/
theorem readBytes_writeAll {m : ByteMemory} {ws : List (Nat × List UInt8)}
    (hp : ws.Pairwise fun v w => v.1 + v.2.length ≤ w.1 ∨ w.1 + w.2.length ≤ v.1)
    {w : Nat × List UInt8} (hw : w ∈ ws) {k count : Nat} (hk : k + count ≤ w.2.length) :
    (m.writeAll ws).readBytes (w.1 + k) count = (w.2.drop k).take count := by
  induction ws generalizing m with
  | nil => simp at hw
  | cons v ws ih =>
    obtain ⟨hv, hp⟩ := List.pairwise_cons.mp hp
    rcases List.mem_cons.mp hw with rfl | hw
    · change ((m.writeBytes w.1 w.2).writeAll ws).readBytes (w.1 + k) count = _
      rw [readBytes_writeAll_of_apart, readBytes_writeBytes hk]
      intro x hx
      have := hv x hx
      omega
    · exact ih hp hw

/-- The bytes lie at the address. -/
def Holds (m : ByteMemory) (a : Nat) (bs : List UInt8) : Prop := m.readBytes a bs.length = bs

theorem Holds.part {m : ByteMemory} {a k count : Nat} {bs : List UInt8} (h : m.Holds a bs)
    (hk : k + count ≤ bs.length) : m.readBytes (a + k) count = (bs.drop k).take count := by
  have hsame : m.readBytes a bs.length = (m.writeBytes a bs).readBytes a bs.length := by
    rw [readBytes_writeBytes_self, h]
  rw [← readBytes_writeBytes (m := m) hk]
  apply readBytes_congr
  intro x hx hlt
  have hget := congrArg (fun xs => xs[x - a]?) hsame
  simp only [readBytes, List.getElem?_map] at hget
  rw [List.getElem?_range (by omega)] at hget
  simpa [show a + (x - a) = x by omega] using hget

theorem Holds.congr {m m' : ByteMemory} {a : Nat} {bs : List UInt8} (h : m.Holds a bs)
    (hsame : ∀ x, a ≤ x → x < a + bs.length → m' x = m x) : m'.Holds a bs :=
  (readBytes_congr hsame).trans h

theorem holds_writeAll {m : ByteMemory} {ws : List (Nat × List UInt8)}
    (hp : ws.Pairwise fun v w => v.1 + v.2.length ≤ w.1 ∨ w.1 + w.2.length ≤ v.1)
    {w : Nat × List UInt8} (hw : w ∈ ws) : (m.writeAll ws).Holds w.1 w.2 := by
  have h : (m.writeAll ws).readBytes (w.1 + 0) w.2.length = (w.2.drop 0).take w.2.length :=
    readBytes_writeAll hp hw (by omega)
  rwa [Nat.add_zero, List.drop_zero, List.take_length] at h

/-- What a write puts stays when no later one overlaps it. -/
theorem holds_writeAll_append {m : ByteMemory} (ws : List (Nat × List UInt8))
    {vs : List (Nat × List UInt8)} {a : Nat} {bs : List UInt8} (h : ∀ w ∈ vs, a + bs.length ≤ w.1 ∨ w.1 + w.2.length ≤ a) :
    (m.writeAll (ws ++ (a, bs) :: vs)).Holds a bs := by
  unfold Holds
  rw [writeAll_append]
  change ((ByteMemory.writeBytes (m.writeAll ws) a bs).writeAll vs).readBytes a bs.length = bs
  rw [readBytes_writeAll_of_apart h, readBytes_writeBytes_self]

end ByteMemory

end Speakeasy
