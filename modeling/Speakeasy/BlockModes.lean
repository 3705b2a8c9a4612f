import Speakeasy.ByteMemory
import Mathlib.Logic.Equiv.Defs
import Mathlib.Data.List.OfFn
import Mathlib.Data.List.GetD

namespace Speakeasy

/-- A block of a cipher. -/
abbrev Block (n : Nat) := Fin n → UInt8

namespace BlockModes

variable {n : Nat}

def xorBlock (a b : Block n) : Block n := fun i => a i ^^^ b i

def blockAt (n : Nat) (bs : List UInt8) (k : Nat) : Block n := fun i => bs.getD (n * k + i) 0

/-- The blocks of bytes; a rest that fills no block is left out. -/
def toBlocks (n : Nat) (bs : List UInt8) : List (Block n) := (List.range (bs.length / n)).map (blockAt n bs)

def ofBlocks (blocks : List (Block n)) : List UInt8 := blocks.flatMap List.ofFn

section Modes

variable (E : Equiv.Perm (Block n))

def ecbEncrypt (ps : List (Block n)) : List (Block n) := ps.map E

def ecbDecrypt (cs : List (Block n)) : List (Block n) := cs.map E.symm

def cbcEncrypt : Block n → List (Block n) → List (Block n)
  | _, [] => []
  | iv, p :: ps =>
    let c := E (xorBlock p iv)
    c :: cbcEncrypt c ps

def cbcDecrypt : Block n → List (Block n) → List (Block n)
  | _, [] => []
  | iv, c :: cs => xorBlock (E.symm c) iv :: cbcDecrypt c cs

example (iv p q : Block n) : cbcEncrypt E iv [p, q] = [E (xorBlock p iv), E (xorBlock q (E (xorBlock p iv)))] := by
  rw [cbcEncrypt]
  rfl

example (iv c d : Block n) : cbcDecrypt E iv [c, d] = [xorBlock (E.symm c) iv, xorBlock (E.symm d) c] := by
  rw [cbcDecrypt]
  rfl

/-- The block that the next block of a message is chained to. -/
def lastBlock (iv : Block n) (cs : List (Block n)) : Block n := cs.getLastD iv

end Modes

/-- PKCS7 -/
def pad (n : Nat) (bs : List UInt8) : List UInt8 :=
  let k := n - bs.length % n
  bs ++ List.replicate k (UInt8.ofNat k)

def unpad (n : Nat) (bs : List UInt8) : Option (List UInt8) :=
  if bs.length = 0 ∨ bs.length % n ≠ 0 then none
  else
    let last := bs.getLastD 0
    if last.toNat < 1 ∨ min n bs.length < last.toNat then none
    else if bs.drop (bs.length - last.toNat) ≠ List.replicate last.toNat last then none
    else some (bs.take (bs.length - last.toNat))

section Gcm

/-- The counter block of a 12-byte nonce. -/
def counterBlock (nonce : List UInt8) (i : Nat) : Block 16 := fun j =>
  (nonce ++ (toBytes 4 i).reverse).getD j 0

variable (E : Equiv.Perm (Block 16))

/-- Data with the encrypted counter blocks from a counter on. -/
def gctr (nonce : List UInt8) (first : Nat) (data : List UInt8) : List UInt8 :=
  data.mapIdx fun p b => b ^^^ E (counterBlock nonce (first + p / 16)) (Fin.ofNat 16 p)

/-- The product in the field of 2 ^ 128 elements, one bit of the first factor at a time from its highest. -/
def gfMulBits : Nat → Nat → Nat → Nat → Nat
  | 0, _, _, z => z
  | bit + 1, x, v, z =>
    let z := if x.testBit bit then z ^^^ v else z
    let v := if v.testBit 0 then (v / 2) ^^^ (0xE1 * 2 ^ 120) else v / 2
    gfMulBits bit x v z

def gfMul (x y : Nat) : Nat := gfMulBits 128 x y 0

def zeroPad (bs : List UInt8) : List UInt8 := bs ++ List.replicate ((16 - bs.length % 16) % 16) 0

def ghash (h : Nat) (data : List UInt8) : Nat :=
  (toBlocks 16 data).foldl (fun y b => gfMul (y ^^^ fromBytes (List.ofFn b).reverse) h) 0

def gcmTag (nonce aad : List UInt8) (tagLength : Nat) (data : List UInt8) : List UInt8 :=
  let h := fromBytes (List.ofFn (E fun _ => 0)).reverse
  let lengths := (toBytes 8 (8 * aad.length)).reverse ++ (toBytes 8 (8 * data.length)).reverse
  let hash := ghash h (zeroPad aad ++ zeroPad data ++ lengths)
  (gctr E nonce 1 (toBytes 16 hash).reverse).take tagLength

def gcmEncrypt (nonce aad : List UInt8) (tagLength : Nat) (data : List UInt8) : List UInt8 × List UInt8 :=
  let out := gctr E nonce 2 data
  (out, gcmTag E nonce aad tagLength out)

def gcmDecrypt (nonce aad : List UInt8) (tagLength : Nat) (data tag : List UInt8) : Option (List UInt8) :=
  if tag = gcmTag E nonce aad tagLength data then some (gctr E nonce 2 data) else none

end Gcm

@[simp] theorem xorBlock_cancel (a b : Block n) : xorBlock (xorBlock a b) b = a := by
  funext i
  simp only [xorBlock, UInt8.xor_assoc, UInt8.xor_self, UInt8.xor_zero]

@[simp] theorem ofBlocks_length (blocks : List (Block n)) : (ofBlocks blocks).length = blocks.length * n := by
  unfold ofBlocks
  induction blocks with
  | nil => simp
  | cons b blocks ih => rw [List.flatMap_cons, List.length_append, List.length_ofFn, ih, List.length_cons,
      Nat.succ_mul, Nat.add_comm]

theorem ofBlocks_append (as bs : List (Block n)) : ofBlocks (as ++ bs) = ofBlocks as ++ ofBlocks bs :=
  List.flatMap_append

@[simp] theorem toBlocks_length (n : Nat) (bs : List UInt8) : (toBlocks n bs).length = bs.length / n := by
  simp [toBlocks]

theorem toBlocks_cons (hn : 0 < n) (b : Block n) (bs : List UInt8) :
    toBlocks n (List.ofFn b ++ bs) = b :: toBlocks n bs := by
  have hcount : (List.ofFn b ++ bs).length / n = bs.length / n + 1 := by
    rw [List.length_append, List.length_ofFn, Nat.add_div_left _ hn]
  unfold toBlocks
  rw [hcount, List.range_succ_eq_map, List.map_cons, List.map_map]
  congr 1
  · funext i
    have hi : n * 0 + i.val < (List.ofFn b).length := by
      rw [List.length_ofFn, Nat.mul_zero, Nat.zero_add]
      exact i.isLt
    simp only [blockAt]
    rw [List.getD_append _ _ _ _ hi, List.getD_eq_getElem _ _ hi]
    simp
  · refine List.map_congr_left fun k _ => ?_
    funext i
    have hskip : n * (k + 1) + i.val = (List.ofFn b).length + (n * k + i.val) := by
      rw [List.length_ofFn, Nat.mul_succ]
      omega
    simp only [Function.comp_apply, blockAt, Nat.succ_eq_add_one]
    rw [hskip, List.getD_append_right _ _ _ _ (Nat.le_add_right _ _), Nat.add_sub_cancel_left]

theorem toBlocks_ofBlocks (hn : 0 < n) (blocks : List (Block n)) : toBlocks n (ofBlocks blocks) = blocks := by
  induction blocks with
  | nil => simp [toBlocks, ofBlocks]
  | cons b blocks ih =>
    show toBlocks n (List.ofFn b ++ ofBlocks blocks) = b :: blocks
    rw [toBlocks_cons hn, ih]

/-- Bytes of whole blocks. -/
theorem exists_ofBlocks {count : Nat} {bs : List UInt8} (h : bs.length = count * n) :
    ∃ blocks : List (Block n), bs = ofBlocks blocks := by
  induction count generalizing bs with
  | zero =>
    rw [Nat.zero_mul] at h
    exact ⟨[], List.length_eq_zero_iff.mp h⟩
  | succ count ih =>
    rw [Nat.succ_mul] at h
    have hdrop : (bs.drop n).length = count * n := by
      rw [List.length_drop]
      omega
    obtain ⟨blocks, hblocks⟩ := ih hdrop
    refine ⟨blockAt n bs 0 :: blocks, ?_⟩
    have htake : List.ofFn (blockAt n bs 0) = bs.take n := by
      apply List.ext_getElem
      · rw [List.length_ofFn, List.length_take]
        omega
      · intro i hi hi'
        rw [List.length_ofFn] at hi
        simp only [List.getElem_ofFn, blockAt, Nat.mul_zero, Nat.zero_add, List.getElem_take]
        rw [List.getD_eq_getElem]
    show bs = List.ofFn (blockAt n bs 0) ++ ofBlocks blocks
    rw [htake, ← hblocks, List.take_append_drop]

theorem ofBlocks_toBlocks (hn : 0 < n) {bs : List UInt8} (h : bs.length % n = 0) :
    ofBlocks (toBlocks n bs) = bs := by
  have hlen : bs.length = bs.length / n * n := (Nat.div_mul_cancel (Nat.dvd_of_mod_eq_zero h)).symm
  obtain ⟨blocks, rfl⟩ := exists_ofBlocks hlen
  rw [toBlocks_ofBlocks hn]

theorem toBlocks_append (hn : 0 < n) {as bs : List UInt8} (has : as.length % n = 0) :
    toBlocks n (as ++ bs) = toBlocks n as ++ toBlocks n bs := by
  have hlen : as.length = as.length / n * n := (Nat.div_mul_cancel (Nat.dvd_of_mod_eq_zero has)).symm
  obtain ⟨blocks, rfl⟩ := exists_ofBlocks hlen
  rw [toBlocks_ofBlocks hn]
  clear has hlen
  induction blocks with
  | nil => rfl
  | cons b blocks ih =>
    show toBlocks n (List.ofFn b ++ ofBlocks blocks ++ bs) = b :: (blocks ++ toBlocks n bs)
    rw [List.append_assoc, toBlocks_cons hn, ih]

section Modes

variable (E : Equiv.Perm (Block n))

@[simp] theorem ecbEncrypt_length (ps : List (Block n)) : (ecbEncrypt E ps).length = ps.length :=
  List.length_map _

@[simp] theorem ecbDecrypt_length (cs : List (Block n)) : (ecbDecrypt E cs).length = cs.length :=
  List.length_map _

@[simp] theorem cbcEncrypt_length (iv : Block n) (ps : List (Block n)) :
    (cbcEncrypt E iv ps).length = ps.length := by
  induction ps generalizing iv with
  | nil => rfl
  | cons p ps ih => rw [cbcEncrypt, List.length_cons, ih, List.length_cons]

@[simp] theorem cbcDecrypt_length (iv : Block n) (cs : List (Block n)) :
    (cbcDecrypt E iv cs).length = cs.length := by
  induction cs generalizing iv with
  | nil => rfl
  | cons c cs ih => rw [cbcDecrypt, List.length_cons, ih, List.length_cons]

theorem ecbDecrypt_ecbEncrypt (ps : List (Block n)) : ecbDecrypt E (ecbEncrypt E ps) = ps := by
  unfold ecbDecrypt ecbEncrypt
  rw [List.map_map, Equiv.symm_comp_self, List.map_id]

theorem cbcDecrypt_cbcEncrypt (iv : Block n) (ps : List (Block n)) :
    cbcDecrypt E iv (cbcEncrypt E iv ps) = ps := by
  induction ps generalizing iv with
  | nil => rfl
  | cons p ps ih =>
    rw [cbcEncrypt, cbcDecrypt, Equiv.symm_apply_apply, xorBlock_cancel, ih]

theorem lastBlock_cons (iv c : Block n) (cs : List (Block n)) : lastBlock iv (c :: cs) = lastBlock c cs :=
  List.getLastD_cons ..

theorem cbcEncrypt_append (iv : Block n) (ps qs : List (Block n)) :
    cbcEncrypt E iv (ps ++ qs) =
      cbcEncrypt E iv ps ++ cbcEncrypt E (lastBlock iv (cbcEncrypt E iv ps)) qs := by
  induction ps generalizing iv with
  | nil => rfl
  | cons p ps ih =>
    rw [List.cons_append, cbcEncrypt, cbcEncrypt, ih, List.cons_append, lastBlock_cons]

theorem cbcDecrypt_append (iv : Block n) (cs ds : List (Block n)) :
    cbcDecrypt E iv (cs ++ ds) = cbcDecrypt E iv cs ++ cbcDecrypt E (lastBlock iv cs) ds := by
  induction cs generalizing iv with
  | nil => rfl
  | cons c cs ih => rw [List.cons_append, cbcDecrypt, cbcDecrypt, ih, List.cons_append, lastBlock_cons]

end Modes

theorem pad_length (n : Nat) (bs : List UInt8) : (pad n bs).length = bs.length + (n - bs.length % n) := by
  simp [pad]

theorem pad_mod (hn : 0 < n) (bs : List UInt8) : (pad n bs).length % n = 0 := by
  have hlt := Nat.mod_lt bs.length hn
  have hdiv := Nat.div_add_mod bs.length n
  have hsum : (pad n bs).length = n * (bs.length / n + 1) := by
    rw [pad_length, Nat.mul_succ]
    omega
  rw [hsum, Nat.mul_mod_right]

theorem unpad_pad (hn : 0 < n) (hbyte : n < 256) (bs : List UInt8) : unpad n (pad n bs) = some bs := by
  have hlt := Nat.mod_lt bs.length hn
  obtain ⟨k, hk⟩ : ∃ k, n - bs.length % n = k + 1 := ⟨n - bs.length % n - 1, by omega⟩
  have hlen : (pad n bs).length = bs.length + (k + 1) := by rw [pad_length, hk]
  have hpad : pad n bs = bs ++ List.replicate (k + 1) (UInt8.ofNat (k + 1)) := by
    unfold pad
    rw [hk]
  have hlast : (pad n bs).getLastD 0 = UInt8.ofNat (k + 1) := by
    rw [hpad, List.replicate_succ', ← List.append_assoc, List.getLastD_concat]
  have hnat : (UInt8.ofNat (k + 1)).toNat = k + 1 := by
    rw [UInt8.toNat_ofNat']
    exact Nat.mod_eq_of_lt (by omega)
  have hblock : n ≤ (pad n bs).length := by
    have hdvd := Nat.dvd_of_mod_eq_zero (pad_mod hn bs)
    exact Nat.le_of_dvd (by omega) hdvd
  have hback : (pad n bs).length - (k + 1) = bs.length := by omega
  unfold unpad
  rw [if_neg (by rw [pad_mod hn bs]; omega)]
  dsimp only
  rw [hlast, hnat, hback, if_neg (by omega), hpad, List.drop_left, List.take_left, if_neg (not_not.mpr rfl)]

/-- What is taken off is the padding of what is left. -/
theorem pad_of_unpad {bs cs : List UInt8} (h : unpad n bs = some cs) : pad n cs = bs := by
  unfold unpad at h
  dsimp only at h
  split_ifs at h with hwhole hsize hbytes
  cases h
  obtain ⟨k, hk⟩ : ∃ k, (bs.getLastD 0).toNat = k := ⟨_, rfl⟩
  obtain ⟨q, hq⟩ : ∃ q, bs.length = n * q := Nat.dvd_of_mod_eq_zero (by omega)
  have hfill : n - (bs.length - k) % n = k := by
    by_cases hblock : k = n
    · have hmod : (bs.length - n) % n = 0 := by
        rw [hq, show n * q - n = n * (q - 1) by rw [Nat.mul_sub_one], Nat.mul_mod_right]
      rw [hblock, hmod, Nat.sub_zero]
    · obtain ⟨p, rfl⟩ : ∃ p, q = p + 1 := Nat.exists_eq_succ_of_ne_zero (by
        rintro rfl
        omega)
      have hsplit : bs.length - k = n * p + (n - k) := by
        rw [hq, Nat.mul_succ]
        omega
      rw [hsplit, Nat.mul_add_mod, Nat.mod_eq_of_lt (by omega)]
      omega
  have hlast : UInt8.ofNat k = bs.getLastD 0 := by rw [← hk, UInt8.ofNat_toNat]
  have htail : bs.drop (bs.length - k) = List.replicate k (bs.getLastD 0) := by
    rw [← hk]
    exact not_not.mp hbytes
  unfold pad
  dsimp only
  rw [hk, List.length_take, Nat.min_eq_left (Nat.sub_le _ _), hfill, hlast, ← htail, List.take_append_drop]

theorem unpad_length {bs cs : List UInt8} (h : unpad n bs = some cs) : cs.length ≤ bs.length := by
  unfold unpad at h
  dsimp only at h
  split_ifs at h
  cases h
  rw [List.length_take]
  omega

/-- The padding is in the last block. -/
theorem unpad_append {as bs : List UInt8} (has : as.length % n = 0) (hbs : bs ≠ []) :
    unpad n (as ++ bs) = (unpad n bs).map (as ++ ·) := by
  have hpos : 0 < bs.length := List.length_pos_of_ne_nil hbs
  have hmod : (as ++ bs).length % n = bs.length % n := by
    rw [List.length_append, Nat.add_mod, has, Nat.zero_add, Nat.mod_mod]
  have hlast : (as ++ bs).getLastD 0 = bs.getLastD 0 := by
    rw [List.getLastD_eq_getLast?, List.getLastD_eq_getLast?, List.getLast?_append_of_ne_nil _ hbs]
  unfold unpad
  rw [hmod, hlast]
  by_cases hwhole : bs.length % n = 0
  · have hblock : n ≤ bs.length := Nat.le_of_dvd hpos (Nat.dvd_of_mod_eq_zero hwhole)
    have hlen : (as ++ bs).length = as.length + bs.length := List.length_append
    have hall : ¬((as ++ bs).length = 0 ∨ bs.length % n ≠ 0) := by omega
    have hown : ¬(bs.length = 0 ∨ bs.length % n ≠ 0) := by omega
    have hmin : min n (as ++ bs).length = min n bs.length := by omega
    rw [if_neg hall, if_neg hown]
    dsimp only
    rw [hmin]
    by_cases hk : (bs.getLastD 0).toNat < 1 ∨ min n bs.length < (bs.getLastD 0).toNat
    · rw [if_pos hk, if_pos hk]
      rfl
    · have hback : (as ++ bs).length - (bs.getLastD 0).toNat =
          as.length + (bs.length - (bs.getLastD 0).toNat) := by omega
      rw [if_neg hk, if_neg hk, hback, List.drop_length_add_append, List.take_length_add_append]
      split_ifs
      · rfl
      · rfl
  · rw [if_pos (Or.inr hwhole), if_pos (Or.inr hwhole)]
    rfl

section Gcm

variable (E : Equiv.Perm (Block 16))

@[simp] theorem gctr_length (nonce : List UInt8) (first : Nat) (data : List UInt8) :
    (gctr E nonce first data).length = data.length := List.length_mapIdx

theorem gctr_gctr (nonce : List UInt8) (first : Nat) (data : List UInt8) :
    gctr E nonce first (gctr E nonce first data) = data := by
  unfold gctr
  rw [List.mapIdx_mapIdx]
  apply List.ext_getElem
  · rw [List.length_mapIdx]
  · intro i _ _
    simp only [List.getElem_mapIdx, Function.comp_apply, UInt8.xor_assoc, UInt8.xor_self, UInt8.xor_zero]

theorem gcmDecrypt_gcmEncrypt (nonce aad : List UInt8) (tagLength : Nat) (data : List UInt8) :
    gcmDecrypt E nonce aad tagLength (gcmEncrypt E nonce aad tagLength data).1
      (gcmEncrypt E nonce aad tagLength data).2 = some data := by
  unfold gcmDecrypt gcmEncrypt
  dsimp only
  rw [if_pos rfl, gctr_gctr]

theorem gcmEncrypt_length {tagLength : Nat} (h : tagLength ≤ 16) (nonce aad data : List UInt8) :
    (gcmEncrypt E nonce aad tagLength data).1.length = data.length ∧
      (gcmEncrypt E nonce aad tagLength data).2.length = tagLength := by
  refine ⟨gctr_length E nonce 2 data, ?_⟩
  simp only [gcmEncrypt, gcmTag]
  rw [List.length_take, gctr_length, List.length_reverse, toBytes_length]
  exact Nat.min_eq_left h

end Gcm

end BlockModes

end Speakeasy
