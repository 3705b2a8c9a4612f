import Speakeasy.AesCalls

namespace Speakeasy

open BlockModes

/-- The data that a CBC call takes to the cipher. -/
def cbcData (encrypt padding : Bool) (data : List UInt8) : List UInt8 :=
  if encrypt && padding then pad 16 data else data

/-- The output of a CBC call whose output buffer is large enough; there is none when it fails. -/
def cbcText (E : Equiv.Perm (Block 16)) (encrypt padding : Bool) (iv data : List UInt8) : Option (List UInt8) :=
  if (cbcData encrypt padding data).length % 16 ≠ 0 then none
  else
    let out := cryptBlocks E true encrypt iv (cbcData encrypt padding data)
    if !encrypt && padding then unpad 16 out else some out

/-- The IV that follows cipher text. -/
def chainIv (iv text : List UInt8) : List UInt8 := if lastBytes text = [] then iv else lastBytes text

/-- The IV after a CBC call. -/
def cbcIv (E : Equiv.Perm (Block 16)) (encrypt padding : Bool) (iv data : List UInt8) : List UInt8 :=
  let data := cbcData encrypt padding data
  chainIv iv (if encrypt then cryptBlocks E true encrypt iv data else data)

variable {E : Equiv.Perm (Block 16)} {cbc encrypt padding : Bool} {iv data as bs : List UInt8}

theorem cryptBlocks_length (E : Equiv.Perm (Block 16)) (cbc encrypt : Bool) (iv : List UInt8)
    (h : data.length % 16 = 0) : (cryptBlocks E cbc encrypt iv data).length = data.length := by
  have hlen : data.length / 16 * 16 = data.length := Nat.div_mul_cancel (Nat.dvd_of_mod_eq_zero h)
  unfold cryptBlocks
  cases cbc with
  | true => cases encrypt <;> simp [hlen]
  | false => cases encrypt <;> simp [hlen]

/-- Decryption undoes encryption. -/
theorem cryptBlocks_cancel (E : Equiv.Perm (Block 16)) (cbc : Bool) (iv : List UInt8)
    (h : data.length % 16 = 0) :
    cryptBlocks E cbc false iv (cryptBlocks E cbc true iv data) = data := by
  unfold cryptBlocks
  dsimp only
  rw [toBlocks_ofBlocks (by decide)]
  cases cbc with
  | true =>
    dsimp only
    rw [cbcDecrypt_cbcEncrypt, ofBlocks_toBlocks (by decide) h]
  | false =>
    dsimp only
    rw [ecbDecrypt_ecbEncrypt, ofBlocks_toBlocks (by decide) h]

theorem lastBytes_length (h : data.length % 16 = 0) (hne : data ≠ []) : (lastBytes data).length = 16 := by
  have hpos : 0 < data.length := List.length_pos_of_ne_nil hne
  have hle : 16 ≤ data.length := Nat.le_of_dvd hpos (Nat.dvd_of_mod_eq_zero h)
  rw [lastBytes, List.length_drop]
  omega

theorem lastBytes_eq_nil (h : data.length % 16 = 0) : lastBytes data = [] ↔ data = [] := by
  constructor
  · intro hnil
    by_contra hne
    have hlen := lastBytes_length h hne
    rw [hnil] at hlen
    cases hlen
  · rintro rfl
    rfl

theorem lastBytes_append (has : as.length % 16 = 0) (hbs : bs.length % 16 = 0) (hne : bs ≠ []) :
    lastBytes (as ++ bs) = lastBytes bs := by
  have hpos : 0 < bs.length := List.length_pos_of_ne_nil hne
  have hle : 16 ≤ bs.length := Nat.le_of_dvd hpos (Nat.dvd_of_mod_eq_zero hbs)
  have hback : (as ++ bs).length - 16 = as.length + (bs.length - 16) := by
    rw [List.length_append]
    omega
  rw [lastBytes, hback, List.drop_length_add_append]
  rfl

theorem chainIv_append (has : as.length % 16 = 0) (hbs : bs.length % 16 = 0) :
    chainIv iv (as ++ bs) = chainIv (chainIv iv as) bs := by
  by_cases hempty : bs = []
  · subst hempty
    rw [List.append_nil]
    rfl
  · have hlast : lastBytes bs ≠ [] := fun h => hempty ((lastBytes_eq_nil hbs).mp h)
    rw [chainIv, lastBytes_append has hbs hempty, if_neg hlast, chainIv, if_neg hlast]

theorem blockAt_ofFn (b : Block 16) : blockAt 16 (List.ofFn b) 0 = b := by
  funext i
  simp only [blockAt, Nat.mul_zero, Nat.zero_add]
  rw [List.getD_eq_getElem _ _ (by rw [List.length_ofFn]; exact i.isLt), List.getElem_ofFn]

/-- The last bytes of blocks are the block that the next block is chained to. -/
theorem blockAt_lastBytes (iv : List UInt8) (blocks : List (Block 16)) :
    blockAt 16 (chainIv iv (ofBlocks blocks)) 0 = lastBlock (blockAt 16 iv 0) blocks := by
  rcases List.eq_nil_or_concat blocks with rfl | ⟨init, b, rfl⟩
  · rfl
  · have hwhole : (ofBlocks init).length % 16 = 0 := by rw [ofBlocks_length, Nat.mul_mod_left]
    have hone : ofBlocks [b] = List.ofFn b := by simp [ofBlocks]
    have hlen : (List.ofFn b).length = 16 := List.length_ofFn
    have hlast : lastBytes (ofBlocks (init ++ [b])) = List.ofFn b := by
      rw [ofBlocks_append, hone, lastBytes_append hwhole (by rw [hlen]) (List.ne_nil_of_length_eq_add_one hlen)]
      rw [lastBytes, hlen]
      rfl
    rw [List.concat_eq_append, chainIv, hlast, if_neg (List.ne_nil_of_length_eq_add_one hlen), blockAt_ofFn, lastBlock,
      List.getLastD_concat]

theorem cbcData_false : cbcData encrypt false data = data := by
  unfold cbcData
  rw [Bool.and_false]
  rfl

/-- A message whose first part is whole blocks: the second part goes on with the IV of the first. -/
theorem cryptBlocks_append (has : as.length % 16 = 0) :
    cryptBlocks E true encrypt iv (as ++ bs) =
      cryptBlocks E true encrypt iv as ++ cryptBlocks E true encrypt (cbcIv E encrypt false iv as) bs := by
  unfold cbcIv
  rw [cbcData_false]
  cases encrypt with
  | true =>
    simp only [if_true]
    have hiv := blockAt_lastBytes iv (cbcEncrypt E (blockAt 16 iv 0) (toBlocks 16 as))
    unfold cryptBlocks
    dsimp only
    rw [hiv, toBlocks_append (by decide) has, cbcEncrypt_append, ofBlocks_append]
  | false =>
    simp only [Bool.false_eq_true, if_false]
    have hiv := blockAt_lastBytes iv (toBlocks 16 as)
    rw [ofBlocks_toBlocks (by decide) has] at hiv
    unfold cryptBlocks
    dsimp only
    rw [hiv, toBlocks_append (by decide) has, cbcDecrypt_append, ofBlocks_append]

theorem pad_append (has : as.length % 16 = 0) : pad 16 (as ++ bs) = as ++ pad 16 bs := by
  have hmod : (as ++ bs).length % 16 = bs.length % 16 := by
    rw [List.length_append]
    omega
  unfold pad
  rw [hmod, List.append_assoc]

theorem cbcData_append (has : as.length % 16 = 0) :
    cbcData encrypt padding (as ++ bs) = as ++ cbcData encrypt padding bs := by
  unfold cbcData
  split
  next => exact pad_append has
  next => rfl

theorem cbcText_append (has : as.length % 16 = 0)
    (hlast : encrypt = false → padding = true → bs = [] → as = []) :
    cbcText E encrypt padding iv (as ++ bs) =
      (cbcText E encrypt padding (cbcIv E encrypt false iv as) bs).map (cryptBlocks E true encrypt iv as ++ ·) := by
  have hmod : (as ++ cbcData encrypt padding bs).length % 16 = (cbcData encrypt padding bs).length % 16 := by
    rw [List.length_append]
    omega
  unfold cbcText
  rw [cbcData_append has, hmod]
  by_cases hwhole : (cbcData encrypt padding bs).length % 16 = 0
  · rw [if_neg (not_not.mpr hwhole), if_neg (not_not.mpr hwhole)]
    dsimp only
    rw [cryptBlocks_append has]
    by_cases hunpad : (!encrypt && padding) = true
    · rw [if_pos hunpad, if_pos hunpad]
      rw [Bool.and_eq_true, Bool.not_eq_true'] at hunpad
      have hdata : cbcData encrypt padding bs = bs := by rw [cbcData, hunpad.1, Bool.false_and]; rfl
      rw [hdata] at hwhole ⊢
      have hfirst : (cryptBlocks E true encrypt iv as).length % 16 = 0 := by rw [cryptBlocks_length _ _ _ _ has, has]
      by_cases hempty : bs = []
      · have hnil := hlast hunpad.1 hunpad.2 hempty
        subst hempty hnil
        rw [hunpad.1]
        rfl
      · refine unpad_append hfirst fun hnil => hempty ?_
        have hlen := cryptBlocks_length E true encrypt (cbcIv E encrypt false iv as) hwhole
        rw [hnil] at hlen
        exact List.length_eq_zero_iff.mp hlen.symm
    · rw [if_neg hunpad, if_neg hunpad]
      rfl
  · rw [if_pos hwhole, if_pos hwhole]
    rfl

theorem cbcIv_append (has : as.length % 16 = 0) (hbs : (cbcData encrypt padding bs).length % 16 = 0) :
    cbcIv E encrypt padding iv (as ++ bs) = cbcIv E encrypt padding (cbcIv E encrypt false iv as) bs := by
  have hfirst : (cryptBlocks E true encrypt iv as).length % 16 = 0 := by rw [cryptBlocks_length _ _ _ _ has, has]
  have hsecond : (cryptBlocks E true encrypt (cbcIv E encrypt false iv as)
      (cbcData encrypt padding bs)).length % 16 = 0 := by
    rw [cryptBlocks_length _ _ _ _ hbs, hbs]
  have hjoin := @cryptBlocks_append E encrypt iv as (cbcData encrypt padding bs) has
  have hown : cbcIv E encrypt false iv as =
      chainIv iv (if encrypt then cryptBlocks E true encrypt iv as else as) := by
    rw [cbcIv, cbcData_false]
  conv_lhs => rw [cbcIv]
  conv_rhs => rw [cbcIv]
  rw [cbcData_append has]
  cases encrypt with
  | true =>
    simp only [if_true] at hown ⊢
    rw [hjoin, chainIv_append hfirst hsecond, ← hown]
  | false =>
    simp only [Bool.false_eq_true, if_false] at hown ⊢
    rw [chainIv_append has hbs, ← hown]

end Speakeasy
