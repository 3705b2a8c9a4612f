import Speakeasy.IntegerTexts

namespace Speakeasy

section

variable {base : Nat} {text body : List UInt8}

/-- All elements of a prefix satisfy `p`, so the longest such prefix is not shorter. -/
theorem length_le_takeWhile {p : UInt8 → Bool} {pre text : List UInt8} (hpre : pre <+: text) (hall : ∀ c ∈ pre, p c = true) :
    pre.length ≤ (text.takeWhile p).length := by
  obtain ⟨rest, rfl⟩ := hpre
  rw [List.takeWhile_append_of_pos hall, List.length_append]
  omega

theorem NumberBody.first (h : NumberBody base body) :
    ∃ c rest, body = c :: rest ∧ PyBytes.isSpace c = false ∧ c ≠ 43 ∧ c ≠ 45 := by
  cases h with
  | hex => exact ⟨48, _, rfl, by decide, by decide, by decide⟩
  | octal => exact ⟨48, _, rfl, by decide, by decide, by decide⟩
  | decimal _ _ hall =>
    have hdigit := hall _ List.mem_cons_self
    exact ⟨_, _, rfl, digit_not_space hdigit, digit_ne_sign hdigit⟩
  | plain _ hall =>
    have hdigit := hall _ List.mem_cons_self
    exact ⟨_, _, rfl, digit_not_space hdigit, digit_ne_sign hdigit⟩

theorem hexPrefix_eq {text : List UInt8} (h : hexPrefix text = true) :
    ∃ x c rest, text = 48 :: x :: c :: rest ∧ lowerByte x = 120 ∧ isDigit 16 c = true := by
  unfold hexPrefix at h
  split at h
  next x c rest =>
    obtain ⟨hmark, hdigit⟩ := Bool.and_eq_true_iff.mp h
    exact ⟨x, c, rest, rfl, of_decide_eq_true hmark, hdigit⟩
  next => cases h

/-- What the base of a text is, and the bytes of its prefix. -/
theorem takeBase_cases (base : Nat) (text : List UInt8) :
    ((base = 0 ∨ base = 16) ∧ hexPrefix text = true ∧ takeBase base text = (16, 2)) ∨
    (base = 0 ∧ hexPrefix text = false ∧ takeBase base text = (if text.head? = some 48 then 8 else 10, 0)) ∨
    (base ≠ 0 ∧ (base = 16 → hexPrefix text = false) ∧ takeBase base text = (base, 0)) := by
  unfold takeBase
  by_cases hhex : (base = 0 ∨ base = 16) ∧ hexPrefix text = true
  · exact Or.inl ⟨hhex.1, hhex.2, if_pos hhex⟩
  · rw [if_neg hhex]
    have hfalse : (base = 0 ∨ base = 16) → hexPrefix text = false := by
      intro hbase
      cases hp : hexPrefix text with
      | false => rfl
      | true => exact absurd ⟨hbase, hp⟩ hhex
    by_cases hzero : base = 0
    · exact Or.inr (Or.inl ⟨hzero, hfalse (Or.inl hzero), if_pos hzero⟩)
    · exact Or.inr (Or.inr ⟨hzero, fun h16 => hfalse (Or.inr h16), if_neg hzero⟩)

/-- A digit that the prefix follows is alone. -/
theorem length_of_marked {b : Nat} (hb : b ≤ 16) {c : UInt8} {digits text : List UInt8} (hpre : c :: digits <+: text)
    (hhex : hexPrefix text = true) (hall : ∀ d ∈ digits, isDigit b d = true) : (c :: digits).length = 1 := by
  obtain ⟨x, e, rest, rfl, hmark, _⟩ := hexPrefix_eq hhex
  cases digits with
  | nil => rfl
  | cons d digits =>
    obtain ⟨_, hpre⟩ := List.cons_prefix_cons.mp hpre
    obtain ⟨hd, _⟩ := List.cons_prefix_cons.mp hpre
    have hdigit := hall d List.mem_cons_self
    rw [hd, not_digit_of_mark hmark hb] at hdigit
    cases hdigit

/-- No digits of a number are longer than those that are read. -/
theorem NumberBody.length_le (h : NumberBody base body) (hpre : body <+: text) :
    body.length ≤ (takeBase base text).2 +
      ((text.drop (takeBase base text).2).takeWhile (isDigit (takeBase base text).1)).length := by
  cases h with
  | @hex x digits hbase hmark hne hall =>
    obtain ⟨c, digits', rfl⟩ := List.exists_cons_of_ne_nil hne
    obtain ⟨rest, rfl⟩ := hpre
    have hhex : hexPrefix (48 :: x :: c :: digits' ++ rest) = true :=
      Bool.and_eq_true_iff.mpr ⟨decide_eq_true hmark, hall c List.mem_cons_self⟩
    have htake : takeBase base (48 :: x :: c :: digits' ++ rest) = (16, 2) := if_pos ⟨hbase, hhex⟩
    rw [htake]
    have hle := length_le_takeWhile (List.prefix_append (c :: digits') rest) hall
    show (c :: digits').length + 1 + 1 ≤ 2 + ((c :: digits' ++ rest).takeWhile (isDigit 16)).length
    omega
  | @octal digits hbase hall =>
    obtain ⟨_, hhex, htake⟩ | ⟨_, _, htake⟩ | ⟨hne, _, _⟩ := takeBase_cases base text
    · rw [htake, length_of_marked (show 8 ≤ 16 by decide) hpre hhex hall]
      omega
    · rw [htake]
      obtain ⟨rest, rfl⟩ := hpre
      have hhead : (48 :: digits ++ rest).head? = some (48 : UInt8) := rfl
      rw [if_pos hhead]
      have hle := length_le_takeWhile (p := isDigit 8) (List.prefix_append _ rest)
        (List.forall_mem_cons.mpr ⟨isDigit_zero (by decide), hall⟩)
      exact Nat.le_trans hle (Nat.le_add_left _ _)
    · exact absurd hbase hne
  | @decimal c digits hbase hc hall =>
    obtain ⟨_, hhex, _⟩ | ⟨_, _, htake⟩ | ⟨hne, _, _⟩ := takeBase_cases base text
    · obtain ⟨x, e, rest, rfl, _, _⟩ := hexPrefix_eq hhex
      exact absurd (List.cons_prefix_cons.mp hpre).1 hc
    · rw [htake]
      obtain ⟨rest, rfl⟩ := hpre
      have hhead : ¬(c :: digits ++ rest).head? = some 48 := fun heq => hc (Option.some.inj heq)
      rw [if_neg hhead]
      have hle := length_le_takeWhile (List.prefix_append _ rest) hall
      exact Nat.le_trans hle (Nat.le_add_left _ _)
    · exact absurd hbase hne
  | plain hbase hall =>
    obtain ⟨hor, hhex, htake⟩ | ⟨hzero, _, _⟩ | ⟨_, _, htake⟩ := takeBase_cases base text
    · have h16 := hor.resolve_left hbase
      rw [htake, length_of_marked (show base ≤ 16 by omega) hpre hhex fun d hd => hall d (List.mem_cons_of_mem _ hd)]
      omega
    · exact absurd hzero hbase
    · rw [htake]
      exact Nat.le_trans (length_le_takeWhile hpre hall) (Nat.le_add_left _ _)

theorem mem_takeWhile {p : UInt8 → Bool} {c : UInt8} (h : c ∈ text.takeWhile p) : p c = true := by
  induction text with
  | nil => cases h
  | cons d text ih =>
    by_cases hd : p d = true
    · rw [List.takeWhile_cons_of_pos hd] at h
      cases List.mem_cons.mp h with
      | inl heq => rw [heq]; exact hd
      | inr hin => exact ih hin
    · rw [List.takeWhile_cons_of_neg hd] at h
      cases h

/-- What is read is a number, when it has a digit. -/
theorem numberBody_take {used : Nat} (hused : ((text.drop (takeBase base text).2).takeWhile
    (isDigit (takeBase base text).1)).length = used) (hpos : 0 < used) :
    NumberBody base (text.take ((takeBase base text).2 + used)) := by
  have htaken : ∀ {p : UInt8 → Bool} {l : List UInt8}, l.take (l.takeWhile p).length = l.takeWhile p := fun {p l} =>
    (List.prefix_iff_eq_take.mp (List.takeWhile_prefix p)).symm
  obtain ⟨hor, hhex, htake⟩ | ⟨hzero, _, htake⟩ | ⟨hne, _, htake⟩ := takeBase_cases base text
  · rw [htake] at hused ⊢
    obtain ⟨x, c, rest, rfl, hmark, _⟩ := hexPrefix_eq hhex
    have hbody : (48 :: x :: c :: rest).take (2 + used) = 48 :: x :: (c :: rest).takeWhile (isDigit 16) := by
      rw [← hused, Nat.add_comm]
      show 48 :: x :: (c :: rest).take ((c :: rest).takeWhile (isDigit 16)).length = _
      rw [htaken]
    rw [hbody]
    refine .hex hor hmark (fun hnil => ?_) fun d hd => mem_takeWhile hd
    have hlen : ((c :: rest).takeWhile (isDigit 16)).length = used := hused
    rw [hnil, List.length_nil] at hlen
    omega
  · rw [htake] at hused ⊢
    simp only [List.drop_zero] at hused
    rw [Nat.zero_add, ← hused, htaken]
    have hne : text.takeWhile (isDigit (if text.head? = some 48 then 8 else 10)) ≠ [] := by
      intro hnil
      rw [hnil, List.length_nil] at hused
      omega
    cases text with
    | nil => exact absurd rfl hne
    | cons c rest =>
      by_cases hc : c = 48
      · rw [hc] at hne ⊢
        have hhead : (48 :: rest).head? = some (48 : UInt8) := rfl
        rw [if_pos hhead, List.takeWhile_cons_of_pos (by decide)]
        exact .octal hzero fun d hd => mem_takeWhile hd
      · have hhead : ¬(c :: rest).head? = some 48 := fun heq => hc (Option.some.inj heq)
        rw [if_neg hhead] at hne ⊢
        have hdigit : isDigit 10 c = true := by
          by_contra hno
          exact hne (List.takeWhile_cons_of_neg hno)
        have hall : ∀ d ∈ (c :: rest).takeWhile (isDigit 10), isDigit 10 d = true := fun d hd => mem_takeWhile hd
        rw [List.takeWhile_cons_of_pos hdigit] at hall ⊢
        exact .decimal hzero hc hall
  · rw [htake] at hused ⊢
    simp only [List.drop_zero] at hused
    rw [Nat.zero_add, ← hused, htaken]
    have hall : ∀ d ∈ text.takeWhile (isDigit base), isDigit base d = true := fun d hd => mem_takeWhile hd
    cases hdigits : text.takeWhile (isDigit base) with
    | nil =>
      rw [hdigits, List.length_nil] at hused
      omega
    | cons c digits => exact .plain hne (hdigits ▸ hall)

theorem isSign_takeSign (text : List UInt8) : IsSign (text.take (takeSign text).2) := by
  unfold takeSign
  split
  next => exact Or.inr (Or.inr rfl)
  next => exact Or.inr (Or.inl rfl)
  next => exact Or.inl List.take_zero

/-- A number at the start of a text is the blanks, the sign and digits of it. -/
theorem isNumber_split (h : IsNumber base body) (hpre : body <+: text) :
    ∃ digits, NumberBody base digits ∧
      body.length = (text.takeWhile PyBytes.isSpace).length +
        (takeSign (text.drop (text.takeWhile PyBytes.isSpace).length)).2 + digits.length ∧
      digits <+: text.drop ((text.takeWhile PyBytes.isSpace).length +
        (takeSign (text.drop (text.takeWhile PyBytes.isSpace).length)).2) := by
  obtain ⟨blanks, sign, digits, rfl, hblanks, hsign, hdigits⟩ := h
  obtain ⟨c, rest, rfl, hspace, hplus, hminus⟩ := hdigits.first
  obtain ⟨tail, rfl⟩ := hpre
  have hfront : ∀ x t, PyBytes.isSpace x = false → (blanks ++ x :: t).takeWhile PyBytes.isSpace = blanks := by
    intro x t hx
    rw [List.takeWhile_append_of_pos hblanks, List.takeWhile_cons_of_neg (by rw [hx]; exact Bool.false_ne_true),
      List.append_nil]
  have hwhile : (blanks ++ sign ++ (c :: rest) ++ tail).takeWhile PyBytes.isSpace = blanks := by
    rw [List.append_assoc, List.append_assoc]
    obtain rfl | rfl | rfl := hsign
    · exact hfront c (rest ++ tail) hspace
    · exact hfront 43 _ (by decide)
    · exact hfront 45 _ (by decide)
  have hdrop : (blanks ++ sign ++ (c :: rest) ++ tail).drop blanks.length = sign ++ (c :: rest) ++ tail := by
    rw [List.append_assoc, List.append_assoc, List.drop_left, List.append_assoc]
  have htake : takeSign (sign ++ (c :: rest) ++ tail) = ((takeSign (sign ++ (c :: rest) ++ tail)).1, sign.length) := by
    obtain rfl | rfl | rfl := hsign
    · show takeSign (c :: (rest ++ tail)) = ((takeSign (c :: (rest ++ tail))).1, 0)
      rw [takeSign_of_ne hplus hminus]
    · rfl
    · rfl
  rw [hwhile, hdrop, htake]
  refine ⟨c :: rest, hdigits, ?_, ?_⟩
  · rw [List.length_append, List.length_append]
  · rw [← List.drop_drop, hdrop, List.append_assoc, List.drop_left]
    exact List.prefix_append _ _

/-- What is read is the longest number at the start of the text. -/
theorem parseCInteger_longest (text : List UInt8) (base : Nat) : LongestNumber base text (parseCInteger text base 0).2 := by
  let blanks := (text.takeWhile PyBytes.isSpace).length
  let signs := (takeSign (text.drop blanks)).2
  let rest := text.drop (blanks + signs)
  let used := ((rest.drop (takeBase base rest).2).takeWhile (isDigit (takeBase base rest).1)).length
  have hresult : (parseCInteger text base 0).2 = if 0 < used then blanks + signs + (takeBase base rest).2 + used else 0 := by
    have htaken : (takeDigits (takeBase base rest).1 0 (text.drop (blanks + signs + (takeBase base rest).2))).2 = used := by
      rw [← List.drop_drop]
      exact takeDigits_used _ 0 _
    unfold parseCInteger
    simp only [if_true]
    by_cases hpos : 0 < used
    · rw [if_pos hpos]
      rw [← htaken] at hpos ⊢
      exact congrArg Prod.snd (if_pos hpos)
    · rw [if_neg hpos]
      rw [← htaken] at hpos
      exact congrArg Prod.snd (if_neg hpos)
  have hbound : ∀ number, number <+: text → IsNumber base number →
      number.length ≤ blanks + signs + (takeBase base rest).2 + used ∧ 0 < used := by
    intro number hpre hnumber
    obtain ⟨digits, hdigits, hlen, hpre'⟩ := isNumber_split hnumber hpre
    have hle := hdigits.length_le hpre'
    have hused : 0 < used := by
      by_contra hzero
      obtain ⟨_, hhex, htake⟩ | ⟨_, _, htake⟩ | ⟨_, _, htake⟩ := takeBase_cases base rest
      · obtain ⟨x, c, more, heq, _, hdigit⟩ := hexPrefix_eq hhex
        refine hzero ?_
        show 0 < ((rest.drop (takeBase base rest).2).takeWhile (isDigit (takeBase base rest).1)).length
        rw [htake, heq]
        show 0 < ((c :: more).takeWhile (isDigit 16)).length
        rw [List.takeWhile_cons_of_pos hdigit]
        exact Nat.succ_pos _
      all_goals
        obtain ⟨c, more, heq, _⟩ := hdigits.first
        have hmarks : (takeBase base rest).2 = 0 := congrArg Prod.snd htake
        have hpos : digits.length = more.length + 1 := by rw [heq, List.length_cons]
        have hle' : digits.length ≤ (takeBase base rest).2 + used := hle
        omega
    refine ⟨?_, hused⟩
    have hle' : digits.length ≤ (takeBase base rest).2 + used := hle
    have hlen' : number.length = blanks + signs + digits.length := hlen
    omega
  rw [hresult]
  by_cases hpos : 0 < used
  · rw [if_pos hpos]
    refine ⟨Or.inr ⟨text.take blanks, (text.drop blanks).take signs, rest.take ((takeBase base rest).2 + used), ?_, ?_,
      isSign_takeSign _, numberBody_take rfl hpos⟩, fun number hpre hnumber => (hbound number hpre hnumber).1⟩
    · rw [Nat.add_assoc, List.take_add, List.take_add]
    · intro c hc
      have htaken : text.take blanks = text.takeWhile PyBytes.isSpace :=
        (List.prefix_iff_eq_take.mp (List.takeWhile_prefix PyBytes.isSpace)).symm
      rw [htaken] at hc
      exact mem_takeWhile hc
  · rw [if_neg hpos]
    exact ⟨Or.inl rfl, fun number hpre hnumber => absurd (hbound number hpre hnumber).2 hpos⟩

end

section

/-- The value that a text stands for: signed in radix 10 for a signed function, and else modulo `2 ^ bits`. -/
def textValue (bits : Nat) (signed : Bool) (radix val : Nat) : Int :=
  if signed = true ∧ radix = 10 ∧ 2 ^ (bits - 1) ≤ val % 2 ^ bits then (val % 2 ^ bits : Nat) - (2 ^ bits : Nat)
  else (val % 2 ^ bits : Nat)

/-- What `convert_int_s` does with the text of its value. -/
structure ConvertLaw (memory : ByteMemory) (buf size radix width : Nat) (text : List UInt8) (r : ConvertResult) : Prop where
  succeeds : r.rv = 0 ↔ buf ≠ 0 ∧ (2 ≤ radix ∧ radix ≤ 36) ∧ text.length + 1 ≤ size
  inside : ∀ x, x < buf ∨ buf + size * width ≤ x → r.memory x = memory x
  stored : r.rv = 0 → r.memory.readBytes buf ((text.length + 1) * width) = encodeDigits width (text ++ [0])
  emptied : r.rv ≠ 0 → buf ≠ 0 → size ≠ 0 → r.memory.readBytes buf width = List.replicate width 0

variable {bits radix val : Nat} {signed : Bool}

theorem intText_negative (h : signed = true ∧ radix = 10 ∧ 2 ^ (bits - 1) ≤ val % 2 ^ bits) :
    intText bits signed radix val = (true, 45 :: digitText radix (2 ^ bits - val % 2 ^ bits)) := by
  obtain ⟨rfl, rfl, hle⟩ := h
  unfold intText
  simp only [decide_true, decide_eq_true hle, Bool.and_self, if_true]

theorem intText_plain (h : ¬(signed = true ∧ radix = 10 ∧ 2 ^ (bits - 1) ≤ val % 2 ^ bits)) :
    intText bits signed radix val = (false, digitText radix (val % 2 ^ bits)) := by
  have hfalse : (signed && decide (radix = 10) && decide (2 ^ (bits - 1) ≤ val % 2 ^ bits)) = false := by
    by_contra hne
    have htrue := Bool.eq_true_of_not_eq_false hne
    obtain ⟨hleft, hle⟩ := Bool.and_eq_true_iff.mp htrue
    obtain ⟨hsigned, hradix⟩ := Bool.and_eq_true_iff.mp hleft
    exact h ⟨hsigned, of_decide_eq_true hradix, of_decide_eq_true hle⟩
  unfold intText
  simp only [hfalse, Bool.false_eq_true, if_false]

/-- The whole text is read, and gives the value back. -/
theorem parse_intText (hlow : 2 ≤ radix) (hhigh : radix ≤ 36) (bits : Nat) (signed : Bool) (val : Nat) :
    parseCInteger (intText bits signed radix val).2 radix 0 =
      (textValue bits signed radix val, (intText bits signed radix val).2.length) := by
  have hmod : val % 2 ^ bits < 2 ^ bits := Nat.mod_lt val (Nat.two_pow_pos bits)
  unfold textValue
  by_cases hneg : signed = true ∧ radix = 10 ∧ 2 ^ (bits - 1) ≤ val % 2 ^ bits
  · rw [intText_negative hneg, if_pos hneg]
    have hparse := parse_digitText hlow hhigh (2 ^ bits - val % 2 ^ bits) [45] (Or.inr ⟨rfl, rfl⟩)
    refine hparse.trans (Prod.ext ?_ rfl)
    show -1 * ((2 ^ bits - val % 2 ^ bits : Nat) : Int) = _
    rw [Int.natCast_sub (Nat.le_of_lt hmod)]
    omega
  · rw [intText_plain hneg, if_neg hneg]
    have hparse := parse_digitText hlow hhigh (val % 2 ^ bits) [] (Or.inl ⟨rfl, rfl⟩)
    exact hparse.trans (Prod.ext (Int.one_mul _) rfl)

theorem formatInt32_eq (hlow : 2 ≤ radix) (hhigh : radix ≤ 36) (val : Nat) :
    formatInt32 val radix = (intText 32 true radix val).2 := by
  unfold formatInt32
  rw [if_neg (not_not_intro ⟨hlow, hhigh⟩)]
  by_cases hneg : radix = 10 ∧ 2 ^ (32 - 1) ≤ val % 2 ^ 32
  · rw [intText_negative ⟨rfl, hneg⟩]
    exact if_pos hneg
  · rw [intText_plain fun h => hneg h.2]
    exact if_neg hneg

/-- A digit, and one more for the sign. -/
theorem intText_length (bits : Nat) (signed : Bool) (radix val : Nat) :
    1 + (intText bits signed radix val).1.toNat ≤ (intText bits signed radix val).2.length := by
  have hpos : ∀ fuel val rest, 1 ≤ (digitLoop radix (fuel + 1) val rest).length := by
    intro fuel
    induction fuel with
    | zero =>
      intro val rest
      rw [digitLoop]
      split
      next => exact Nat.succ_le_succ (Nat.zero_le _)
      next => exact Nat.succ_le_succ (Nat.zero_le _)
    | succ fuel ih =>
      intro val rest
      rw [digitLoop]
      split
      next => exact Nat.succ_le_succ (Nat.zero_le _)
      next => exact ih _ _
  by_cases hneg : signed = true ∧ radix = 10 ∧ 2 ^ (bits - 1) ≤ val % 2 ^ bits
  · rw [intText_negative hneg]
    exact Nat.succ_le_succ (hpos _ _ _)
  · rw [intText_plain hneg]
    exact hpos _ _ _

theorem encodeDigits_length {width : Nat} (hwidth : 0 < width) (text : List UInt8) :
    (encodeDigits width text).length = text.length * width := by
  induction text with
  | nil => exact (Nat.zero_mul width).symm
  | cons c text ih =>
    unfold encodeDigits at ih ⊢
    rw [List.flatMap_cons, List.length_append, ih, List.length_cons, List.length_cons, List.length_replicate, Nat.add_mul]
    omega

theorem convertInt_law (memory : ByteMemory) (val buf size radix bits : Nat) (signed : Bool) {width : Nat}
    (hwidth : 0 < width) : ConvertLaw memory buf size radix width (intText bits signed radix val).2
      (convertInt memory val buf size radix bits signed width) := by
  have hlen := intText_length bits signed radix val
  have hinval : einval ≠ 0 := by decide
  have hrange : erange ≠ 0 := by decide
  have hempty : ∀ m : ByteMemory, (m.writeBytes buf (List.replicate width 0)).readBytes buf width =
      List.replicate width 0 := by
    intro m
    have hself := ByteMemory.readBytes_writeBytes_self m buf (List.replicate width 0)
    rw [List.length_replicate] at hself
    exact hself
  have hkeep : size ≠ 0 → ∀ x, x < buf ∨ buf + size * width ≤ x →
      memory.writeBytes buf (List.replicate width 0) x = memory x := by
    intro hsize x hx
    have hle := Nat.mul_le_mul_right width (show 1 ≤ size by omega)
    refine ByteMemory.writeBytes_outside ?_
    rw [List.length_replicate]
    omega
  unfold convertInt
  simp only
  by_cases hnull : buf = 0 ∨ size = 0
  · rw [if_pos hnull]
    exact ⟨iff_of_false hinval fun h => by omega, fun _ _ => rfl, fun h => absurd h hinval, fun _ hbuf hsize => by
      omega⟩
  · rw [if_neg hnull]
    have hsize : size ≠ 0 := fun heq => hnull (Or.inr heq)
    by_cases hsmall : size ≤ 1 + (intText bits signed radix val).1.toNat
    · rw [if_pos hsmall]
      exact ⟨iff_of_false hrange fun h => by omega, hkeep hsize, fun h => absurd h hrange, fun _ _ _ => hempty _⟩
    · rw [if_neg hsmall]
      by_cases hradix : 2 ≤ radix ∧ radix ≤ 36
      · rw [if_neg (not_not_intro hradix)]
        by_cases hfits : size ≤ (intText bits signed radix val).2.length
        · rw [if_pos hfits]
          exact ⟨iff_of_false hrange fun h => by omega, hkeep hsize, fun h => absurd h hrange,
            fun _ _ _ => hempty _⟩
        · rw [if_neg hfits]
          have hbytes : (encodeDigits width ((intText bits signed radix val).2 ++ [0])).length =
              ((intText bits signed radix val).2.length + 1) * width := by
            rw [encodeDigits_length hwidth, List.length_append, List.length_singleton]
          refine ⟨iff_of_true rfl ⟨fun heq => hnull (Or.inl heq), hradix, by omega⟩, fun x hx => ?_, fun _ => ?_,
            fun h => absurd rfl h⟩
          · have hle := Nat.mul_le_mul_right width (show (intText bits signed radix val).2.length + 1 ≤ size by omega)
            refine (ByteMemory.writeBytes_outside ?_).trans (hkeep hsize x hx)
            rw [hbytes]
            omega
          · rw [← hbytes]
            exact ByteMemory.readBytes_writeBytes_self _ _ _
      · rw [if_pos hradix]
        exact ⟨iff_of_false hinval fun h => hradix h.2.1, hkeep hsize, fun h => absurd h hinval,
          fun _ _ _ => hempty _⟩

/-- Two slots of x86 hold a 64-bit value. -/
theorem intArgs_slots (val buf size radix : Nat) :
    intArgs 4 64 [val % 2 ^ 32, val / 2 ^ 32, buf, size, radix] = some (val, buf, size, radix) := by
  have hjoin : (val / 2 ^ 32) <<< 32 ||| val % 2 ^ 32 = val := by
    rw [← Nat.shiftLeft_add_eq_or_of_lt (Nat.mod_lt val (by decide)), Nat.shiftLeft_eq, Nat.mul_comm]
    exact Nat.div_add_mod val (2 ^ 32)
  have hargs : intArgs 4 64 [val % 2 ^ 32, val / 2 ^ 32, buf, size, radix] =
      some ((val / 2 ^ 32) <<< 32 ||| val % 2 ^ 32, buf, size, radix) := rfl
  rw [hargs, hjoin]

/-- The end of a number is stored where the guest wants it, and without a place nothing is stored. -/
def EndStored (string endPtr used : Nat) (r : NumberResult) : Prop :=
  r.stored = if endPtr = 0 then none else some (endPtr, string + used)

theorem endPointer_stored (string endPtr used : Nat) :
    endPointer string endPtr used = if endPtr = 0 then none else some (endPtr, string + used) := by
  unfold endPointer
  by_cases h : endPtr = 0
  · rw [if_neg (not_not.mpr h), if_pos h]
  · rw [if_pos h, if_neg h]

/-- The text of an integer is read back in its radix, is written where it fits, and an end pointer is behind
the longest number of the text. -/
theorem integerText_law :
    (∀ val radix, 2 ≤ radix → radix ≤ 36 → parseCInteger (formatInt32 val radix) radix 0 =
      (textValue 32 true radix val, (formatInt32 val radix).length)) ∧
    (∀ ptrSize memory argv bits signed width val buf size radix, (width = 1 ∨ width = 2) →
      intArgs ptrSize bits argv = some (val, buf, size, radix) → ∃ r,
        convertIntS ptrSize memory argv bits signed width = some r ∧
        ConvertLaw memory buf size radix width (intText bits signed radix val).2 r ∧
        (2 ≤ radix → radix ≤ 36 → parseCInteger (intText bits signed radix val).2 radix 0 =
          (textValue bits signed radix val, (intText bits signed radix val).2.length))) ∧
    (∀ val buf size radix,
      intArgs 4 64 [val % 2 ^ 32, val / 2 ^ 32, buf, size, radix] = some (val, buf, size, radix)) ∧
    ∀ text string endPtr base signed, ∃ used, LongestNumber base text used ∧
      EndStored string endPtr used (strtol text string endPtr base) ∧
      EndStored string endPtr used (strtoul text string endPtr base) ∧
      EndStored string endPtr used (strtoi64 text string endPtr base signed) := by
  refine ⟨fun val radix hlow hhigh => ?_, fun ptrSize memory argv bits signed width val buf size radix hwidth hargs => ?_,
    intArgs_slots, fun text string endPtr base signed => ?_⟩
  · rw [formatInt32_eq hlow hhigh]
    exact parse_intText hlow hhigh 32 true val
  · refine ⟨convertInt memory val buf size radix bits signed width, ?_, convertInt_law _ _ _ _ _ _ _ (by omega),
      fun hlow hhigh => parse_intText hlow hhigh bits signed val⟩
    rw [convertIntS, hargs]
    rfl
  · have hend := endPointer_stored string endPtr (parseCInteger text base 0).2
    refine ⟨(parseCInteger text base 0).2, parseCInteger_longest text base, hend, hend, ?_⟩
    unfold strtoi64
    simp only
    split
    next => exact hend
    next =>
      split
      next => exact hend
      next => exact hend

/-- The lowest value of 32 bits, and a prefix without a digit. -/
theorem integerText_law_lowest : parseCInteger [45, 50, 49, 52, 55, 52, 56, 51, 54, 52, 56] 10 0 = (-2147483648, 11) ∧
    LongestNumber 16 [48, 120, 103] 1 ∧
    EndStored 0x1000 0x2000 1 (strtol [48, 120, 103] 0x1000 0x2000 16) := by
  obtain ⟨hround, _, _, hend⟩ := integerText_law
  refine ⟨(hround 0x80000000 10 (by decide) (by decide)).trans (by decide), ?_⟩
  obtain ⟨used, hlongest, hstored, _⟩ := hend [48, 120, 103] 0x1000 0x2000 16 true
  have hone : some (0x2000, 0x1001) = some (0x2000, 0x1000 + used) := hstored
  have hused : 1 = used := by
    have heq := congrArg Prod.snd (Option.some.inj hone)
    omega
  subst hused
  exact ⟨hlongest, hstored⟩

end

end Speakeasy
