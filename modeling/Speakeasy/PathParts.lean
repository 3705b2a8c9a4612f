import Speakeasy.WideStrings

namespace Speakeasy

def drivePart : Option (List Nat) → List Nat
  | some (c :: _) => [c, 0x3A]
  | _ => []

def directoryPart : Option (List Nat) → List Nat
  | some (c :: d) =>
    if (c :: d).getLast? = some 0x5C ∨ (c :: d).getLast? = some 0x2F then c :: d else c :: d ++ [0x5C]
  | _ => []

def extPart : Option (List Nat) → List Nat
  | some (c :: e) => if (c :: e).head? = some 0x2E then c :: e else 0x2E :: c :: e
  | _ => []

/-- `get_made_path`; a part is `none` when its address is null. -/
def getMadePath (drive directory fname ext : Option (List Nat)) : List Nat :=
  drivePart drive ++ directoryPart directory ++ fname.getD [] ++ extPart ext

/-- `max(rest.rfind("\\"), rest.rfind("/")) + 1`. -/
def separatorEnd (rest : List Nat) : Nat :=
  max ((rfindChar 0x5C rest).elim 0 (· + 1)) ((rfindChar 0x2F rest).elim 0 (· + 1))

/-- The name and the extension of the last part of a path. -/
def splitName (name : List Nat) : List (List Nat) :=
  match rfindChar 0x2E name with
  | none => [name, []]
  | some dot => [name.take dot, name.drop dot]

def splitRest (rest : List Nat) : List (List Nat) :=
  rest.take (separatorEnd rest) :: splitName (rest.drop (separatorEnd rest))

/-- `get_split_path`: drive, directory, file name and extension. -/
def getSplitPath (path : List Nat) : List (List Nat) :=
  let drive := if path[1]? = some 0x3A then path.take 2 else []
  drive :: splitRest (path.drop drive.length)

def IsSeparator (c : Nat) : Prop := c = 0x5C ∨ c = 0x2F

instance (c : Nat) : Decidable (IsSeparator c) := inferInstanceAs (Decidable (c = 0x5C ∨ c = 0x2F))

/-- The characters that a path is cut at. -/
def IsMark (c : Nat) : Prop := IsSeparator c ∨ c = 0x2E ∨ c = 0x3A

theorem last_split (p : Nat → Prop) (xs : List Nat) :
    (∀ x ∈ xs, ¬p x) ∨ ∃ before c after, xs = before ++ c :: after ∧ p c ∧ ∀ x ∈ after, ¬p x := by
  induction xs with
  | nil => exact Or.inl fun x hx => absurd hx List.not_mem_nil
  | cons x xs ih =>
    rcases ih with hnone | ⟨before, c, after, heq, hc, hafter⟩
    · by_cases hx : p x
      · exact Or.inr ⟨[], x, xs, rfl, hx, hnone⟩
      · left
        intro y hy
        rcases List.mem_cons.mp hy with rfl | hy
        · exact hx
        · exact hnone y hy
    · exact Or.inr ⟨x :: before, c, after, by rw [heq, List.cons_append], hc, hafter⟩

theorem rfindChar_last {c : Nat} (xs : List Nat) {ys : List Nat} (h : c ∉ ys) :
    rfindChar c (xs ++ c :: ys) = some xs.length := by
  rw [rfindChar_split, dropWhile_eq_nil_of_not_mem h, List.length_nil, Nat.add_zero]

theorem rfindChar_le {c : Nat} (xs : List Nat) {ys : List Nat} (h : c ∉ ys) :
    (rfindChar c (xs ++ ys)).elim 0 (· + 1) ≤ xs.length := by
  rcases last_split (· = c) xs with hnone | ⟨before, d, after, heq, hd, hafter⟩
  · have hnot : c ∉ xs ++ ys := fun hmem => (List.mem_append.mp hmem).elim (fun hx => hnone c hx rfl) h
    rw [rfindChar_eq_none hnot]
    exact Nat.zero_le _
  · have hnot : c ∉ after ++ ys := fun hmem => (List.mem_append.mp hmem).elim (fun hx => hafter c hx rfl) h
    rw [heq, hd, List.append_assoc, List.cons_append, rfindChar_last before hnot, List.length_append, List.length_cons]
    show before.length + 1 ≤ before.length + (after.length + 1)
    omega

theorem separatorEnd_last (before : List Nat) {c : Nat} {after : List Nat} (hc : IsSeparator c)
    (hafter : ∀ x ∈ after, ¬IsSeparator x) : separatorEnd (before ++ c :: after) = before.length + 1 := by
  have hfree : ∀ s, IsSeparator s → s ∉ after := fun s hs hmem => hafter s hmem hs
  have hother : ∀ s, IsSeparator s → s ≠ c → (rfindChar s (before ++ c :: after)).elim 0 (· + 1) ≤ before.length := by
    intro s hs hne
    apply rfindChar_le before
    intro hmem
    rcases List.mem_cons.mp hmem with heq | hmem
    · exact hne heq
    · exact hfree s hs hmem
  have hfound : (rfindChar c (before ++ c :: after)).elim 0 (· + 1) = before.length + 1 := by
    rw [rfindChar_last before (hfree c hc)]
    rfl
  unfold separatorEnd
  rcases hc with rfl | rfl
  · have hle := hother 0x2F (Or.inr rfl) (by decide)
    omega
  · have hle := hother 0x5C (Or.inl rfl) (by decide)
    omega

theorem separatorEnd_free {rest : List Nat} (h : ∀ x ∈ rest, ¬IsSeparator x) : separatorEnd rest = 0 := by
  unfold separatorEnd
  rw [rfindChar_eq_none fun hmem => h 0x5C hmem (Or.inl rfl), rfindChar_eq_none fun hmem => h 0x2F hmem (Or.inr rfl)]
  rfl

theorem splitRest_last (before : List Nat) {c : Nat} {after : List Nat} (hc : IsSeparator c)
    (hafter : ∀ x ∈ after, ¬IsSeparator x) :
    splitRest (before ++ c :: after) = (before ++ [c]) :: splitName after := by
  have hlen : before.length + 1 = (before ++ [c]).length := by simp
  unfold splitRest
  rw [separatorEnd_last before hc hafter, List.append_cons, hlen, List.take_left' rfl, List.drop_left' rfl]

theorem splitRest_free {rest : List Nat} (h : ∀ x ∈ rest, ¬IsSeparator x) : splitRest rest = [] :: splitName rest := by
  unfold splitRest
  rw [separatorEnd_free h, List.take_zero, List.drop_zero]

theorem splitName_last (before : List Nat) {after : List Nat} (h : 0x2E ∉ after) :
    splitName (before ++ 0x2E :: after) = [before, 0x2E :: after] := by
  unfold splitName
  rw [rfindChar_last before h]
  show [(before ++ 0x2E :: after).take before.length, (before ++ 0x2E :: after).drop before.length] = _
  rw [List.take_left' rfl, List.drop_left' rfl]

theorem splitName_free {name : List Nat} (h : 0x2E ∉ name) : splitName name = [name, []] := by
  unfold splitName
  rw [rfindChar_eq_none h]

/-- A decoder and an encoder of texts that keep the characters a path is cut at. -/
structure PathCoding (dec enc : List Nat → List Nat) (ok : Nat → Prop) : Prop where
  enc_append : ∀ xs ys, enc (xs ++ ys) = enc xs ++ enc ys
  enc_mark : ∀ c, IsMark c → enc [c] = [c]
  enc_dec : ∀ us, (∀ u ∈ us, ok u) → enc (dec us) = us
  dec_nil : dec [] = []
  dec_split : ∀ us c vs, IsMark c → dec (us ++ c :: vs) = dec us ++ c :: dec vs
  mem_dec : ∀ us c, IsMark c → c ∈ dec us → c ∈ us

namespace PathCoding

variable {dec enc : List Nat → List Nat} {ok : Nat → Prop}

theorem dec_ne_nil (h : PathCoding dec enc ok) {us : List Nat} (hus : ∀ u ∈ us, ok u) (hne : us ≠ []) :
    dec us ≠ [] := by
  intro heq
  have hback := h.enc_dec us hus
  have hempty := h.enc_dec [] fun u hu => absurd hu List.not_mem_nil
  rw [h.dec_nil] at hempty
  rw [heq, hempty] at hback
  exact hne hback.symm

theorem enc_nil (h : PathCoding dec enc ok) : enc [] = [] := by
  have hempty := h.enc_dec [] fun u hu => absurd hu List.not_mem_nil
  rwa [h.dec_nil] at hempty

/-- The last character is a mark when the last unit is. -/
theorem dec_getLast? (h : PathCoding dec enc ok) {us : List Nat} (hus : ∀ u ∈ us, ok u) {c : Nat} (hc : IsMark c) :
    (dec us).getLast? = some c ↔ us.getLast? = some c := by
  constructor
  · intro hlast
    have hmem := h.mem_dec us c hc (List.mem_of_getLast? hlast)
    rcases last_split (· = c) us with hnone | ⟨before, d, after, heq, rfl, hafter⟩
    · exact absurd rfl (hnone c hmem)
    · have hok : ∀ u ∈ after, ok u := fun u hu => hus u (by rw [heq]; simp [hu])
      cases after with
      | nil => rw [heq, List.getLast?_concat]
      | cons a after =>
        have hne := h.dec_ne_nil hok (List.cons_ne_nil a after)
        rw [heq, h.dec_split before d (a :: after) hc, List.getLast?_append, List.getLast?_cons_of_ne_nil hne] at hlast
        have hdec := List.getLast?_eq_some_getLast hne
        rw [hdec, Option.some_or, Option.some.injEq] at hlast
        have hin := h.mem_dec (a :: after) d hc (hlast ▸ List.getLast_mem hne)
        exact absurd rfl (hafter d hin)
  · intro hlast
    obtain ⟨before, heq⟩ := List.getLast?_eq_some_iff.mp hlast
    rw [heq, h.dec_split before c [] hc, h.dec_nil, List.getLast?_concat]

theorem dec_head? (h : PathCoding dec enc ok) {us : List Nat} (hus : ∀ u ∈ us, ok u) {c : Nat} (hc : IsMark c) :
    (dec us).head? = some c ↔ us.head? = some c := by
  constructor
  · intro hhead
    have hmem := h.mem_dec us c hc (List.mem_of_mem_head? hhead)
    obtain ⟨after, heq, hnot⟩ := split_first hmem
    generalize us.takeWhile (· ≠ c) = before at heq hnot
    cases before with
    | nil => rw [heq, List.nil_append, List.head?_cons]
    | cons b before =>
      have hok : ∀ u ∈ b :: before, ok u := fun u hu => hus u (by rw [heq]; exact List.mem_append_left _ hu)
      have hne := h.dec_ne_nil hok (List.cons_ne_nil b before)
      rw [heq, h.dec_split (b :: before) c after hc, List.head?_append_of_ne_nil _ hne] at hhead
      exact absurd (h.mem_dec _ c hc (List.mem_of_mem_head? hhead)) hnot
  · intro hhead
    cases us with
    | nil => cases hhead
    | cons u us =>
      rw [List.head?_cons, Option.some.injEq] at hhead
      have hsplit := h.dec_split [] c us hc
      rw [List.nil_append, h.dec_nil, List.nil_append] at hsplit
      rw [hhead, hsplit, List.head?_cons]

theorem enc_split (h : PathCoding dec enc ok) (xs : List Nat) {c : Nat} (ys : List Nat) (hc : IsMark c) :
    enc (xs ++ c :: ys) = enc xs ++ c :: enc ys := by
  rw [List.append_cons, h.enc_append, h.enc_append, h.enc_mark c hc, List.append_assoc]
  rfl

/-- A name is cut at the same place before and after it is decoded. -/
theorem splitName_dec (h : PathCoding dec enc ok) {us : List Nat} (hus : ∀ u ∈ us, ok u) :
    (splitName (dec us)).map enc = splitName us := by
  have hdot : IsMark 0x2E := Or.inr (Or.inl rfl)
  rcases last_split (· = 0x2E) us with hnone | ⟨before, c, after, heq, rfl, hafter⟩
  · have hfree : 0x2E ∉ us := fun hmem => hnone _ hmem rfl
    rw [splitName_free hfree, splitName_free fun hmem => hfree (h.mem_dec us _ hdot hmem), List.map_cons, List.map_cons,
      h.enc_dec us hus, h.enc_nil]
    rfl
  · have hfree : 0x2E ∉ after := fun hmem => hafter _ hmem rfl
    have hbefore : ∀ u ∈ before, ok u := fun u hu => hus u (by rw [heq]; simp [hu])
    have hok : ∀ u ∈ after, ok u := fun u hu => hus u (by rw [heq]; simp [hu])
    have hnil := h.enc_split [] (dec after) hdot
    rw [heq, h.dec_split before _ after hdot, splitName_last before hfree,
      splitName_last _ fun hmem => hfree (h.mem_dec after _ hdot hmem), List.map_cons, List.map_cons,
      h.enc_dec before hbefore]
    rw [List.nil_append, h.enc_nil, List.nil_append, h.enc_dec after hok] at hnil
    rw [hnil]
    rfl

theorem splitRest_dec (h : PathCoding dec enc ok) {us : List Nat} (hus : ∀ u ∈ us, ok u) :
    (splitRest (dec us)).map enc = splitRest us := by
  have hfreed : ∀ xs : List Nat, (∀ x ∈ xs, ¬IsSeparator x) → ∀ x ∈ dec xs, ¬IsSeparator x := by
    intro xs hxs x hx hs
    exact hxs x (h.mem_dec xs x (Or.inl hs) hx) hs
  rcases last_split IsSeparator us with hnone | ⟨before, c, after, heq, hc, hafter⟩
  · rw [splitRest_free hnone, splitRest_free (hfreed us hnone), List.map_cons, h.splitName_dec hus, h.enc_nil]
  · have hbefore : ∀ u ∈ before, ok u := fun u hu => hus u (by rw [heq]; simp [hu])
    have hok : ∀ u ∈ after, ok u := fun u hu => hus u (by rw [heq]; simp [hu])
    rw [heq, h.dec_split before c after (Or.inl hc), splitRest_last before hc hafter,
      splitRest_last _ hc (hfreed after hafter), List.map_cons, h.splitName_dec hok, h.enc_append,
      h.enc_dec before hbefore, h.enc_mark c (Or.inl hc)]

theorem directoryPart_dec (h : PathCoding dec enc ok) {d : Option (List Nat)} (hd : ∀ u ∈ d.getD [], ok u) :
    enc (directoryPart (d.map dec)) = directoryPart d := by
  match d, hd with
  | none, _ => exact h.enc_nil
  | some [], _ =>
    rw [Option.map_some, h.dec_nil]
    exact h.enc_nil
  | some (c :: us), hd =>
    have hok : ∀ u ∈ c :: us, ok u := hd
    have hslash := h.dec_getLast? hok (Or.inl (Or.inl rfl))
    have hslash' := h.dec_getLast? hok (Or.inl (Or.inr rfl))
    have hback := h.enc_dec (c :: us) hok
    rw [Option.map_some]
    cases hdec : dec (c :: us) with
    | nil => exact absurd hdec (h.dec_ne_nil hok (List.cons_ne_nil c us))
    | cons x xs =>
      rw [hdec] at hslash hslash' hback
      unfold directoryPart
      simp only [hslash, hslash']
      split
      next => exact hback
      next => rw [h.enc_append, hback, h.enc_mark _ (Or.inl (Or.inl rfl))]

theorem extPart_dec (h : PathCoding dec enc ok) {e : Option (List Nat)} (he : ∀ u ∈ e.getD [], ok u) :
    enc (extPart (e.map dec)) = extPart e := by
  match e, he with
  | none, _ => exact h.enc_nil
  | some [], _ =>
    rw [Option.map_some, h.dec_nil]
    exact h.enc_nil
  | some (c :: us), he =>
    have hok : ∀ u ∈ c :: us, ok u := he
    have hdot := h.dec_head? hok (Or.inr (Or.inl rfl))
    have hback := h.enc_dec (c :: us) hok
    rw [Option.map_some]
    cases hdec : dec (c :: us) with
    | nil => exact absurd hdec (h.dec_ne_nil hok (List.cons_ne_nil c us))
    | cons x xs =>
      rw [hdec] at hdot hback
      unfold extPart
      simp only [hdot]
      split
      next => exact hback
      next =>
        have hsplit := h.enc_split [] (x :: xs) (Or.inr (Or.inl rfl))
        rwa [List.nil_append, h.enc_nil, List.nil_append, hback] at hsplit

/-- A path that is made of decoded parts; its drive is a character of the decoded text. -/
theorem getMadePath_dec (h : PathCoding dec enc ok) (drive : Option (List Nat)) {d f e : Option (List Nat)}
    (hd : ∀ u ∈ d.getD [], ok u) (hf : ∀ u ∈ f.getD [], ok u) (he : ∀ u ∈ e.getD [], ok u) :
    enc (getMadePath (drive.map dec) (d.map dec) (f.map dec) (e.map dec)) =
      enc (drivePart (drive.map dec)) ++ directoryPart d ++ f.getD [] ++ extPart e := by
  have hname : enc ((f.map dec).getD []) = f.getD [] := by
    cases f with
    | none => exact h.enc_nil
    | some us => exact h.enc_dec us hf
  unfold getMadePath
  rw [h.enc_append, h.enc_append, h.enc_append, h.directoryPart_dec hd, hname, h.extPart_dec he]

/-- The characters that a part has less than units. -/
theorem directoryPart_length (h : PathCoding dec enc ok) {d : Option (List Nat)} (hd : ∀ u ∈ d.getD [], ok u) :
    (directoryPart (d.map dec)).length + (d.getD []).length =
      (directoryPart d).length + (dec (d.getD [])).length := by
  match d, hd with
  | none, _ =>
    rw [Option.map_none, Option.getD_none, h.dec_nil]
  | some [], _ =>
    rw [Option.map_some, Option.getD_some, h.dec_nil]
  | some (c :: us), hd =>
    have hok : ∀ u ∈ c :: us, ok u := hd
    have hslash := h.dec_getLast? hok (Or.inl (Or.inl rfl))
    have hslash' := h.dec_getLast? hok (Or.inl (Or.inr rfl))
    rw [Option.map_some, Option.getD_some]
    cases hdec : dec (c :: us) with
    | nil => exact absurd hdec (h.dec_ne_nil hok (List.cons_ne_nil c us))
    | cons x xs =>
      rw [hdec] at hslash hslash'
      unfold directoryPart
      simp only [hslash, hslash']
      split
      next => exact Nat.add_comm _ _
      next =>
        simp only [List.length_append, List.length_cons, List.length_nil]
        omega

theorem extPart_length (h : PathCoding dec enc ok) {e : Option (List Nat)} (he : ∀ u ∈ e.getD [], ok u) :
    (extPart (e.map dec)).length + (e.getD []).length = (extPart e).length + (dec (e.getD [])).length := by
  match e, he with
  | none, _ =>
    rw [Option.map_none, Option.getD_none, h.dec_nil]
  | some [], _ =>
    rw [Option.map_some, Option.getD_some, h.dec_nil]
  | some (c :: us), he =>
    have hok : ∀ u ∈ c :: us, ok u := he
    have hdot := h.dec_head? hok (Or.inr (Or.inl rfl))
    rw [Option.map_some, Option.getD_some]
    cases hdec : dec (c :: us) with
    | nil => exact absurd hdec (h.dec_ne_nil hok (List.cons_ne_nil c us))
    | cons x xs =>
      rw [hdec] at hdot
      unfold extPart
      simp only [hdot]
      split
      next => exact Nat.add_comm _ _
      next =>
        simp only [List.length_cons]
        omega

end PathCoding

end Speakeasy
