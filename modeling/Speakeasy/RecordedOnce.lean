import Mathlib.Data.List.Basic

/-! Lists that take a new element for a call unless an element stands for the call already. -/

namespace RecordedOnce

variable {α ο : Type*} (seen : ο → α → Bool) (make : ο → α)

def record (events : List α) (call : ο) : List α :=
  if events.any (seen call) then events else events ++ [make call]

/-- The list after some calls. -/
def recordAll (events : List α) (calls : List ο) : List α := calls.foldl (record seen make) events

variable {seen make}

/-- The elements of a kind stay as many for a call that makes no element of the kind. -/
theorem countP_record_other {p : α → Bool} {call : ο} (h : p (make call) = false) (events : List α) :
    (record seen make events call).countP p = events.countP p := by
  unfold record
  split
  next => rfl
  next => simp [h]

/-- A call that looks for its own kind leaves one element of the kind. -/
theorem countP_record_self {p : α → Bool} {call : ο} {events : List α} (h : p (make call) = true)
    (hseen : ∀ a ∈ events, seen call a = p a) :
    (record seen make events call).countP p = max 1 (events.countP p) := by
  have hany : events.any (seen call) = true ↔ 0 < events.countP p := by
    rw [List.countP_pos_iff, List.any_eq_true]
    exact exists_congr fun a => and_congr_right fun ha => by rw [hseen a ha]
  unfold record
  split
  next hin =>
    have hpos := hany.mp hin
    omega
  next hout =>
    have hzero : ¬0 < events.countP p := fun hpos => hout (hany.mpr hpos)
    have hcount : (events ++ [make call]).countP p = events.countP p + 1 := by simp [h]
    omega

/-- A call that never finds its own kind adds one element of the kind. -/
theorem countP_record_unseen {p : α → Bool} {call : ο} {events : List α} (h : p (make call) = true)
    (hseen : ∀ a ∈ events, seen call a = false) :
    (record seen make events call).countP p = events.countP p + 1 := by
  have hnone : ¬events.any (seen call) = true := by
    intro hany
    obtain ⟨a, ha, hfound⟩ := List.any_eq_true.mp hany
    rw [hseen a ha] at hfound
    exact Bool.false_ne_true hfound
  rw [record, if_neg hnone]
  simp [h]

theorem mem_record {a : α} {call : ο} {events : List α} (h : a ∈ record seen make events call) :
    a ∈ events ∨ a = make call := by
  unfold record at h
  split at h
  next => exact Or.inl h
  next => simpa using h

/-- What holds of every element that a call makes holds of all elements. -/
theorem recordAll_forall {P : α → Prop} {events : List α} {calls : List ο} (h : ∀ a ∈ events, P a)
    (hmake : ∀ call ∈ calls, P (make call)) : ∀ a ∈ recordAll seen make events calls, P a := by
  induction calls generalizing events with
  | nil => exact h
  | cons call calls ih =>
    refine ih (fun a ha => ?_) fun c hc => hmake c (List.mem_cons_of_mem _ hc)
    rcases mem_record ha with ha | rfl
    · exact h a ha
    · exact hmake call List.mem_cons_self

/-- Calls that look for their own kind leave one element of the kind, when one of them makes it. -/
theorem countP_recordAll_once {p : α → Bool} {events : List α} {calls : List ο}
    (hseen : ∀ call, p (make call) = true → ∀ a, seen call a = p a) (hle : events.countP p ≤ 1) :
    (recordAll seen make events calls).countP p =
      if (∃ call ∈ calls, p (make call) = true) ∨ 0 < events.countP p then 1 else 0 := by
  induction calls generalizing events with
  | nil =>
    simp only [recordAll, List.foldl_nil, List.not_mem_nil, false_and, exists_false, false_or]
    split <;> omega
  | cons call calls ih =>
    show (recordAll seen make (record seen make events call) calls).countP p = _
    by_cases hp : p (make call) = true
    · have hstep : (record seen make events call).countP p = max 1 (events.countP p) :=
        countP_record_self hp fun a _ => hseen call hp a
      have hone : (record seen make events call).countP p = 1 := by omega
      rw [ih (by omega), if_pos (Or.inr (by omega)), if_pos (Or.inl ⟨call, List.mem_cons_self, hp⟩)]
    · have hstep := @countP_record_other _ _ seen make _ _ (by simpa using hp) events
      rw [ih (by omega), hstep]
      simp [hp]

/-- Calls that never find their own kind leave an element of the kind each. -/
theorem countP_recordAll_unseen {p : α → Bool} {Q : α → Prop} {events : List α} {calls : List ο}
    (hevents : ∀ a ∈ events, Q a) (hmake : ∀ call ∈ calls, Q (make call))
    (hseen : ∀ call, p (make call) = true → ∀ a, Q a → seen call a = false) :
    (recordAll seen make events calls).countP p =
      events.countP p + calls.countP fun call => p (make call) := by
  induction calls generalizing events with
  | nil => simp [recordAll]
  | cons call calls ih =>
    have hnext : ∀ a ∈ record seen make events call, Q a :=
      @recordAll_forall _ _ _ _ _ _ [call] hevents fun c hc => by
        rw [List.mem_singleton.mp hc]
        exact hmake call List.mem_cons_self
    show (recordAll seen make (record seen make events call) calls).countP p = _
    rw [ih hnext fun c hc => hmake c (List.mem_cons_of_mem _ hc), List.countP_cons]
    by_cases hp : p (make call) = true
    · rw [countP_record_unseen hp fun a ha => hseen call hp a (hevents a ha), if_pos hp]
      omega
    · rw [countP_record_other (by simpa using hp), if_neg hp]
      omega

end RecordedOnce
