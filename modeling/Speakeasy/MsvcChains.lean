import Speakeasy.MsvcFrames

namespace Speakeasy

/-- Levels with their scopes, from the inner ones to the outer ones. -/
abbrev ScopeChain := List (Nat × MsvcScope)

namespace MsvcFrame

variable {frame : MsvcFrame}

def top (frame : MsvcFrame) : ScopeChain → Nat
  | [] => frame.none
  | entry :: _ => entry.1

/-- Each scope of the table is around the one before it, and the last one is around none. -/
def IsChain (frame : MsvcFrame) (scope : Nat → Option MsvcScope) : ScopeChain → Prop
  | [] => True
  | (level, s) :: chain =>
    level ≠ frame.none ∧ scope level = some s ∧ s.enclosing = frame.top chain ∧ frame.IsChain scope chain

/-- A scope table whose scopes form a forest. -/
structure ScopeForest (frame : MsvcFrame) (scope : Nat → Option MsvcScope) (count : Nat) : Prop where
  nested : ∀ level < count, ∃ s, scope level = some s ∧ (s.enclosing = frame.none ∨ s.enclosing < level)
  none : count ≤ frame.none

/-- The scopes around a level. The levels fall, so each scope is there once. -/
structure ScopesAround (frame : MsvcFrame) (scope : Nat → Option MsvcScope) (level : Nat) (chain : ScopeChain) :
    Prop where
  top : frame.top chain = level
  linked : frame.IsChain scope chain
  falls : chain.Pairwise fun a b => b.1 < a.1

theorem ScopeForest.scopesAround {scope : Nat → Option MsvcScope} {count : Nat}
    (h : frame.ScopeForest scope count) {level : Nat} (hlevel : level = frame.none ∨ level < count) :
    ∃ chain, frame.ScopesAround scope level chain ∧ ∀ entry ∈ chain, entry.1 ≤ level := by
  induction level using Nat.strongRecOn with
  | ind level ih =>
    cases hlevel with
    | inl hnone => exact ⟨[], ⟨hnone.symm, trivial, List.Pairwise.nil⟩, by simp⟩
    | inr hcount =>
      have hne : level ≠ frame.none := by
        have := h.none
        omega
      obtain ⟨s, hs, henclosing⟩ := h.nested level hcount
      cases henclosing with
      | inl hnone =>
        refine ⟨[(level, s)], ⟨rfl, ⟨hne, hs, hnone, trivial⟩, List.pairwise_singleton _ _⟩, ?_⟩
        intro entry hentry
        rw [List.mem_singleton.mp hentry]
      | inr hlt =>
        obtain ⟨chain, hchain, hle⟩ := ih s.enclosing hlt (Or.inr (by omega))
        refine ⟨(level, s) :: chain, ⟨rfl, ⟨hne, hs, hchain.top.symm, hchain.linked⟩, ?_⟩, ?_⟩
        · refine List.pairwise_cons.mpr ⟨fun entry hentry => ?_, hchain.falls⟩
          exact Nat.lt_of_le_of_lt (hle entry hentry) hlt
        · intro entry hentry
          cases List.mem_cons.mp hentry with
          | inl heq => rw [heq]
          | inr hmem => exact Nat.le_of_lt (Nat.lt_of_le_of_lt (hle entry hmem) hlt)

theorem IsChain.right {scope : Nat → Option MsvcScope} {inside outside : ScopeChain}
    (h : frame.IsChain scope (inside ++ outside)) : frame.IsChain scope outside := by
  induction inside with
  | nil => exact h
  | cons entry inside ih => exact ih h.2.2.2

theorem IsChain.ne_none {scope : Nat → Option MsvcScope} {chain : ScopeChain} (h : frame.IsChain scope chain) :
    ∀ entry ∈ chain, entry.1 ≠ frame.none := by
  induction chain with
  | nil => simp
  | cons entry chain ih =>
    intro other hother
    cases List.mem_cons.mp hother with
    | inl heq =>
      rw [heq]
      exact h.1
    | inr hmem => exact ih h.2.2.2 other hmem

/-- The calls of the filters of some scopes. -/
def filterCalls (frame : MsvcFrame) (chain : ScopeChain) : List SehCall :=
  (chain.filter fun entry => entry.2.filter ≠ 0).map fun entry => .scope entry.2.filter frame.ebp

/-- The calls of the `__finally` blocks of some scopes. -/
def finallyCalls (frame : MsvcFrame) (chain : ScopeChain) : List SehCall :=
  (chain.filter fun entry => entry.2.filter = 0).map fun entry => .scope entry.2.handler frame.ebp

theorem filterCalls_cons_filter {level : Nat} {s : MsvcScope} (h : s.filter ≠ 0) (chain : ScopeChain) :
    frame.filterCalls ((level, s) :: chain) = .scope s.filter frame.ebp :: frame.filterCalls chain := by
  simp [filterCalls, h]

theorem filterCalls_cons_finally {level : Nat} {s : MsvcScope} (h : ¬s.filter ≠ 0) (chain : ScopeChain) :
    frame.filterCalls ((level, s) :: chain) = frame.filterCalls chain := by
  have hzero : s.filter = 0 := Decidable.not_not.mp h
  simp [filterCalls, hzero]

theorem finallyCalls_cons_finally {level : Nat} {s : MsvcScope} (h : s.filter = 0) (chain : ScopeChain) :
    frame.finallyCalls ((level, s) :: chain) = .scope s.handler frame.ebp :: frame.finallyCalls chain := by
  simp [finallyCalls, h]

theorem finallyCalls_cons_filter {level : Nat} {s : MsvcScope} (h : ¬s.filter = 0) (chain : ScopeChain) :
    frame.finallyCalls ((level, s) :: chain) = frame.finallyCalls chain := by
  simp [finallyCalls, h]

/-- The unwind leaves the inner scopes, until it comes to its stop or has no turns left. -/
theorem localUnwind_runKept {stop n : Nat} {inside outside : ScopeChain} {memory : MsvcMemory}
    (htop : memory.tryLevel = frame.top (inside ++ outside))
    (hchain : frame.IsChain memory.scope (inside ++ outside)) (hstop : ∀ entry ∈ inside, entry.1 ≠ stop)
    (hn : inside.length = n ∨ inside.length ≤ n ∧
      (frame.top outside = frame.none ∨ frame.top outside = stop))
    {answers : List Nat} (hlen : answers.length = (frame.finallyCalls inside).length) (rest : List Nat) :
    (frame.localUnwind stop n memory).runKept (answers ++ rest) =
      (frame.finallyCalls inside, some (some { memory with tryLevel := frame.top outside }, rest)) := by
  induction inside generalizing n memory answers with
  | nil =>
    have hanswers : answers = [] := List.length_eq_zero_iff.mp hlen
    have hsame : { memory with tryLevel := frame.top outside } = memory := by
      rw [← List.nil_append outside, ← htop]
    have hdone : frame.localUnwind stop n memory = .ret (some memory) := by
      cases n with
      | zero => rfl
      | succ n =>
        have hend : memory.tryLevel = frame.none ∨ memory.tryLevel = stop := by
          rw [htop]
          exact (hn.resolve_left (by simp)).2
        unfold localUnwind
        rw [if_pos hend]
    rw [hdone, hanswers, hsame, List.nil_append, Generator.runKept_ret]
    rfl
  | cons entry inside ih =>
    obtain ⟨level, s⟩ := entry
    obtain ⟨hne, hscope, henclosing, hrest⟩ := hchain
    have hlevel : memory.tryLevel = level := htop
    have hgo : ¬(memory.tryLevel = frame.none ∨ memory.tryLevel = stop) := by
      rw [hlevel]
      exact not_or.mpr ⟨hne, hstop (level, s) List.mem_cons_self⟩
    cases n with
    | zero => simp at hn
    | succ n =>
      have hn' : inside.length = n ∨ inside.length ≤ n ∧
          (frame.top outside = frame.none ∨ frame.top outside = stop) := by
        rw [List.length_cons] at hn
        omega
      have hstop' : ∀ entry ∈ inside, entry.1 ≠ stop := fun entry hentry => hstop entry (List.mem_cons_of_mem _ hentry)
      have hstep : frame.localUnwind stop (n + 1) memory =
          if s.filter = 0 then
            .yield (.scope s.handler frame.ebp, { memory with tryLevel := s.enclosing }) fun answer =>
              frame.localUnwind stop n answer.2
          else frame.localUnwind stop n { memory with tryLevel := s.enclosing } := by
        rw [localUnwind, if_neg hgo, hlevel, hscope]
      rw [hstep]
      by_cases hfinally : s.filter = 0
      · rw [finallyCalls_cons_finally hfinally, List.length_cons] at hlen
        obtain ⟨answer, answers, rfl⟩ := List.exists_cons_of_length_pos (by omega : 0 < answers.length)
        have hnext := @ih n { memory with tryLevel := s.enclosing } henclosing hrest hstop' hn' answers
          (Nat.succ.inj hlen)
        rw [if_pos hfinally, List.cons_append, Generator.runKept_yield_cons, finallyCalls_cons_finally hfinally, hnext]
      · rw [finallyCalls_cons_filter hfinally] at hlen ⊢
        rw [if_neg hfinally]
        exact @ih n { memory with tryLevel := s.enclosing } henclosing hrest hstop' hn' answers hlen

/-- A generator calls handlers of registrations, and leaves the memory but for the head of their chain. -/
def CallsHandlers (generator : SehGenerator MsvcMemory) (memory : MsvcMemory) : Prop :=
  ∃ handlers list, (∀ call ∈ handlers, ∃ function registration, call = SehCall.handler function registration) ∧
    ∀ answers rest, answers.length = handlers.length →
      generator.runKept (answers ++ rest) = (handlers, some ({ memory with exceptionList := list }, rest))

theorem callsHandlers_ret (list : Nat) (memory : MsvcMemory) :
    CallsHandlers (.ret { memory with exceptionList := list }) memory := by
  refine ⟨[], list, by simp, fun answers rest hlen => ?_⟩
  rw [List.length_eq_zero_iff.mp hlen, Generator.runKept_ret]
  rfl

/-- The handlers of the registrations above the frame run, and the frame keeps its words. -/
theorem unwindRegistrations_callsHandlers (n registration list : Nat) (memory : MsvcMemory) :
    CallsHandlers (frame.unwindRegistrations n registration { memory with exceptionList := list }) memory := by
  induction n generalizing registration list with
  | zero => exact callsHandlers_ret list memory
  | succ n ih =>
    unfold unwindRegistrations
    split
    next => exact callsHandlers_ret list memory
    next =>
      split
      next => exact callsHandlers_ret list memory
      next next handler hregistration =>
        split
        next => exact callsHandlers_ret list memory
        next =>
          obtain ⟨handlers, last, hhandlers, hrun⟩ := ih next next
          refine ⟨.handler handler registration :: handlers, last, ?_, fun answers rest hlen => ?_⟩
          · intro call hcall
            cases List.mem_cons.mp hcall with
            | inl heq => exact ⟨handler, registration, heq⟩
            | inr hmem => exact hhandlers call hmem
          · rw [List.length_cons] at hlen
            obtain ⟨answer, answers, rfl⟩ := List.exists_cons_of_length_pos (by omega : 0 < answers.length)
            rw [List.cons_append, Generator.runKept_yield_cons, hrun answers rest (Nat.succ.inj hlen)]

/-- The verdicts of the inner filters pass the search on to the next scope. -/
theorem searchLevels_runKept {n : Nat} {inside outside : ScopeChain} {memory : MsvcMemory}
    (hchain : frame.IsChain memory.scope (inside ++ outside)) {zeros : List Nat}
    (hlen : zeros.length = (frame.filterCalls inside).length) (hzeros : ∀ verdict ∈ zeros, asLong verdict = 0)
    (answers : List Nat) :
    (frame.searchLevels (inside.length + n) (frame.top (inside ++ outside)) memory).runKept (zeros ++ answers) =
      (frame.filterCalls inside ++ ((frame.searchLevels n (frame.top outside) memory).runKept answers).1,
        ((frame.searchLevels n (frame.top outside) memory).runKept answers).2) := by
  induction inside generalizing zeros with
  | nil =>
    rw [List.length_eq_zero_iff.mp hlen]
    simp [filterCalls]
  | cons entry inside ih =>
    obtain ⟨level, s⟩ := entry
    obtain ⟨hne, hscope, henclosing, hrest⟩ := hchain
    have henclosing : s.enclosing = frame.top (inside ++ outside) := henclosing
    have hturns : ((level, s) :: inside).length + n = inside.length + n + 1 := by
      rw [List.length_cons]
      omega
    have htop : frame.top ((level, s) :: inside ++ outside) = level := rfl
    rw [hturns, htop, searchLevels, if_neg hne, hscope]
    simp only
    by_cases hfilter : s.filter ≠ 0
    · rw [filterCalls_cons_filter hfilter, List.length_cons] at hlen
      obtain ⟨verdict, zeros, rfl⟩ := List.exists_cons_of_length_pos (by omega : 0 < zeros.length)
      have hzero := hzeros verdict List.mem_cons_self
      have hneg : ¬asLong verdict < 0 := by omega
      have hpos : ¬0 < asLong verdict := by omega
      have hnext := ih hrest (Nat.succ.inj hlen) fun other hother => hzeros other (List.mem_cons_of_mem _ hother)
      rw [if_pos hfilter, List.cons_append, Generator.runKept_yield_cons]
      simp only [if_neg hneg, if_neg hpos]
      rw [henclosing, filterCalls_cons_filter hfilter, hnext]
      rfl
    · rw [filterCalls_cons_finally hfilter] at hlen ⊢
      rw [if_neg hfilter, henclosing]
      exact ih hrest hlen hzeros

/-- What `msvc_handler` does for a frame with these scopes around its try level, when the guest leaves its
memory as it is. -/
structure MsvcLaw (frame : MsvcFrame) (memory : MsvcMemory) (chain : ScopeChain) (pointers : Nat) : Prop where
  /-- No filter takes the exception. -/
  unhandled : ∀ {flags zeros}, isUnwinding flags = false → zeros.length = (frame.filterCalls chain).length →
    (∀ verdict ∈ zeros, asLong verdict = 0) → ∀ answers,
    (frame.msvcHandler flags pointers memory).runKept (zeros ++ answers) =
      (frame.filterCalls chain,
        some (.disposition .continueSearch { memory with exceptionPointers := pointers }, answers))
  /-- The first verdict that is not zero is negative. -/
  negative : ∀ {flags zeros inside level s outside verdict}, isUnwinding flags = false →
    chain = inside ++ (level, s) :: outside → s.filter ≠ 0 →
    zeros.length = (frame.filterCalls inside).length → (∀ verdict ∈ zeros, asLong verdict = 0) →
    asLong verdict < 0 → ∀ answers,
    (frame.msvcHandler flags pointers memory).runKept (zeros ++ verdict :: answers) =
      (frame.filterCalls inside ++ [.scope s.filter frame.ebp],
        some (.disposition .continueExecution { memory with exceptionPointers := pointers }, answers))
  /-- The first verdict that is not zero is positive: the registrations above the frame and the scopes inside the
  level are left, and the frame goes on at the handler of the level. -/
  positive : ∀ {flags inside level s outside}, isUnwinding flags = false →
    chain = inside ++ (level, s) :: outside → s.filter ≠ 0 →
    ∃ handlers list, (∀ call ∈ handlers, ∃ function registration, call = SehCall.handler function registration) ∧
      ∀ {zeros verdict others blocks}, zeros.length = (frame.filterCalls inside).length →
        (∀ verdict ∈ zeros, asLong verdict = 0) → 0 < asLong verdict →
        others.length = handlers.length → blocks.length = (frame.finallyCalls inside).length → ∀ answers,
        (frame.msvcHandler flags pointers memory).runKept (zeros ++ verdict :: (others ++ (blocks ++ answers))) =
          (frame.filterCalls inside ++ .scope s.filter frame.ebp :: (handlers ++ frame.finallyCalls inside),
            some (.resume frame.ebp memory.savedEsp s.handler
              { memory with exceptionPointers := pointers, exceptionList := list, tryLevel := s.enclosing }, answers))
  /-- The frame is unwound. -/
  unwind : ∀ {flags blocks}, isUnwinding flags = true → blocks.length = (frame.finallyCalls chain).length →
    ∀ answers,
    (frame.msvcHandler flags pointers memory).runKept (blocks ++ answers) =
      (frame.finallyCalls chain,
        some (.disposition .continueSearch { memory with tryLevel := frame.none }, answers))

theorem msvcHandler_search {flags : Nat} (hflags : isUnwinding flags = false) (pointers : Nat)
    (memory : MsvcMemory) :
    frame.msvcHandler flags pointers memory =
      frame.searchLevels maxFrames memory.tryLevel { memory with exceptionPointers := pointers } := by
  unfold msvcHandler
  rw [hflags, if_neg Bool.false_ne_true]

/-- The search is at the scope after `inside` when the filters of `inside` have passed the exception on. -/
theorem msvcHandler_runKept {flags : Nat} (hflags : isUnwinding flags = false) (pointers : Nat)
    {memory : MsvcMemory} {inside outside : ScopeChain} (htop : frame.top (inside ++ outside) = memory.tryLevel)
    (hchain : frame.IsChain memory.scope (inside ++ outside)) (hdepth : inside.length ≤ maxFrames)
    {zeros : List Nat} (hlen : zeros.length = (frame.filterCalls inside).length)
    (hzeros : ∀ verdict ∈ zeros, asLong verdict = 0) (answers : List Nat) :
    let search := (frame.searchLevels (maxFrames - inside.length) (frame.top outside)
      { memory with exceptionPointers := pointers }).runKept answers
    (frame.msvcHandler flags pointers memory).runKept (zeros ++ answers) =
      (frame.filterCalls inside ++ search.1, search.2) := by
  intro search
  have hturns : inside.length + (maxFrames - inside.length) = maxFrames := by omega
  have hlevels := @searchLevels_runKept frame (maxFrames - inside.length) inside outside
    { memory with exceptionPointers := pointers } hchain zeros hlen hzeros answers
  rw [htop, hturns] at hlevels
  rw [msvcHandler_search hflags]
  exact hlevels

/-- The search calls the filter of a scope. -/
theorem searchLevels_filter {n level : Nat} {s : MsvcScope} {memory : MsvcMemory} (hne : level ≠ frame.none)
    (hscope : memory.scope level = some s) (hfilter : s.filter ≠ 0) (verdict : Nat) (answers : List Nat) :
    let next : SehGenerator MsvcResult :=
      if asLong verdict < 0 then .ret (.disposition .continueExecution memory)
      else if 0 < asLong verdict then frame.takeException level s memory
      else frame.searchLevels n s.enclosing memory
    (frame.searchLevels (n + 1) level memory).runKept (verdict :: answers) =
      (.scope s.filter frame.ebp :: (next.runKept answers).1, (next.runKept answers).2) := by
  intro next
  rw [searchLevels, if_neg hne, hscope]
  simp only [if_pos hfilter, Generator.runKept_yield_cons]
  rfl

theorem takeException_runKept {level : Nat} {s : MsvcScope} {inside outside : ScopeChain} {memory : MsvcMemory}
    (htop : frame.top (inside ++ (level, s) :: outside) = memory.tryLevel)
    (hchain : frame.IsChain memory.scope (inside ++ (level, s) :: outside))
    (hinside : ∀ entry ∈ inside, entry.1 ≠ level) (hdepth : inside.length ≤ maxFrames) :
    ∃ handlers list, (∀ call ∈ handlers, ∃ function registration, call = SehCall.handler function registration) ∧
      ∀ {others blocks}, others.length = handlers.length → blocks.length = (frame.finallyCalls inside).length →
        ∀ answers,
        (frame.takeException level s memory).runKept (others ++ (blocks ++ answers)) =
          (handlers ++ frame.finallyCalls inside,
            some (.resume frame.ebp memory.savedEsp s.handler
              { memory with exceptionList := list, tryLevel := s.enclosing }, answers)) := by
  obtain ⟨handlers, list, hhandlers, hrun⟩ :=
    frame.unwindRegistrations_callsHandlers maxFrames memory.exceptionList memory.exceptionList memory
  refine ⟨handlers, list, hhandlers, fun {others blocks} hothers hblocks answers => ?_⟩
  have hunwind := @localUnwind_runKept frame level maxFrames inside ((level, s) :: outside)
    { memory with exceptionList := list } htop.symm hchain hinside (Or.inr ⟨hdepth, Or.inr rfl⟩) blocks hblocks answers
  unfold takeException
  rw [Generator.runKept_bind _ (hrun others (blocks ++ answers) hothers), Generator.runKept_bind _ hunwind]
  simp only [Generator.runKept_ret, List.append_nil, pure]

/-- A scope of the chain, with the turns that are left for it. -/
theorem ScopesAround.split {memory : MsvcMemory} {chain inside outside : ScopeChain} {level : Nat} {s : MsvcScope}
    (h : frame.ScopesAround memory.scope memory.tryLevel chain) (hdepth : chain.length ≤ maxFrames)
    (hsplit : chain = inside ++ (level, s) :: outside) :
    ∃ n, inside.length + (n + 1) = maxFrames ∧
      frame.top (inside ++ (level, s) :: outside) = memory.tryLevel ∧
      frame.IsChain memory.scope (inside ++ (level, s) :: outside) ∧ ∀ entry ∈ inside, entry.1 ≠ level := by
  subst hsplit
  rw [List.length_append, List.length_cons] at hdepth
  refine ⟨maxFrames - inside.length - 1, by omega, h.top, h.linked, fun entry hentry => ?_⟩
  have hlt := (List.pairwise_append.mp h.falls).2.2 entry hentry (level, s) List.mem_cons_self
  exact Nat.ne_of_gt hlt

/-- `msvc_handler` does what it should for scopes that are not deeper than its number of turns. -/
theorem msvcLaw_of_depth {memory : MsvcMemory} {chain : ScopeChain}
    (h : frame.ScopesAround memory.scope memory.tryLevel chain) (hdepth : chain.length ≤ maxFrames)
    (pointers : Nat) : frame.MsvcLaw memory chain pointers := by
  refine ⟨?_, ?_, ?_, ?_⟩
  · intro flags zeros hflags hlen hzeros answers
    have hchain : frame.IsChain memory.scope (chain ++ []) := by
      rw [List.append_nil]
      exact h.linked
    have htop : frame.top (chain ++ []) = memory.tryLevel := by
      rw [List.append_nil]
      exact h.top
    have hsearch := msvcHandler_runKept hflags pointers htop hchain hdepth hlen hzeros answers
    have hend : frame.searchLevels (maxFrames - chain.length) (frame.top [])
        { memory with exceptionPointers := pointers } =
        .ret (.disposition .continueSearch { memory with exceptionPointers := pointers }) := by
      cases maxFrames - chain.length with
      | zero => rfl
      | succ n => exact if_pos rfl
    rw [hsearch, hend, Generator.runKept_ret, List.append_nil]
  · intro flags zeros inside level s outside verdict hflags hsplit hfilter hlen hzeros hneg answers
    obtain ⟨n, hn, htop, hchain, -⟩ := h.split hdepth hsplit
    have hsearch := msvcHandler_runKept hflags pointers htop hchain (by omega) hlen hzeros (verdict :: answers)
    have hlevel : frame.IsChain memory.scope ((level, s) :: outside) := hchain.right
    have hfilterCall := @searchLevels_filter frame n level s { memory with exceptionPointers := pointers } hlevel.1
      hlevel.2.1 hfilter verdict answers
    have hturns : maxFrames - inside.length = n + 1 := by omega
    simp only [if_pos hneg, Generator.runKept_ret] at hfilterCall
    rw [hsearch, hturns]
    simp only [top, hfilterCall]
  · intro flags inside level s outside hflags hsplit hfilter
    obtain ⟨n, hn, htop, hchain, hinside⟩ := h.split hdepth hsplit
    obtain ⟨handlers, list, hhandlers, htake⟩ := @takeException_runKept frame level s inside outside
      { memory with exceptionPointers := pointers } htop hchain hinside (by omega)
    refine ⟨handlers, list, hhandlers, ?_⟩
    intro zeros verdict others blocks hlen hzeros hpos hothers hblocks answers
    have hsearch := msvcHandler_runKept hflags pointers htop hchain (by omega) hlen hzeros
      (verdict :: (others ++ (blocks ++ answers)))
    have hlevel : frame.IsChain memory.scope ((level, s) :: outside) := hchain.right
    have hfilterCall := @searchLevels_filter frame n level s { memory with exceptionPointers := pointers } hlevel.1
      hlevel.2.1 hfilter verdict (others ++ (blocks ++ answers))
    have hturns : maxFrames - inside.length = n + 1 := by omega
    have hneg : ¬asLong verdict < 0 := by omega
    simp only [if_neg hneg, if_pos hpos, htake hothers hblocks answers] at hfilterCall
    rw [hsearch, hturns]
    simp only [top, hfilterCall]
  · intro flags blocks hflags hblocks answers
    have hunwind := @localUnwind_runKept frame frame.none maxFrames chain [] memory
      (by rw [List.append_nil]; exact h.top.symm) (by rw [List.append_nil]; exact h.linked) h.linked.ne_none
      (Or.inr ⟨hdepth, Or.inl rfl⟩) blocks hblocks answers
    unfold msvcHandler
    rw [if_pos hflags, Generator.runKept_bind _ hunwind]
    simp only [Generator.runKept_ret, List.append_nil, pure]
    rfl

/-- For a forest of scopes that are not deeper than `MAX_FRAMES` around the try level, `msvc_handler` consults
the filters, leaves the inner scopes and goes on as it should. For every memory, whatever the guest does to it, each
loop of the handler ends after `MAX_FRAMES` calls, and the handler returns. -/
theorem msvcHandler_law {memory : MsvcMemory} {count : Nat} (h : frame.ScopeForest memory.scope count)
    (hlevel : memory.tryLevel = frame.none ∨ memory.tryLevel < count) :
    (∃ chain, frame.ScopesAround memory.scope memory.tryLevel chain ∧
      (chain.length ≤ maxFrames → ∀ pointers, frame.MsvcLaw memory chain pointers)) ∧
    ∀ (other : MsvcFrame) (corrupt : MsvcMemory), other.LoopsEnd corrupt ∧ ∀ flags pointers : Nat,
      (other.msvcHandler flags pointers corrupt).ReturnsWithin (maxFrames + (maxFrames + maxFrames)) := by
  obtain ⟨chain, hchain, -⟩ := h.scopesAround hlevel
  exact ⟨⟨chain, hchain, fun hdepth pointers => msvcLaw_of_depth hchain hdepth pointers⟩,
    fun other corrupt => ⟨other.loopsEnd corrupt,
      fun flags pointers => other.msvcHandler_returnsWithin flags pointers corrupt⟩⟩

def seh3 : MsvcFrame := ⟨0x12ff70, 0xFFFFFFFF⟩

/-- A `__finally` in an `__except`. -/
def guardedMemory : MsvcMemory where
  tryLevel := 1
  exceptionPointers := 0
  savedEsp := 0x12ff00
  exceptionList := 0x12ff70
  scope
    | 0 => some ⟨0xFFFFFFFF, 0x401000, 0x401010⟩
    | 1 => some ⟨0, 0, 0x401020⟩
    | _ => .none
  registrationAt _ := .none

theorem guardedMemory_forest : seh3.ScopeForest guardedMemory.scope 2 := by
  refine ⟨fun level hlevel => ?_, by decide⟩
  have hcases : level = 0 ∨ level = 1 := by omega
  obtain rfl | rfl := hcases
  · exact ⟨_, rfl, Or.inl rfl⟩
  · exact ⟨_, rfl, Or.inr (by decide)⟩

theorem msvcHandler_law_guarded :
    (∃ chain, seh3.ScopesAround guardedMemory.scope guardedMemory.tryLevel chain ∧
      (chain.length ≤ maxFrames → ∀ pointers, seh3.MsvcLaw guardedMemory chain pointers)) ∧
    ∀ (other : MsvcFrame) (corrupt : MsvcMemory), other.LoopsEnd corrupt ∧ ∀ flags pointers : Nat,
      (other.msvcHandler flags pointers corrupt).ReturnsWithin (maxFrames + (maxFrames + maxFrames)) :=
  msvcHandler_law guardedMemory_forest (Or.inr (by decide))

/-- A `__finally` in each level, down to level 0. -/
def deepMemory : MsvcMemory where
  tryLevel := maxFrames
  exceptionPointers := 0
  savedEsp := 0
  exceptionList := 0
  scope level := some ⟨if level = 0 then 0xFFFFFFFF else level - 1, 0, 0x401000⟩
  registrationAt _ := .none

def deepLevels : Nat → ScopeChain
  | 0 => []
  | n + 1 => (n + 1, ⟨n, 0, 0x401000⟩) :: deepLevels n

def outermost : ScopeChain := [(0, ⟨0xFFFFFFFF, 0, 0x401000⟩)]

theorem top_deepLevels (n : Nat) : seh3.top (deepLevels n ++ outermost) = n := by
  cases n with
  | zero => rfl
  | succ n => rfl

theorem isChain_deepLevels {n : Nat} (h : n < 0xFFFFFFFF) :
    seh3.IsChain deepMemory.scope (deepLevels n ++ outermost) := by
  induction n with
  | zero => exact ⟨by decide, rfl, rfl, trivial⟩
  | succ n ih =>
    have hne : n + 1 ≠ seh3.none := by
      show n + 1 ≠ 0xFFFFFFFF
      omega
    exact ⟨hne, rfl, (top_deepLevels n).symm, ih (by omega)⟩

theorem finallyCalls_deepLevels (n : Nat) : (seh3.finallyCalls (deepLevels n)).length = n := by
  induction n with
  | zero => rfl
  | succ n ih =>
    rw [deepLevels, finallyCalls_cons_finally rfl, List.length_cons, ih]

/-- With 4097 scopes the unwind stops at level 0 and does not run the last block. -/
theorem msvcHandler_not_always :
    seh3.ScopeForest deepMemory.scope (maxFrames + 1) ∧ deepMemory.tryLevel < maxFrames + 1 ∧
      ∃ calls memory, (seh3.msvcHandler exceptionUnwinding 0 deepMemory).runKept (List.replicate maxFrames 0) =
          (calls, some (.disposition .continueSearch memory, [])) ∧
        memory.tryLevel = 0 ∧ memory.tryLevel ≠ seh3.none := by
  have hlength : (deepLevels maxFrames).length = maxFrames := by
    have hall : ∀ n, (deepLevels n).length = n := by
      intro n
      induction n with
      | zero => rfl
      | succ n ih => rw [deepLevels, List.length_cons, ih]
    exact hall maxFrames
  have hchain := isChain_deepLevels (show maxFrames < 0xFFFFFFFF by decide)
  have hne : ∀ entry ∈ deepLevels maxFrames, entry.1 ≠ seh3.none :=
    fun entry hentry => hchain.ne_none entry (List.mem_append_left _ hentry)
  have hunwind := @localUnwind_runKept seh3 seh3.none maxFrames (deepLevels maxFrames) outermost deepMemory
    (top_deepLevels maxFrames).symm hchain hne (Or.inl hlength) (List.replicate maxFrames 0)
    (by rw [finallyCalls_deepLevels, List.length_replicate]) []
  rw [List.append_nil] at hunwind
  refine ⟨⟨fun level hlevel => ?_, by decide⟩, Nat.lt_succ_self _, seh3.finallyCalls (deepLevels maxFrames),
    { deepMemory with tryLevel := 0 }, ?_, rfl, by decide⟩
  · refine ⟨_, rfl, ?_⟩
    by_cases hzero : level = 0
    · exact Or.inl (if_pos hzero)
    · right
      rw [if_neg hzero]
      show level - 1 < level
      omega
  · unfold msvcHandler
    rw [if_pos (by decide), Generator.runKept_bind _ hunwind]
    simp only [Generator.runKept_ret, List.append_nil, pure]
    rfl

end MsvcFrame

end Speakeasy
