import Speakeasy.StringSearches

namespace Speakeasy

open ByteMemory

def quoteMark : Nat := 0x22

def backslash : Nat := 0x5C

def isBlank (c : Nat) : Bool := c = 0x20 || c = 0x09

structure SplitState where
  args : List (List Nat)
  arg : List Nat
  started : Bool
  quotes : Nat
  backslashes : Nat

/-- The loop over the quotes that follow a quote: the argument, the count of quotes and the rest of the text. -/
def quoteRun (arg : List Nat) (quotes : Nat) : List Nat → List Nat × Nat × List Nat
  | [] => (arg, quotes, [])
  | c :: cs =>
    if c = quoteMark then
      if quotes + 1 = 3 then quoteRun (arg ++ [quoteMark]) 0 cs else quoteRun arg (quotes + 1) cs
    else (arg, quotes, c :: cs)

theorem quoteRun_length (arg : List Nat) (quotes : Nat) (cs : List Nat) :
    (quoteRun arg quotes cs).2.2.length ≤ cs.length := by
  induction cs generalizing arg quotes with
  | nil => exact Nat.le_refl _
  | cons c cs ih =>
    rw [quoteRun]
    split
    next =>
      split
      next => exact Nat.le_succ_of_le (ih _ _)
      next => exact Nat.le_succ_of_le (ih _ _)
    next => exact Nat.le_refl _

/-- The arguments after the program name. -/
def splitLoop (s : SplitState) : List Nat → List (List Nat)
  | [] => if s.started then s.args ++ [s.arg ++ List.replicate s.backslashes backslash] else s.args
  | c :: cs =>
    if c = backslash then splitLoop { s with backslashes := s.backslashes + 1, started := true } cs
    else if c = quoteMark then
      let arg := s.arg ++ List.replicate (s.backslashes / 2) backslash
      let run :=
        if s.backslashes % 2 = 1 then quoteRun (arg ++ [quoteMark]) s.quotes cs else quoteRun arg (s.quotes + 1) cs
      splitLoop ⟨s.args, run.1, true, if run.2.1 = 2 then 0 else run.2.1, 0⟩ run.2.2
    else if isBlank c ∧ s.quotes = 0 then
      let arg := s.arg ++ List.replicate s.backslashes backslash
      splitLoop ⟨if s.started then s.args ++ [arg] else s.args, [], false, s.quotes, 0⟩ cs
    else splitLoop ⟨s.args, s.arg ++ (List.replicate s.backslashes backslash ++ [c]), true, s.quotes, 0⟩ cs
termination_by cs => cs.length
decreasing_by
  · exact Nat.lt_succ_self _
  · show (if s.backslashes % 2 = 1 then _ else _ : List Nat × Nat × List Nat).2.2.length < _
    split
    next => exact Nat.lt_succ_of_le (quoteRun_length _ _ _)
    next => exact Nat.lt_succ_of_le (quoteRun_length _ _ _)
  · exact Nat.lt_succ_self _
  · exact Nat.lt_succ_self _

/-- The program name, and where it ends. -/
def programName (cmdline : List Nat) : List Nat × Nat :=
  match cmdline with
  | c :: cs =>
    if c = quoteMark then
      match cs.idxOf? quoteMark with
      | some i => (cs.take i, i + 2)
      | none => (cs, cmdline.length + 1)
    else
      match cmdline.findIdx? isBlank with
      | some i => (cmdline.take i, i)
      | none => (cmdline, cmdline.length)
  | [] => ([], 0)

def splitCommandLine (cmdline : List Nat) : List (List Nat) :=
  let (name, i) := programName cmdline
  splitLoop ⟨[name], [], false, 0, 0⟩ (cmdline.drop i)

/-- An argument between quotes, after a number of backslashes that are not yet written. -/
def quoteBody : Nat → List Nat → List Nat
  | n, [] => List.replicate (2 * n) backslash
  | n, c :: cs =>
    if c = backslash then quoteBody (n + 1) cs
    else if c = quoteMark then List.replicate (2 * n + 1) backslash ++ quoteMark :: quoteBody 0 cs
    else List.replicate n backslash ++ c :: quoteBody 0 cs

example : quoteBody 0 [97, backslash, quoteMark] = [97, backslash, backslash, backslash, quoteMark] := by
  rw [quoteBody]
  decide

/-- The standard quoting of an argument. -/
def quoteArgument (arg : List Nat) : List Nat :=
  if arg = [] ∨ ∃ c ∈ arg, isBlank c ∨ c = quoteMark then quoteMark :: (quoteBody 0 arg ++ [quoteMark]) else arg

/-- The program name in quotes, and each further argument after the blanks before it. -/
def joinArguments (rest : List (List Nat × List Nat)) : List Nat := rest.flatMap fun p => p.1 ++ quoteArgument p.2

def joinCommandLine (first : List Nat) (rest : List (List Nat × List Nat)) : List Nat :=
  quoteMark :: (first ++ quoteMark :: joinArguments rest)

section RoundTrip

variable {args : List (List Nat)} {arg cs rest : List Nat} {started : Bool} {quotes backslashes : Nat}

theorem quote_ne_backslash : quoteMark ≠ backslash := by decide

theorem splitLoop_backslashes (n : Nat) :
    splitLoop ⟨args, arg, true, quotes, backslashes⟩ (List.replicate n backslash ++ cs) =
      splitLoop ⟨args, arg, true, quotes, backslashes + n⟩ cs := by
  induction n generalizing backslashes with
  | zero => rfl
  | succ n ih =>
    rw [List.replicate_succ, List.cons_append, splitLoop, if_pos rfl, ih, Nat.add_assoc, Nat.add_comm 1 n]

/-- Inside quotes, any other character is of the argument. -/
theorem splitLoop_other {c : Nat} (hb : c ≠ backslash) (hq : c ≠ quoteMark) (hin : ¬(isBlank c ∧ quotes = 0)) :
    splitLoop ⟨args, arg, started, quotes, backslashes⟩ (c :: cs) =
      splitLoop ⟨args, arg ++ (List.replicate backslashes backslash ++ [c]), true, quotes, 0⟩ cs := by
  rw [splitLoop, if_neg hb, if_neg hq, if_neg hin]

theorem quoteRun_stop (h : ∀ c ∈ cs.head?, c ≠ quoteMark) : quoteRun arg quotes cs = (arg, quotes, cs) := by
  cases cs with
  | nil => rfl
  | cons c cs => rw [quoteRun, if_neg (h c rfl)]

/-- The quote that opens an argument. -/
theorem splitLoop_open (h : ∀ c ∈ cs.head?, c ≠ quoteMark) :
    splitLoop ⟨args, [], started, 0, 0⟩ (quoteMark :: cs) = splitLoop ⟨args, [], true, 1, 0⟩ cs := by
  rw [splitLoop, if_neg quote_ne_backslash, if_pos rfl]
  simp only [Nat.zero_mod, Nat.zero_ne_one, if_false, Nat.zero_div, List.replicate_zero, List.append_nil, Nat.zero_add]
  rw [quoteRun_stop h]
  rfl

/-- The quote that closes an argument, after an even number of backslashes. -/
theorem splitLoop_close (n : Nat) (h : ∀ c ∈ rest.head?, c ≠ quoteMark) :
    splitLoop ⟨args, arg, started, 1, 2 * n⟩ (quoteMark :: rest) =
      splitLoop ⟨args, arg ++ List.replicate n backslash, true, 0, 0⟩ rest := by
  have heven : ¬2 * n % 2 = 1 := by omega
  have hhalf : 2 * n / 2 = n := by omega
  rw [splitLoop, if_neg quote_ne_backslash, if_pos rfl]
  simp only [if_neg heven, hhalf]
  rw [quoteRun_stop h]
  rfl

theorem quoteBody_head (n : Nat) : ∀ c ∈ (quoteBody n cs).head?, c ≠ quoteMark := by
  have hrun : ∀ (k : Nat) (ds : List Nat), ∀ c ∈ (List.replicate (k + 1) backslash ++ ds).head?, c ≠ quoteMark := by
    intro k ds c hc
    rw [List.replicate_succ, List.cons_append, List.head?_cons, Option.mem_some] at hc
    exact hc ▸ quote_ne_backslash.symm
  induction cs generalizing n with
  | nil =>
    cases n with
    | zero => intro c hc; cases hc
    | succ n =>
      have h := hrun (2 * n + 1) []
      rw [List.append_nil] at h
      exact h
  | cons c cs ih =>
    rw [quoteBody]
    split
    next => exact ih (n + 1)
    next =>
      split
      next => exact hrun (2 * n) _
      next hq =>
        cases n with
        | zero =>
          intro d hd
          exact Option.mem_some.mp hd ▸ hq
        | succ n => exact hrun n _

theorem quoteBody_ne_nil {n : Nat} (h : 0 < n ∨ cs ≠ []) : quoteBody n cs ≠ [] := by
  induction cs generalizing n with
  | nil =>
    intro hnil
    have hlen := congrArg List.length hnil
    rw [quoteBody, List.length_replicate, List.length_nil] at hlen
    rcases h with hn | hcs
    · omega
    · exact hcs rfl
  | cons c cs ih =>
    rw [quoteBody]
    split
    next => exact ih (Or.inl (Nat.succ_pos n))
    next =>
      split
      next => exact List.append_ne_nil_of_right_ne_nil _ (List.cons_ne_nil _ _)
      next => exact List.append_ne_nil_of_right_ne_nil _ (List.cons_ne_nil _ _)

/-- A quoted argument and its closing quote are read back, from a state with open quotes. -/
theorem splitLoop_quoteBody (n : Nat) (hrest : ∀ c ∈ rest.head?, c ≠ quoteMark) :
    splitLoop ⟨args, arg, true, 1, 0⟩ (quoteBody n cs ++ quoteMark :: rest) =
      splitLoop ⟨args, arg ++ (List.replicate n backslash ++ cs), true, 0, 0⟩ rest := by
  induction cs generalizing n arg with
  | nil => rw [quoteBody, splitLoop_backslashes, Nat.zero_add, splitLoop_close n hrest, List.append_nil]
  | cons c cs ih =>
    rw [quoteBody]
    split
    next hb => rw [ih, hb, List.replicate_succ', List.append_assoc, List.singleton_append]
    next hb =>
      split
      next hq =>
        have hodd : (2 * n + 1) % 2 = 1 := by omega
        have hhalf : (2 * n + 1) / 2 = n := by omega
        have hjoin : arg ++ List.replicate n backslash ++ [quoteMark] ++ (List.replicate 0 backslash ++ cs) =
            arg ++ (List.replicate n backslash ++ c :: cs) := by
          rw [hq]
          simp
        rw [List.append_assoc, List.cons_append, splitLoop_backslashes, Nat.zero_add, splitLoop,
          if_neg quote_ne_backslash, if_pos rfl]
        simp only [hodd, hhalf, if_true]
        cases cs with
        | nil =>
          -- the quote that closes stands right after the escaped quote, and one run takes both
          have hrun : quoteRun (arg ++ List.replicate n backslash ++ [quoteMark]) 1 (quoteBody 0 [] ++ quoteMark :: rest) =
              (arg ++ List.replicate n backslash ++ [quoteMark], 2, rest) := by
            show quoteRun _ 1 (quoteMark :: rest) = _
            rw [quoteRun, if_pos rfl, if_neg (by decide), quoteRun_stop hrest]
          rw [hrun]
          simp only [if_true]
          rw [← hjoin, List.replicate_zero, List.nil_append, List.append_nil]
        | cons d ds =>
          have hstop : ∀ c ∈ (quoteBody 0 (d :: ds) ++ quoteMark :: rest).head?, c ≠ quoteMark := by
            have hne : quoteBody 0 (d :: ds) ≠ [] := quoteBody_ne_nil (Or.inr (List.cons_ne_nil _ _))
            rw [List.head?_append_of_ne_nil _ hne]
            exact quoteBody_head 0
          rw [quoteRun_stop hstop]
          simp only [Nat.reduceEqDiff, if_false]
          rw [ih, hjoin]
      next hq =>
        have hblank : ¬(isBlank c ∧ 1 = 0) := fun h => absurd h.2 Nat.one_ne_zero
        rw [List.append_assoc, List.cons_append, splitLoop_backslashes, Nat.zero_add, splitLoop_other hb hq hblank, ih,
          List.replicate_zero, List.nil_append, List.append_assoc, List.append_assoc, List.singleton_append]

/-- An argument that needs no quotes. -/
theorem splitLoop_plain (h : ∀ c ∈ cs, isBlank c = false ∧ c ≠ quoteMark) (hne : cs ≠ [] ∨ started = true) :
    ∃ arg' k, arg' ++ List.replicate k backslash = arg ++ List.replicate backslashes backslash ++ cs ∧
      splitLoop ⟨args, arg, started, 0, backslashes⟩ (cs ++ rest) = splitLoop ⟨args, arg', true, 0, k⟩ rest := by
  induction cs generalizing arg started backslashes with
  | nil =>
    have hstarted : started = true := hne.resolve_left fun h => h rfl
    exact ⟨arg, backslashes, by rw [List.append_nil], by rw [hstarted, List.nil_append]⟩
  | cons c cs ih =>
    obtain ⟨hblank, hq⟩ := h c List.mem_cons_self
    have htail := fun d hd => h d (List.mem_cons_of_mem c hd)
    rw [List.cons_append]
    by_cases hb : c = backslash
    · obtain ⟨arg', k, hjoin, hloop⟩ := @ih arg true (backslashes + 1) htail (Or.inr rfl)
      refine ⟨arg', k, ?_, ?_⟩
      · rw [hjoin, hb, List.replicate_succ', List.append_assoc, List.append_assoc, List.append_assoc, List.singleton_append]
      · rw [splitLoop, if_pos hb, hloop]
    · obtain ⟨arg', k, hjoin, hloop⟩ :=
        @ih (arg ++ (List.replicate backslashes backslash ++ [c])) true 0 htail (Or.inr rfl)
      refine ⟨arg', k, ?_, ?_⟩
      · rw [hjoin]
        simp
      · have hout : ¬(isBlank c ∧ 0 = 0) := fun hc => Bool.false_ne_true (hblank.symm.trans hc.1)
        rw [splitLoop_other hb hq hout, hloop]

theorem splitLoop_blanks (h : ∀ b ∈ cs, isBlank b = true) :
    splitLoop ⟨args, [], false, 0, 0⟩ (cs ++ rest) = splitLoop ⟨args, [], false, 0, 0⟩ rest := by
  induction cs with
  | nil => rfl
  | cons b cs ih =>
    have hb := h b List.mem_cons_self
    have hne : b ≠ backslash := fun heq => by rw [heq] at hb; exact absurd hb (by decide)
    have hq : b ≠ quoteMark := fun heq => by rw [heq] at hb; exact absurd hb (by decide)
    rw [List.cons_append, splitLoop, if_neg hne, if_neg hq, if_pos ⟨hb, rfl⟩]
    exact ih fun d hd => h d (List.mem_cons_of_mem b hd)

/-- What follows an argument ends it. -/
theorem splitLoop_flush (h : ∀ c ∈ cs.head?, isBlank c = true) :
    splitLoop ⟨args, arg, true, 0, backslashes⟩ cs =
      splitLoop ⟨args ++ [arg ++ List.replicate backslashes backslash], [], false, 0, 0⟩ cs := by
  cases cs with
  | nil => rw [splitLoop, splitLoop]; rfl
  | cons b cs =>
    have hb := h b rfl
    have hne : b ≠ backslash := fun heq => by rw [heq] at hb; exact absurd hb (by decide)
    have hq : b ≠ quoteMark := fun heq => by rw [heq] at hb; exact absurd hb (by decide)
    rw [splitLoop, splitLoop, if_neg hne, if_neg hq, if_pos ⟨hb, rfl⟩, if_neg hne, if_neg hq, if_pos ⟨hb, rfl⟩]
    rfl

theorem splitLoop_quoteArgument (hrest : ∀ c ∈ rest.head?, isBlank c = true) :
    splitLoop ⟨args, [], false, 0, 0⟩ (quoteArgument arg ++ rest) = splitLoop ⟨args ++ [arg], [], false, 0, 0⟩ rest := by
  have hstop : ∀ c ∈ rest.head?, c ≠ quoteMark := by
    intro c hc heq
    have hblank := hrest c hc
    rw [heq] at hblank
    exact absurd hblank (by decide)
  unfold quoteArgument
  split
  next =>
    have hopen : ∀ c ∈ (quoteBody 0 arg ++ quoteMark :: rest).head?, quoteBody 0 arg ≠ [] → c ≠ quoteMark := by
      intro c hc hne
      rw [List.head?_append_of_ne_nil _ hne] at hc
      exact quoteBody_head 0 c hc
    by_cases hnil : arg = []
    · have hempty : quoteBody 0 [] = [] := rfl
      rw [hnil, hempty, List.nil_append, List.cons_append, List.singleton_append, splitLoop, if_neg quote_ne_backslash,
        if_pos rfl]
      simp only [Nat.zero_mod, Nat.zero_ne_one, if_false, Nat.zero_div, List.replicate_zero, List.append_nil, Nat.zero_add]
      rw [quoteRun, if_pos rfl, if_neg (by decide), quoteRun_stop hstop]
      simp only [if_true]
      rw [splitLoop_flush hrest]
      rfl
    · have hne := quoteBody_ne_nil (n := 0) (Or.inr hnil)
      rw [List.cons_append, List.append_assoc, List.singleton_append, splitLoop_open fun c hc => hopen c hc hne,
        splitLoop_quoteBody 0 hstop, splitLoop_flush hrest]
      simp
  next hplain =>
    have hchars : ∀ c ∈ arg, isBlank c = false ∧ c ≠ quoteMark := by
      intro c hc
      constructor
      · rw [← Bool.not_eq_true]
        exact fun hblank => hplain (Or.inr ⟨c, hc, Or.inl hblank⟩)
      · exact fun heq => hplain (Or.inr ⟨c, hc, Or.inr heq⟩)
    obtain ⟨arg', k, hjoin, hloop⟩ :=
      @splitLoop_plain args [] arg rest false 0 hchars (Or.inl fun hnil => hplain (Or.inl hnil))
    rw [hloop, splitLoop_flush hrest, hjoin, List.replicate_zero, List.append_nil, List.nil_append]

theorem joinArguments_head {ps : List (List Nat × List Nat)} (h : ∀ p ∈ ps, p.1 ≠ [] ∧ ∀ b ∈ p.1, isBlank b = true) :
    ∀ c ∈ (joinArguments ps).head?, isBlank c = true := by
  cases ps with
  | nil => intro c hc; cases hc
  | cons p ps =>
    obtain ⟨hne, hblanks⟩ := h p List.mem_cons_self
    have hjoin : joinArguments (p :: ps) = p.1 ++ (quoteArgument p.2 ++ joinArguments ps) := List.append_assoc ..
    intro c hc
    rw [hjoin, List.head?_append_of_ne_nil _ hne] at hc
    exact hblanks c (List.mem_of_mem_head? hc)

theorem splitLoop_joinArguments {ps : List (List Nat × List Nat)}
    (h : ∀ p ∈ ps, p.1 ≠ [] ∧ ∀ b ∈ p.1, isBlank b = true) :
    splitLoop ⟨args, [], false, 0, 0⟩ (joinArguments ps) = args ++ ps.map Prod.snd := by
  induction ps generalizing args with
  | nil =>
    rw [joinArguments, List.flatMap_nil, splitLoop, List.map_nil, List.append_nil]
    rfl
  | cons p ps ih =>
    have htail := fun q hq => h q (List.mem_cons_of_mem p hq)
    have hjoin : joinArguments (p :: ps) = p.1 ++ (quoteArgument p.2 ++ joinArguments ps) := List.append_assoc ..
    rw [hjoin, splitLoop_blanks (h p List.mem_cons_self).2, splitLoop_quoteArgument (joinArguments_head htail), ih htail,
      List.map_cons, List.append_assoc, List.singleton_append]

/-- The split inverts the standard quoting. -/
theorem splitCommandLine_join {first : List Nat} {ps : List (List Nat × List Nat)} (hfirst : quoteMark ∉ first)
    (h : ∀ p ∈ ps, p.1 ≠ [] ∧ ∀ b ∈ p.1, isBlank b = true) :
    splitCommandLine (joinCommandLine first ps) = first :: ps.map Prod.snd := by
  have hindex : (first ++ quoteMark :: joinArguments ps).idxOf? quoteMark = some first.length := by
    rw [List.idxOf?, List.findIdx?_append]
    have hnone : first.findIdx? (· == quoteMark) = none := by
      rw [List.findIdx?_eq_none_iff]
      intro c hc
      rw [beq_eq_false_iff_ne]
      exact fun heq => hfirst (heq ▸ hc)
    rw [hnone, List.findIdx?_cons]
    simp
  have hname : programName (joinCommandLine first ps) = (first, first.length + 2) := by
    rw [joinCommandLine, programName]
    simp only [if_true]
    rw [hindex]
    simp only [List.take_left]
  have hdrop : (joinCommandLine first ps).drop (first.length + 2) = joinArguments ps := by
    rw [joinCommandLine, List.drop_succ_cons, ← List.drop_drop, List.drop_left]
    rfl
  rw [splitCommandLine, hname]
  simp only
  rw [hdrop, splitLoop_joinArguments h, List.singleton_append]

end RoundTrip

section Counts

variable {p : Nat → Bool} {arg cs : List Nat}

/-- No quote, backslash or blank has the property. -/
structure KeptBySplit (p : Nat → Bool) : Prop where
  quoteMark : p quoteMark = false
  backslash : p backslash = false
  blank : ∀ c, isBlank c = true → p c = false

theorem quoteRun_counts (hp : KeptBySplit p) (arg cs : List Nat) (quotes : Nat) :
    (quoteRun arg quotes cs).1.countP p + (quoteRun arg quotes cs).2.2.countP p = arg.countP p + cs.countP p ∧
      (quoteRun arg quotes cs).1.length + (quoteRun arg quotes cs).2.2.length ≤ arg.length + cs.length := by
  induction cs generalizing arg quotes with
  | nil => exact ⟨rfl, Nat.le_refl _⟩
  | cons c cs ih =>
    rw [quoteRun]
    split
    next hc =>
      have hcount : (c :: cs).countP p = cs.countP p :=
        List.countP_cons_of_neg (by rw [hc, hp.quoteMark]; exact Bool.false_ne_true)
      rw [hcount, List.length_cons]
      split
      next =>
        obtain ⟨hkept, hlength⟩ := ih (arg ++ [quoteMark]) 0
        have hone : [quoteMark].countP p = 0 := by
          rw [List.countP_singleton, hp.quoteMark]
          rfl
        rw [List.countP_append, hone, Nat.add_zero] at hkept
        rw [List.length_append, List.length_singleton] at hlength
        exact ⟨hkept, by omega⟩
      next =>
        obtain ⟨hkept, hlength⟩ := ih arg (quotes + 1)
        exact ⟨hkept, by omega⟩
    next => exact ⟨rfl, Nat.le_refl _⟩

theorem countP_backslashes (hp : KeptBySplit p) (n : Nat) : (List.replicate n backslash).countP p = 0 := by
  rw [List.countP_replicate, hp.backslash]
  rfl

theorem flatten_concat (args : List (List Nat)) (arg : List Nat) : (args ++ [arg]).flatten = args.flatten ++ arg := by
  rw [List.flatten_append, List.flatten_singleton]

theorem quoteStep_counts (hp : KeptBySplit p) (s : SplitState) (cs : List Nat) :
    let arg := s.arg ++ List.replicate (s.backslashes / 2) backslash
    let run := if s.backslashes % 2 = 1 then quoteRun (arg ++ [quoteMark]) s.quotes cs else quoteRun arg (s.quotes + 1) cs
    run.1.countP p + run.2.2.countP p = s.arg.countP p + cs.countP p ∧
      run.1.length + run.2.2.length ≤ s.arg.length + s.backslashes + 1 + cs.length ∧ run.2.2.length ≤ cs.length := by
  intro arg run
  have harg : arg.countP p = s.arg.countP p := by
    show (s.arg ++ List.replicate (s.backslashes / 2) backslash).countP p = _
    rw [List.countP_append, countP_backslashes hp, Nat.add_zero]
  have hlen : arg.length = s.arg.length + s.backslashes / 2 := by
    show (s.arg ++ List.replicate (s.backslashes / 2) backslash).length = _
    rw [List.length_append, List.length_replicate]
  by_cases hodd : s.backslashes % 2 = 1
  · have hrun : run = quoteRun (arg ++ [quoteMark]) s.quotes cs := if_pos hodd
    obtain ⟨hkept, hlength⟩ := quoteRun_counts hp (arg ++ [quoteMark]) cs s.quotes
    have hone : [quoteMark].countP p = 0 := by
      rw [List.countP_singleton, hp.quoteMark]
      rfl
    rw [List.countP_append, hone, Nat.add_zero] at hkept
    rw [List.length_append, List.length_singleton] at hlength
    rw [hrun]
    exact ⟨by omega, by omega, quoteRun_length _ _ _⟩
  · have hrun : run = quoteRun arg (s.quotes + 1) cs := if_neg hodd
    obtain ⟨hkept, hlength⟩ := quoteRun_counts hp arg cs (s.quotes + 1)
    rw [hrun]
    exact ⟨by omega, by omega, quoteRun_length _ _ _⟩

theorem KeptBySplit.countP_cons (hp : KeptBySplit p) {c : Nat}
    (h : c = Speakeasy.backslash ∨ c = Speakeasy.quoteMark ∨ isBlank c = true)
    (cs : List Nat) : (c :: cs).countP p = cs.countP p := by
  apply List.countP_cons_of_neg
  rcases h with rfl | rfl | h
  · rw [hp.backslash]
    exact Bool.false_ne_true
  · rw [hp.quoteMark]
    exact Bool.false_ne_true
  · rw [hp.blank c h]
    exact Bool.false_ne_true

/-- The loop drops nothing but quotes, backslashes and blanks. -/
theorem splitLoop_counts (hp : KeptBySplit p) (s : SplitState) (cs : List Nat) (hs : s.started = false → s.arg.countP p = 0) :
    (splitLoop s cs).flatten.countP p = s.args.flatten.countP p + s.arg.countP p + cs.countP p ∧
      (splitLoop s cs).flatten.length ≤ s.args.flatten.length + s.arg.length + s.backslashes + cs.length := by
  induction hn : cs.length using Nat.strong_induction_on generalizing s cs with
  | _ n ih =>
    cases cs with
    | nil =>
      rw [splitLoop]
      split
      next =>
        rw [flatten_concat, List.countP_append, List.countP_append, countP_backslashes hp, List.length_append,
          List.length_append, List.length_replicate, List.countP_nil]
        rw [List.length_nil] at hn
        exact ⟨by omega, by omega⟩
      next hstarted =>
        rw [hs (Bool.not_eq_true _ ▸ hstarted), List.countP_nil]
        exact ⟨rfl, by omega⟩
    | cons c cs =>
      rw [List.length_cons] at hn
      by_cases hb : c = backslash
      · obtain ⟨hkept, hlength⟩ :=
          ih cs.length (by omega) { s with backslashes := s.backslashes + 1, started := true } cs (fun h => nomatch h) rfl
        rw [splitLoop, if_pos hb, hp.countP_cons (Or.inl hb)]
        simp only at hkept hlength
        exact ⟨hkept, by omega⟩
      · by_cases hq : c = quoteMark
        · obtain ⟨hrun, hroom, hrest⟩ := quoteStep_counts hp s cs
          rw [splitLoop, if_neg hb, if_pos hq, hp.countP_cons (Or.inr (Or.inl hq))]
          simp only
          generalize (if s.backslashes % 2 = 1 then
            quoteRun (s.arg ++ List.replicate (s.backslashes / 2) backslash ++ [quoteMark]) s.quotes cs
            else quoteRun (s.arg ++ List.replicate (s.backslashes / 2) backslash) (s.quotes + 1) cs) =
              run at hrun hroom hrest ⊢
          obtain ⟨hkept, hlength⟩ :=
            ih run.2.2.length (by omega) ⟨s.args, run.1, true, if run.2.1 = 2 then 0 else run.2.1, 0⟩ run.2.2
              (fun h => nomatch h) rfl
          simp only at hkept hlength
          exact ⟨by omega, by omega⟩
        · rw [splitLoop, if_neg hb, if_neg hq]
          split
          next hblank =>
            rw [hp.countP_cons (Or.inr (Or.inr hblank.1))]
            obtain ⟨hkept, hlength⟩ := ih cs.length (by omega)
              ⟨if s.started then s.args ++ [s.arg ++ List.replicate s.backslashes backslash] else s.args, [], false,
                s.quotes, 0⟩ cs (fun _ => rfl) rfl
            simp only at hkept hlength
            split at hkept
            next hstarted =>
              rw [if_pos hstarted] at hlength
              rw [flatten_concat, List.countP_append, List.countP_append, countP_backslashes hp, List.countP_nil] at hkept
              rw [flatten_concat, List.length_append, List.length_append, List.length_replicate, List.length_nil] at hlength
              simp only [if_pos hstarted]
              exact ⟨by omega, by omega⟩
            next hstarted =>
              rw [if_neg hstarted, List.length_nil] at hlength
              rw [List.countP_nil] at hkept
              simp only [if_neg hstarted, hs (Bool.not_eq_true _ ▸ hstarted)]
              exact ⟨by omega, by omega⟩
          next =>
            obtain ⟨hkept, hlength⟩ := ih cs.length (by omega)
              ⟨s.args, s.arg ++ (List.replicate s.backslashes backslash ++ [c]), true, s.quotes, 0⟩ cs
              (fun h => nomatch h) rfl
            simp only [List.countP_append, countP_backslashes hp, List.length_append, List.length_replicate,
              List.length_singleton] at hkept hlength
            have hcons : (c :: cs).countP p = [c].countP p + cs.countP p := by
              rw [← List.countP_append, List.singleton_append]
            exact ⟨by omega, by omega⟩

/-- The program name and the text after it. -/
theorem programName_counts (hp : KeptBySplit p) (cmdline : List Nat) :
    (programName cmdline).1.countP p + (cmdline.drop (programName cmdline).2).countP p = cmdline.countP p ∧
      (programName cmdline).1.length + (cmdline.drop (programName cmdline).2).length ≤ cmdline.length := by
  have hcut : ∀ i, (cmdline.take i).countP p + (cmdline.drop i).countP p = cmdline.countP p ∧
      (cmdline.take i).length + (cmdline.drop i).length ≤ cmdline.length := by
    intro i
    rw [← List.countP_append, List.take_append_drop, List.length_take, List.length_drop]
    exact ⟨rfl, by omega⟩
  unfold programName
  cases cmdline with
  | nil => exact ⟨rfl, Nat.le_refl _⟩
  | cons c cs =>
    simp only
    split
    next hq =>
      rw [hp.countP_cons (Or.inr (Or.inl hq))]
      cases hindex : cs.idxOf? quoteMark with
      | none =>
        have hdrop : (c :: cs).drop ((c :: cs).length + 1) = [] := List.drop_of_length_le (Nat.le_succ _)
        simp only [hdrop, List.countP_nil, List.length_nil]
        exact ⟨rfl, Nat.le_succ _⟩
      | some i =>
        simp only [List.drop_succ_cons]
        have hget : cs[i]? = some quoteMark := by
          obtain ⟨hi, hmark, -⟩ := List.findIdx?_eq_some_iff_getElem.mp hindex
          rw [List.getElem?_eq_getElem hi, Option.some.injEq]
          exact eq_of_beq hmark
        obtain ⟨hi, hmark⟩ := List.getElem?_eq_some_iff.mp hget
        have hsplit : (cs.drop i).countP p = (cs.drop (i + 1)).countP p := by
          rw [List.drop_eq_getElem_cons hi, hmark]
          exact hp.countP_cons (Or.inr (Or.inl rfl)) _
        have hwhole : (cs.take i).countP p + (cs.drop i).countP p = cs.countP p := by
          rw [← List.countP_append, List.take_append_drop]
        rw [List.length_take, List.length_drop, List.length_cons]
        exact ⟨by omega, by omega⟩
    next =>
      cases (c :: cs).findIdx? isBlank with
      | none =>
        simp only [List.drop_length, List.countP_nil, List.length_nil]
        exact ⟨rfl, Nat.le_refl _⟩
      | some i => exact hcut i

theorem splitCommandLine_counts (hp : KeptBySplit p) (cmdline : List Nat) :
    (splitCommandLine cmdline).flatten.countP p = cmdline.countP p ∧
      (splitCommandLine cmdline).flatten.length ≤ cmdline.length := by
  obtain ⟨hkept, hlength⟩ := programName_counts hp cmdline
  obtain ⟨hloop, hroom⟩ := splitLoop_counts hp ⟨[(programName cmdline).1], [], false, 0, 0⟩
    (cmdline.drop (programName cmdline).2) fun _ => rfl
  simp only [List.flatten_singleton, List.countP_nil, List.length_nil] at hloop hroom
  have hdef : splitCommandLine cmdline =
      splitLoop ⟨[(programName cmdline).1], [], false, 0, 0⟩ (cmdline.drop (programName cmdline).2) := rfl
  rw [hdef]
  exact ⟨by omega, by omega⟩

end Counts

end Speakeasy
