import Speakeasy.RegistryPaths

namespace Speakeasy

/-- `str.find` -/
def strFind (pat : PyStr) : PyStr → Option Nat
  | [] => if pat <+: [] then some 0 else none
  | c :: s => if pat <+: c :: s then some 0 else (strFind pat s).map (· + 1)

/-- No case rule looks past a percent sign. -/
structure EnvCase extends LowerCase where
  percent : ∀ s t, str (s ++ '%' :: t) = str s ++ '%' :: str t
  noPercent : ∀ s, '%' ∉ s → '%' ∉ str s

/-- The variables of a process, in the order of the dictionary. -/
abbrev EnvVars := List (PyStr × PyStr)

def reference (lc : LowerCase) (name : PyStr) : PyStr := '%' :: lc.str name ++ ['%']

/-- One turn of the loop over the variables. -/
def expandVar (lc : LowerCase) (dst : PyStr) (var : PyStr × PyStr) : PyStr :=
  match strFind (reference lc var.1) (lc.str dst) with
  | some o => dst.take o ++ var.2 ++ dst.drop (o + (reference lc var.1).length)
  | none => dst

def expandText (lc : LowerCase) (env : EnvVars) (src : PyStr) : PyStr := env.foldl (expandVar lc) src

/-- `ExpandEnvironmentStrings`: what it returns, and the text that it writes. -/
def expandEnvironmentStrings (lc : LowerCase) (env : EnvVars) (src : Option PyStr) (lpDst nSize : Nat) :
    Nat × Option PyStr :=
  match src with
  | none => (0, none)
  | some src =>
    let dst := expandText lc env src
    (dst.length + 1, if lpDst ≠ 0 ∧ dst.length + 1 ≤ nSize then some dst else none)

/-! One pass over the source. -/

inductive EnvPiece
  | char (c : Char)
  | ref (name value : PyStr)
deriving DecidableEq, Repr

def varValue (lc : LowerCase) (env : EnvVars) (name : PyStr) : Option PyStr :=
  (env.find? fun v => decide (lc.str v.1 = lc.str name)).map Prod.snd

/-- The text before the next percent sign, when there is one. -/
def percentName : PyStr → Option PyStr
  | [] => none
  | c :: s => if c = '%' then some [] else (percentName s).map (c :: ·)

/-- The characters and the references of a source, of which the first ones are skipped. -/
def envPieces (lc : LowerCase) (env : EnvVars) : Nat → PyStr → List EnvPiece
  | _, [] => []
  | skip + 1, _ :: s => envPieces lc env skip s
  | 0, c :: s =>
    match if c = '%' then percentName s else none with
    | some name =>
      match varValue lc env name with
      | some value => .ref name value :: envPieces lc env (name.length + 1) s
      | none => .char c :: envPieces lc env 0 s
    | none => .char c :: envPieces lc env 0 s

example (lc : LowerCase) : envPieces lc [] 0 ['5', '%', 'a', '%'] = [.char '5', .char '%', .char 'a', .char '%'] := by
  rw [envPieces]
  rfl

/-- The text of the pieces, when the references to some variables are replaced. -/
def EnvPiece.text (lc : LowerCase) (vars : EnvVars) : EnvPiece → PyStr
  | .char c => [c]
  | .ref name value => if (vars.any fun v => decide (lc.str v.1 = lc.str name)) then value else '%' :: name ++ ['%']

def piecesText (lc : LowerCase) (vars : EnvVars) (ps : List EnvPiece) : PyStr := ps.flatMap (EnvPiece.text lc vars)

/-- The source with every reference to a variable replaced. -/
def expandOnce (lc : LowerCase) (env : EnvVars) (src : PyStr) : PyStr :=
  piecesText lc env (envPieces lc env 0 src)

/-- What the call does, when it does one pass. -/
def ExpandLaw (lc : LowerCase) (env : EnvVars) (src : PyStr) : Prop :=
  ∀ lpDst nSize, expandEnvironmentStrings lc env (some src) lpDst nSize =
    ((expandOnce lc env src).length + 1,
      if lpDst ≠ 0 ∧ (expandOnce lc env src).length + 1 ≤ nSize then some (expandOnce lc env src) else none)

/-- The names are unique, whatever their case. -/
def UniqueNames (lc : LowerCase) (env : EnvVars) : Prop := (env.map fun v => lc.str v.1).Nodup

instance UniqueNames.decidable (lc : LowerCase) (env : EnvVars) : Decidable (UniqueNames lc env) :=
  inferInstanceAs (Decidable (List.Nodup _))

def EnvPiece.Names (lc : LowerCase) (name : PyStr) : EnvPiece → Prop
  | .char _ => False
  | .ref name' _ => lc.str name' = lc.str name

instance EnvPiece.decidableNames (lc : LowerCase) (name : PyStr) : (p : EnvPiece) → Decidable (p.Names lc name)
  | .char _ => isFalse id
  | .ref name' _ => inferInstanceAs (Decidable (lc.str name' = lc.str name))

/-- At the turn of a variable, what is found is its one reference, or nothing when it has none. -/
def DirectTurn (lc : LowerCase) (before : EnvVars) (name : PyStr) (ps : List EnvPiece) : Prop :=
  match strFind (reference lc name) (lc.str (piecesText lc before ps)) with
  | none => ∀ p ∈ ps, ¬p.Names lc name
  | some o => ∃ ps₁ name' value ps₂, ps = ps₁ ++ .ref name' value :: ps₂ ∧ lc.str name' = lc.str name ∧
    o = (piecesText lc before ps₁).length ∧ name'.length = (lc.str name').length ∧
    ∀ p ∈ ps₁ ++ ps₂, ¬p.Names lc name

/-- Each variable replaces its own reference in the source. -/
def Direct (lc : LowerCase) (env : EnvVars) (src : PyStr) : Prop :=
  ∀ before var after, env = before ++ var :: after → DirectTurn lc before var.1 (envPieces lc env 0 src)

section

variable {lc : LowerCase} {env before : EnvVars} {ps : List EnvPiece}

theorem percentName_eq {s name : PyStr} (h : percentName s = some name) :
    '%' ∉ name ∧ ∃ rest, s = name ++ '%' :: rest := by
  induction s generalizing name with
  | nil => cases h
  | cons c s ih =>
    unfold percentName at h
    by_cases hc : c = '%'
    · rw [if_pos hc] at h
      rw [← Option.some.inj h, hc]
      exact ⟨List.not_mem_nil, s, rfl⟩
    · rw [if_neg hc] at h
      obtain ⟨name', hname', hcons⟩ := Option.map_eq_some_iff.mp h
      obtain ⟨hout, rest, hs⟩ := ih hname'
      rw [← hcons]
      refine ⟨fun hin => ?_, rest, by rw [hs, List.cons_append]⟩
      cases List.mem_cons.mp hin with
      | inl heq => exact hc heq.symm
      | inr hin => exact hout hin

theorem percentName_append {name : PyStr} (hname : '%' ∉ name) (rest : PyStr) :
    percentName (name ++ '%' :: rest) = some name := by
  induction name with
  | nil => exact if_pos rfl
  | cons c name ih =>
    have hc : c ≠ '%' := fun heq => hname (heq ▸ List.mem_cons_self)
    show (if c = '%' then some [] else (percentName (name ++ '%' :: rest)).map (c :: ·)) = _
    rw [if_neg hc, ih fun hin => hname (List.mem_cons_of_mem c hin), Option.map_some]

theorem envPieces_drop (skip : Nat) (s : PyStr) : envPieces lc env skip s = envPieces lc env 0 (s.drop skip) := by
  induction s generalizing skip with
  | nil =>
    rw [List.drop_nil]
    cases skip with
    | zero => rfl
    | succ skip => rfl
  | cons c s ih =>
    cases skip with
    | zero => rfl
    | succ skip => exact ih skip

theorem envPieces_char {c : Char} (hc : c ≠ '%') (s : PyStr) :
    envPieces lc env 0 (c :: s) = .char c :: envPieces lc env 0 s := by
  rw [envPieces, if_neg hc]

theorem envPieces_unpaired {s : PyStr} (h : percentName s = none) :
    envPieces lc env 0 ('%' :: s) = .char '%' :: envPieces lc env 0 s := by
  rw [envPieces, if_pos rfl, h]

theorem envPieces_undefined {s name : PyStr} (h : percentName s = some name) (hvalue : varValue lc env name = none) :
    envPieces lc env 0 ('%' :: s) = .char '%' :: envPieces lc env 0 s := by
  rw [envPieces, if_pos rfl, h]
  simp only [hvalue]

theorem envPieces_ref {name rest value : PyStr} (hname : '%' ∉ name) (hvalue : varValue lc env name = some value) :
    envPieces lc env 0 ('%' :: (name ++ '%' :: rest)) = .ref name value :: envPieces lc env 0 rest := by
  rw [envPieces, if_pos rfl, percentName_append hname]
  simp only [hvalue]
  rw [envPieces_drop]
  congr 2
  rw [List.drop_append, List.drop_eq_nil_of_le (Nat.le_succ _), Nat.add_sub_cancel_left]
  rfl

/-- The cases of the scan. -/
theorem envPieces_induct {motive : PyStr → Prop} (lc : LowerCase) (env : EnvVars) (nil : motive [])
    (char : ∀ c s, envPieces lc env 0 (c :: s) = .char c :: envPieces lc env 0 s → motive s → motive (c :: s))
    (ref : ∀ name value rest, '%' ∉ name → varValue lc env name = some value →
      envPieces lc env 0 ('%' :: (name ++ '%' :: rest)) = .ref name value :: envPieces lc env 0 rest → motive rest →
      motive ('%' :: (name ++ '%' :: rest))) (s : PyStr) : motive s := by
  induction hn : s.length using Nat.strong_induction_on generalizing s with
  | _ n ih =>
    cases s with
    | nil => exact nil
    | cons c s =>
      have hlen : (c :: s).length = s.length + 1 := List.length_cons
      by_cases hc : c = '%'
      · subst hc
        cases hname : percentName s with
        | none => exact char '%' s (envPieces_unpaired hname) (ih s.length (by omega) s rfl)
        | some name =>
          cases hvalue : varValue lc env name with
          | none => exact char '%' s (envPieces_undefined hname hvalue) (ih s.length (by omega) s rfl)
          | some value =>
            obtain ⟨hout, rest, hs⟩ := percentName_eq hname
            have hrest : rest.length < s.length := by
              rw [hs, List.length_append, List.length_cons]
              omega
            rw [hs]
            exact ref name value rest hout hvalue (envPieces_ref hout hvalue) (ih rest.length (by omega) rest rfl)
      · exact char c s (envPieces_char hc s) (ih s.length (by omega) s rfl)

/-- A reference has the name of a variable, and its value. -/
theorem envPieces_value (s : PyStr) : ∀ {name value}, EnvPiece.ref name value ∈ envPieces lc env 0 s →
    varValue lc env name = some value := by
  induction s using envPieces_induct lc env with
  | nil =>
    intro name value hin
    cases hin
  | char c s heq ih =>
    intro name value hin
    rw [heq] at hin
    cases List.mem_cons.mp hin with
    | inl heq => cases heq
    | inr hin => exact ih hin
  | ref name' value' rest hname hvalue heq ih =>
    intro name value hin
    rw [heq] at hin
    cases List.mem_cons.mp hin with
    | inl heq =>
      cases heq
      exact hvalue
    | inr hin => exact ih hin

theorem piecesText_append (ps qs : List EnvPiece) :
    piecesText lc before (ps ++ qs) = piecesText lc before ps ++ piecesText lc before qs := List.flatMap_append ..

theorem piecesText_cons (p : EnvPiece) (ps : List EnvPiece) :
    piecesText lc before (p :: ps) = p.text lc before ++ piecesText lc before ps := List.flatMap_cons ..

/-- The pieces are those of the source. -/
theorem piecesText_nil (s : PyStr) : piecesText lc [] (envPieces lc env 0 s) = s := by
  induction s using envPieces_induct lc env with
  | nil => rfl
  | char c s heq ih =>
    rw [heq, piecesText_cons, ih]
    rfl
  | ref name value rest hname hvalue heq ih =>
    rw [heq, piecesText_cons, ih]
    show '%' :: name ++ ['%'] ++ rest = _
    rw [List.cons_append, List.cons_append, List.append_assoc]
    rfl

/-- The pieces depend on the values of the names in the source alone. -/
theorem envPieces_congr {env' : EnvVars} (s : PyStr)
    (h : ∀ a name b, s = a ++ '%' :: (name ++ '%' :: b) → '%' ∉ name → varValue lc env' name = varValue lc env name) :
    envPieces lc env' 0 s = envPieces lc env 0 s := by
  induction s using envPieces_induct lc env with
  | nil => rfl
  | char c s heq ih =>
    have hrest := ih fun a name b hs => h (c :: a) name b (by rw [hs, List.cons_append])
    rw [heq, ← hrest]
    by_cases hc : c = '%'
    · subst hc
      cases hname : percentName s with
      | none => exact envPieces_unpaired hname
      | some name =>
        obtain ⟨hout, rest, hs⟩ := percentName_eq hname
        have hsame := h [] name rest (by rw [hs]; rfl) hout
        cases hvalue : varValue lc env name with
        | none => exact envPieces_undefined hname (hsame.trans hvalue)
        | some value =>
          rw [hs, envPieces_ref hout hvalue] at heq
          cases heq
    · exact envPieces_char hc s
  | ref name value rest hname hvalue heq ih =>
    have hsame := h [] name rest rfl hname
    rw [heq, envPieces_ref hname (hsame.trans hvalue)]
    rw [ih fun a name' b hs => h ('%' :: (name ++ '%' :: a)) name' b (by rw [hs]; simp)]

end

end Speakeasy
