import Speakeasy.FileManager

namespace Speakeasy

def maxPath : Nat := 260

/-- `get_path_root` -/
def getPathRoot (path : PyStr) : PyStr :=
  if (path.drop 1).take 1 = [':'] then
    if (path.drop 2).take 1 = ['\\'] then path.take 3 else path.take 2
  else if ['\\', '\\'] <+: path then ['\\'].intercalate ((path.splitOn '\\').take 4)
  else if path.head? = some '\\' then ['\\']
  else []

/-- The root that `get_canonical_path` keeps. -/
def canonicalRoot (path : PyStr) : PyStr :=
  if (path.drop 1).take 2 = [':', '\\'] then path.take 3
  else path.take ((path.take 2).takeWhile (· = '\\')).length

/-- The loop over the elements. -/
def addElement (parts : List PyStr) (part : PyStr) : List PyStr :=
  if part = ['.', '.'] then parts.dropLast
  else if part ≠ ['.'] then parts ++ [part]
  else parts

/-- `get_canonical_path` -/
def getCanonicalPath (path : PyStr) : PyStr :=
  let root := canonicalRoot path
  root ++ ['\\'].intercalate (((path.drop root.length).splitOn '\\').foldl addElement [])

/-- `path.replace("\\", "/")` -/
def toSlashes (path : PyStr) : PyStr := path.map fun c => if c = '\\' then '/' else c

/-- `os.path.join` of two paths, on a host with the rules of `posixpath`. -/
def osPathJoin (a b : PyStr) : PyStr :=
  if b.head? = some '/' then b
  else if a = [] ∨ a.getLast? = some '/' then a ++ b
  else a ++ '/' :: b

/-- `join_windows_path` -/
def joinWindowsPath (a b : PyStr) : PyStr := replaceAltSep (osPathJoin (toSlashes a) (toSlashes b))

/-- What a path API returns, and the text that it writes to an address. -/
structure PathReply where
  rv : Nat
  written : Option (Nat × PyStr)

/-- `more.lstrip("\\")` -/
def stripLeading (more : PyStr) : PyStr := more.dropWhile (· = '\\')

section Calls

variable (read : Nat → PyStr)

/-- `PathAppend` -/
def pathAppend (pszPath pszMore : Nat) : PathReply :=
  let more := read pszMore
  let more := if ['\\', '\\'] <+: more then more else stripLeading more
  ⟨1, some (pszPath, joinWindowsPath (read pszPath) more)⟩

/-- The path that `PathCombine` makes of a directory and a file. -/
def combinedPath (directory file : PyStr) : PyStr :=
  if file = [] then directory
  else if directory = [] ∨ (file.drop 1).take 1 = [':'] ∨ ['\\', '\\'] <+: file then file
  else
    let rooted : Bool := file.head? = some '\\'
    let directory := if rooted then getPathRoot directory else directory
    let file := if rooted then file.drop 1 else file
    let directory := if directory ≠ [] ∧ directory.getLast? ≠ some '\\' then directory ++ ['\\'] else directory
    directory ++ file

/-- `PathCombine` -/
def pathCombine (pszDest pszDir pszFile : Nat) : PathReply :=
  if pszDest = 0 then ⟨0, none⟩
  else
    let directory := if pszDir = 0 then [] else read pszDir
    let file := if pszFile = 0 then [] else read pszFile
    let path := combinedPath directory file
    if (pszDir = 0 ∧ pszFile = 0) ∨ maxPath ≤ path.length then ⟨0, some (pszDest, [])⟩
    else ⟨pszDest, some (pszDest, getCanonicalPath path)⟩

/-- `PathCanonicalize` -/
def pathCanonicalize (pszBuf pszPath : Nat) : PathReply := ⟨1, some (pszBuf, read pszPath)⟩

end Calls

inductive RootKind
  | drive
  | unc
  | rooted
  | relative
deriving DecidableEq, Repr

def rootKind (path : PyStr) : RootKind :=
  if (path.drop 1).take 1 = [':'] then .drive
  else if ['\\', '\\'] <+: path then .unc
  else if path.head? = some '\\' then .rooted
  else .relative

/-- No element of a path is `.` or `..`. -/
def NoDots (path : PyStr) : Prop := ∀ e ∈ path.splitOn '\\', e ≠ ['.'] ∧ e ≠ ['.', '.']

instance (path : PyStr) : Decidable (NoDots path) := inferInstanceAs (Decidable (∀ e ∈ path.splitOn '\\', _))

structure CanonicalLaw (path : PyStr) : Prop where
  idempotent : getCanonicalPath (getCanonicalPath path) = getCanonicalPath path
  noDots : NoDots (getCanonicalPath path)
  root : rootKind (getCanonicalPath path) = rootKind path
  canonicalize : ∀ (read : Nat → PyStr) (pszBuf pszPath : Nat), read pszPath = path →
    (pathCanonicalize read pszBuf pszPath).written = some (pszBuf, getCanonicalPath path)

/-- The paths for which the two ways to join have to agree. -/
structure Appendable (path more : PyStr) : Prop where
  unc : ¬['\\', '\\'] <+: more
  drive : (more.drop 1).take 1 ≠ [':']
  length : (combinedPath path (stripLeading more)).length < maxPath

/-- `PathAppend` leaves the path that `PathCombine` writes. -/
def AppendLaw (path more : PyStr) : Prop :=
  ∀ (read : Nat → PyStr) (pszPath pszMore pszDest pszDir pszFile : Nat), pszDest ≠ 0 → pszDir ≠ 0 → pszFile ≠ 0 →
    read pszPath = path → read pszMore = more → read pszDir = path → read pszFile = stripLeading more →
    (pathAppend read pszPath pszMore).written.map Prod.snd =
      (pathCombine read pszDest pszDir pszFile).written.map Prod.snd

structure PathLaw (path more : PyStr) : Prop where
  canonical : CanonicalLaw path
  append : Appendable path more → AppendLaw path more

/-- Paths without slashes and elements to drop, which the join puts together with one backslash. -/
structure PlainAppend (path more : PyStr) : Prop where
  pathSlash : '/' ∉ path
  moreSlash : '/' ∉ stripLeading more
  noDots : NoDots (stripLeading more)
  ends : stripLeading more = [] → path = [] ∨ path.getLast? = some '\\'
  drive : path ≠ [] → ((stripLeading more).drop 1).take 1 ≠ [':']

example : getCanonicalPath "C:\\a\\..\\b".toList = "C:\\b".toList := by decide

theorem splitOn_noSep {path e : PyStr} (h : e ∈ path.splitOn '\\') : '\\' ∉ e := by
  induction path generalizing e with
  | nil =>
    rw [List.splitOn_nil, List.mem_singleton] at h
    rw [h]
    exact List.not_mem_nil
  | cons c path ih =>
    rw [List.splitOn_cons_eq_if_modifyHead] at h
    split at h
    next =>
      rcases List.mem_cons.mp h with rfl | h
      · exact List.not_mem_nil
      · exact ih h
    next hc =>
      obtain ⟨first, rest, hsplit⟩ := List.exists_cons_of_ne_nil (List.splitOn_ne_nil '\\' path)
      rw [hsplit, List.modifyHead_cons] at h
      have hown : ∀ x ∈ first :: rest, '\\' ∉ x := fun x hx => ih (hsplit ▸ hx)
      rcases List.mem_cons.mp h with rfl | h
      · intro hmem
        rcases List.mem_cons.mp hmem with heq | hmem
        · rw [← heq, beq_self_eq_true] at hc
          exact hc rfl
        · exact hown first List.mem_cons_self hmem
      · exact hown e (List.mem_cons_of_mem _ h)

section Elements

variable {parts es : List PyStr}

/-- What the loop keeps are names of the path. -/
theorem mem_foldl_addElement {e : PyStr} (h : e ∈ es.foldl addElement parts) :
    e ∈ parts ∨ (e ∈ es ∧ e ≠ ['.'] ∧ e ≠ ['.', '.']) := by
  induction es generalizing parts with
  | nil => exact Or.inl h
  | cons d es ih =>
    rw [List.foldl_cons] at h
    rcases ih h with hparts | ⟨hmem, hne⟩
    · unfold addElement at hparts
      split at hparts
      next => exact Or.inl (List.dropLast_subset _ hparts)
      next hdots =>
        split at hparts
        next hdot =>
          rcases List.mem_append.mp hparts with hparts | hlast
          · exact Or.inl hparts
          · obtain rfl := List.mem_singleton.mp hlast
            exact Or.inr ⟨List.mem_cons_self, hdot, hdots⟩
        next => exact Or.inl hparts
    · exact Or.inr ⟨List.mem_cons_of_mem _ hmem, hne⟩

theorem foldl_addElement_of_noDots (h : ∀ e ∈ es, e ≠ ['.'] ∧ e ≠ ['.', '.']) :
    es.foldl addElement parts = parts ++ es := by
  induction es generalizing parts with
  | nil => exact (List.append_nil parts).symm
  | cons d es ih =>
    obtain ⟨hdot, hdots⟩ := h d List.mem_cons_self
    rw [List.foldl_cons, addElement, if_neg hdots, if_pos hdot, ih fun e he => h e (List.mem_cons_of_mem _ he),
      List.append_assoc, List.singleton_append]

end Elements

/-- A drive with a backslash, or at most two backslashes. -/
theorem canonicalRoot_cases (path : PyStr) : (∃ c, canonicalRoot path = [c, ':', '\\']) ∨
    canonicalRoot path = [] ∨ canonicalRoot path = ['\\'] ∨ canonicalRoot path = ['\\', '\\'] := by
  unfold canonicalRoot
  rcases path with _ | ⟨a, _ | ⟨b, rest⟩⟩
  · exact Or.inr (Or.inl rfl)
  · by_cases ha : a = '\\'
    · subst ha
      exact Or.inr (Or.inr (Or.inl rfl))
    · right
      left
      simp [ha]
  · split
    next hdrive =>
      left
      refine ⟨a, ?_⟩
      rw [List.drop_one, List.tail_cons] at hdrive
      rw [List.take_succ_cons, hdrive]
    next =>
      right
      by_cases ha : a = '\\'
      · by_cases hb : b = '\\'
        · simp [ha, hb]
        · simp [ha, hb]
      · simp [ha]

theorem canonicalRoot_append (path : PyStr) : canonicalRoot path ++ path.drop (canonicalRoot path).length = path := by
  have hpre : ∀ n, path.take n ++ path.drop (path.take n).length = path := by
    intro n
    rw [List.length_take]
    rcases Nat.le_total n path.length with hle | hle
    · rw [Nat.min_eq_left hle, List.take_append_drop]
    · rw [Nat.min_eq_right hle, List.drop_length, List.append_nil, List.take_of_length_le hle]
  unfold canonicalRoot
  split
  next => exact hpre 3
  next => exact hpre _

/-- The elements of a root are no dots. -/
theorem splitOn_canonicalRoot (path : PyStr) : ∃ pre : List PyStr, (∀ e ∈ pre, e ≠ ['.'] ∧ e ≠ ['.', '.']) ∧
    ∀ t, (canonicalRoot path ++ t).splitOn '\\' = pre ++ t.splitOn '\\' := by
  have hsep : ∀ s t : PyStr, (s ++ '\\' :: t).splitOn '\\' = s.splitOn '\\' ++ t.splitOn '\\' :=
    fun s t => List.splitOn_append_cons_self s t
  rcases canonicalRoot_cases path with ⟨c, hroot⟩ | hroot | hroot | hroot
  · rw [hroot]
    refine ⟨[c, ':'].splitOn '\\', ?_, hsep [c, ':']⟩
    by_cases hc : c = '\\'
    · subst hc
      decide
    · have hsingle : [c, ':'].splitOn '\\' = [[c, ':']] := List.splitOn_eq_singleton (by simpa using Ne.symm hc)
      rw [hsingle]
      simp
  · rw [hroot]
    exact ⟨[], by simp, fun t => rfl⟩
  · rw [hroot]
    exact ⟨[[]], by simp, hsep []⟩
  · rw [hroot]
    refine ⟨[[], []], by simp, fun t => ?_⟩
    have hfirst : ('\\' :: '\\' :: t).splitOn '\\' = [] :: ('\\' :: t).splitOn '\\' := hsep [] ('\\' :: t)
    have hsecond : ('\\' :: t).splitOn '\\' = [] :: t.splitOn '\\' := hsep [] t
    show ('\\' :: '\\' :: t).splitOn '\\' = [] :: [] :: t.splitOn '\\'
    rw [hfirst, hsecond]

theorem noDots_canonicalRoot {path t : PyStr} : NoDots (canonicalRoot path ++ t) ↔ NoDots t := by
  obtain ⟨pre, hpre, hsplit⟩ := splitOn_canonicalRoot path
  unfold NoDots
  rw [hsplit]
  constructor
  · exact fun h e he => h e (List.mem_append_right _ he)
  · intro h e he
    rcases List.mem_append.mp he with he | he
    · exact hpre e he
    · exact h e he

/-- A path without dots is its own canonical path. -/
theorem getCanonicalPath_of_noDots {path : PyStr} (h : NoDots path) : getCanonicalPath path = path := by
  have hrest : NoDots (path.drop (canonicalRoot path).length) := by
    rw [← canonicalRoot_append path] at h
    exact noDots_canonicalRoot.mp h
  unfold getCanonicalPath
  dsimp only
  rw [foldl_addElement_of_noDots hrest, List.nil_append, List.intercalate_splitOn, canonicalRoot_append]

theorem noDots_getCanonicalPath (path : PyStr) : NoDots (getCanonicalPath path) := by
  unfold getCanonicalPath
  rw [noDots_canonicalRoot]
  obtain ⟨kept, hkept⟩ : ∃ kept, kept = ((path.drop (canonicalRoot path).length).splitOn '\\').foldl addElement [] :=
    ⟨_, rfl⟩
  have hmem : ∀ e ∈ kept, '\\' ∉ e ∧ e ≠ ['.'] ∧ e ≠ ['.', '.'] := by
    intro e he
    rcases mem_foldl_addElement (hkept ▸ he) with hnil | ⟨hpart, hne⟩
    · exact absurd hnil List.not_mem_nil
    · exact ⟨splitOn_noSep hpart, hne⟩
  rw [← hkept]
  unfold NoDots
  by_cases hempty : kept = []
  · rw [hempty]
    decide
  · rw [List.splitOn_intercalate '\\' (fun e he => (hmem e he).1) hempty]
    exact fun e he => (hmem e he).2

theorem getCanonicalPath_eq_self {path : PyStr} : getCanonicalPath path = path ↔ NoDots path := by
  constructor
  · intro h
    rw [← h]
    exact noDots_getCanonicalPath path
  · exact getCanonicalPath_of_noDots

theorem getCanonicalPath_idem (path : PyStr) : getCanonicalPath (getCanonicalPath path) = getCanonicalPath path :=
  getCanonicalPath_of_noDots (noDots_getCanonicalPath path)

/-- `PathCanonicalize` writes the path as it is. -/
theorem canonicalLaw_iff {path : PyStr} : CanonicalLaw path ↔ NoDots path := by
  constructor
  · intro h
    have hwritten := h.canonicalize (fun _ => path) 0 0 rfl
    have hsame : path = getCanonicalPath path := congrArg Prod.snd (Option.some.inj hwritten)
    exact getCanonicalPath_eq_self.mp hsame.symm
  · intro h
    have hsame := getCanonicalPath_of_noDots h
    refine ⟨getCanonicalPath_idem path, noDots_getCanonicalPath path, by rw [hsame], ?_⟩
    rintro read pszBuf pszPath hread
    rw [hsame, ← hread]
    rfl

section Append

variable {p n : PyStr}

theorem replaceAltSep_toSlashes (s : PyStr) : replaceAltSep (toSlashes s) = replaceAltSep s := by
  unfold replaceAltSep toSlashes
  rw [List.map_map]
  apply List.map_congr_left
  intro c _
  rw [Function.comp_apply]
  by_cases hback : c = '\\'
  · subst hback
    rfl
  · rw [if_neg hback]

theorem replaceAltSep_append (s t : PyStr) : replaceAltSep (s ++ t) = replaceAltSep s ++ replaceAltSep t :=
  List.map_append

theorem slash_replaceAltSep (s : PyStr) : '/' ∉ replaceAltSep s := by
  intro h
  obtain ⟨c, _, hc⟩ := List.mem_map.mp h
  split at hc
  next => cases hc
  next hne => exact hne hc

theorem replaceAltSep_of_noSlash {s : PyStr} (h : '/' ∉ s) : replaceAltSep s = s := by
  unfold replaceAltSep
  conv_rhs => rw [← List.map_id s]
  apply List.map_congr_left
  intro c hc
  have hne : c ≠ '/' := by
    rintro rfl
    exact h hc
  exact if_neg hne

theorem head?_toSlashes (s : PyStr) : (toSlashes s).head? = some '/' ↔ (replaceAltSep s).head? = some '\\' := by
  unfold toSlashes replaceAltSep
  cases s with
  | nil => simp
  | cons c s =>
    simp only [List.map_cons, List.head?_cons, Option.some.injEq]
    by_cases hback : c = '\\' <;> by_cases hslash : c = '/' <;> simp_all

theorem getLast?_toSlashes (s : PyStr) :
    (toSlashes s).getLast? = some '/' ↔ (replaceAltSep s).getLast? = some '\\' := by
  have h := head?_toSlashes s.reverse
  unfold toSlashes replaceAltSep at h ⊢
  rwa [List.map_reverse, List.map_reverse, List.head?_reverse, List.head?_reverse] at h

/-- The join in terms of backslashes. -/
theorem joinWindowsPath_eq (p n : PyStr) : joinWindowsPath p n =
    if (replaceAltSep n).head? = some '\\' then replaceAltSep n
    else if p = [] ∨ (replaceAltSep p).getLast? = some '\\' then replaceAltSep p ++ replaceAltSep n
    else replaceAltSep p ++ '\\' :: replaceAltSep n := by
  have hempty : toSlashes p = [] ↔ p = [] := List.map_eq_nil_iff
  have hsep : replaceAltSep ('/' :: toSlashes n) = '\\' :: replaceAltSep n := by
    show '\\' :: replaceAltSep (toSlashes n) = _
    rw [replaceAltSep_toSlashes]
  unfold joinWindowsPath osPathJoin
  simp only [head?_toSlashes, getLast?_toSlashes, hempty]
  split
  next => exact replaceAltSep_toSlashes n
  next =>
    split
    next => rw [replaceAltSep_append, replaceAltSep_toSlashes, replaceAltSep_toSlashes]
    next => rw [replaceAltSep_append, replaceAltSep_toSlashes, hsep]

theorem noDots_nil : NoDots [] := by decide

theorem noDots_sep {a b : PyStr} : NoDots (a ++ '\\' :: b) ↔ NoDots a ∧ NoDots b := by
  unfold NoDots
  rw [List.splitOn_append_cons_self]
  constructor
  · exact fun h => ⟨fun e he => h e (List.mem_append_left _ he), fun e he => h e (List.mem_append_right _ he)⟩
  · rintro ⟨ha, hb⟩ e he
    rcases List.mem_append.mp he with he | he
    · exact ha e he
    · exact hb e he

theorem noDots_ends {a b : PyStr} (h : a.getLast? = some '\\') : NoDots (a ++ b) ↔ NoDots a ∧ NoDots b := by
  obtain ⟨q, rfl⟩ := List.getLast?_eq_some_iff.mp h
  rw [List.append_assoc, List.singleton_append, noDots_sep, noDots_sep]
  constructor
  · exact fun h => ⟨⟨h.1, noDots_nil⟩, h.2⟩
  · exact fun h => ⟨h.1.1, h.2⟩

theorem splitOn_replaceAltSep {es : List PyStr} (h : es ≠ []) :
    (replaceAltSep (['\\'].intercalate es)).splitOn '\\' = es.flatMap fun e => (replaceAltSep e).splitOn '\\' := by
  induction es with
  | nil => exact absurd rfl h
  | cons e es ih =>
    cases es with
    | nil => simp
    | cons d es =>
      have hsep : replaceAltSep (e ++ '\\' :: ['\\'].intercalate (d :: es)) =
          replaceAltSep e ++ '\\' :: replaceAltSep (['\\'].intercalate (d :: es)) := by
        rw [replaceAltSep_append]
        rfl
      rw [List.intercalate_cons_cons, List.append_assoc, List.singleton_append, hsep,
        List.splitOn_append_cons_self, ih (List.cons_ne_nil d es)]
      rfl

/-- Slashes that become backslashes leave the dots. -/
theorem noDots_of_replaceAltSep {s : PyStr} (h : NoDots (replaceAltSep s)) : NoDots s := by
  intro e he
  have hsplit := @splitOn_replaceAltSep (s.splitOn '\\') (List.splitOn_ne_nil _ _)
  rw [List.intercalate_splitOn] at hsplit
  have hmem : ∀ d ∈ (replaceAltSep e).splitOn '\\', d ≠ ['.'] ∧ d ≠ ['.', '.'] := by
    intro d hd
    refine h d ?_
    rw [hsplit]
    exact List.mem_flatMap.mpr ⟨e, he, hd⟩
  constructor
  · rintro rfl
    exact (hmem ['.'] (by decide)).1 rfl
  · rintro rfl
    exact (hmem ['.', '.'] (by decide)).2 rfl

/-- The joined path, when the second path has no leading backslash. -/
theorem combinedPath_eq (hn : n.head? ≠ some '\\') : combinedPath p n =
    if n = [] then p
    else if p = [] ∨ (n.drop 1).take 1 = [':'] then n
    else if p.getLast? = some '\\' then p ++ n
    else p ++ '\\' :: n := by
  have hunc : ¬['\\', '\\'] <+: n := by
    rintro ⟨t, rfl⟩
    exact hn rfl
  unfold combinedPath
  simp only [hunc, or_false]
  split
  next => rfl
  next =>
    split
    next => rfl
    next hdrive =>
      have hp : p ≠ [] := fun h => hdrive (Or.inl h)
      have hrooted : decide (n.head? = some '\\') = false := decide_eq_false hn
      simp only [hrooted, Bool.false_eq_true, if_false]
      by_cases hlast : p.getLast? = some '\\'
      · rw [if_neg (fun h => h.2 hlast), if_pos hlast]
      · rw [if_pos ⟨hp, hlast⟩, if_neg hlast, List.append_assoc, List.singleton_append]

theorem stripLeading_head? (more : PyStr) : (stripLeading more).head? ≠ some '\\' := by
  intro h
  unfold stripLeading at h
  have hhead := List.head?_dropWhile_not (fun c => decide (c = '\\')) more
  rw [h] at hhead
  simp at hhead

theorem joinWindowsPath_of_noSlash (hp : '/' ∉ p) (hslash : '/' ∉ n) (hn : n.head? ≠ some '\\') :
    joinWindowsPath p n = if p = [] ∨ p.getLast? = some '\\' then p ++ n else p ++ '\\' :: n := by
  rw [joinWindowsPath_eq, replaceAltSep_of_noSlash hp, replaceAltSep_of_noSlash hslash, if_neg hn]

/-- The dots of the two paths are dots of the join. -/
theorem noDots_joinWindowsPath (h : NoDots (joinWindowsPath p n)) : NoDots n := by
  rw [joinWindowsPath_eq] at h
  split at h
  next => exact noDots_of_replaceAltSep h
  next =>
    split at h
    next hglue =>
      rcases hglue with rfl | hlast
      · exact noDots_of_replaceAltSep h
      · exact noDots_of_replaceAltSep ((noDots_ends hlast).mp h).2
    next => exact noDots_of_replaceAltSep (noDots_sep.mp h).2

theorem slash_joinWindowsPath (p n : PyStr) : '/' ∉ joinWindowsPath p n := slash_replaceAltSep _

theorem noDots_combinedPath (hp : NoDots p) (hn : NoDots n) (hhead : n.head? ≠ some '\\') :
    NoDots (combinedPath p n) := by
  rw [combinedPath_eq hhead]
  split
  next => exact hp
  next =>
    split
    next => exact hn
    next =>
      split
      next hlast => exact (noDots_ends hlast).mpr ⟨hp, hn⟩
      next => exact noDots_sep.mpr ⟨hp, hn⟩

theorem length_joinWindowsPath (hp : p ≠ []) (hslash : '/' ∉ n) (hhead : n.head? ≠ some '\\') :
    n.length < (joinWindowsPath p n).length := by
  have hpos : 0 < (replaceAltSep p).length := by
    unfold replaceAltSep
    rw [List.length_map]
    exact List.length_pos_of_ne_nil hp
  rw [joinWindowsPath_eq, replaceAltSep_of_noSlash hslash, if_neg hhead]
  split
  next =>
    rw [List.length_append]
    omega
  next =>
    rw [List.length_append, List.length_cons]
    omega

/-- When the join of the host is the canonical joined path. -/
theorem joinWindowsPath_eq_canonical (hdots : NoDots p) (hhead : n.head? ≠ some '\\') :
    joinWindowsPath p n = getCanonicalPath (combinedPath p n) ↔
      '/' ∉ p ∧ '/' ∉ n ∧ NoDots n ∧ (n = [] → p = [] ∨ p.getLast? = some '\\') ∧
        (p ≠ [] → (n.drop 1).take 1 ≠ [':']) := by
  constructor
  · intro h
    have hn : NoDots n := by
      apply noDots_joinWindowsPath (p := p)
      rw [h]
      exact noDots_getCanonicalPath _
    rw [getCanonicalPath_of_noDots (noDots_combinedPath hdots hn hhead)] at h
    have hslash : '/' ∉ combinedPath p n := h ▸ slash_joinWindowsPath p n
    rw [combinedPath_eq hhead] at h hslash
    by_cases hempty : n = []
    · rw [if_pos hempty] at h hslash
      subst hempty
      refine ⟨hslash, List.not_mem_nil, hn, fun _ => ?_, fun _ => by simp⟩
      by_contra hend
      rw [joinWindowsPath_of_noSlash hslash List.not_mem_nil hhead, if_neg hend] at h
      have hlen := congrArg List.length h
      rw [List.length_append, List.length_singleton] at hlen
      omega
    · rw [if_neg hempty] at h hslash
      by_cases hp : p = []
      · rw [if_pos (Or.inl hp)] at hslash
        exact ⟨hp ▸ List.not_mem_nil, hslash, hn, fun h => absurd h hempty, fun h => absurd hp h⟩
      · by_cases hdrive : (n.drop 1).take 1 = [':']
        · rw [if_pos (Or.inr hdrive)] at h hslash
          have hlen := length_joinWindowsPath hp hslash hhead
          rw [h] at hlen
          exact absurd hlen (Nat.lt_irrefl _)
        · rw [if_neg (fun h => h.elim hp hdrive)] at hslash
          have hboth : '/' ∉ p ∧ '/' ∉ n := by
            split at hslash
            next => exact ⟨fun h => hslash (List.mem_append_left _ h), fun h => hslash (List.mem_append_right _ h)⟩
            next =>
              exact ⟨fun h => hslash (List.mem_append_left _ h),
                fun h => hslash (List.mem_append_right _ (List.mem_cons_of_mem _ h))⟩
          exact ⟨hboth.1, hboth.2, hn, fun h => absurd h hempty, fun _ => hdrive⟩
  · rintro ⟨hp, hslash, hn, hends, hdrive⟩
    rw [getCanonicalPath_of_noDots (noDots_combinedPath hdots hn hhead),
      joinWindowsPath_of_noSlash hp hslash hhead, combinedPath_eq hhead]
    by_cases hempty : n = []
    · subst hempty
      rw [if_pos (hends rfl), if_pos rfl, List.append_nil]
    · rw [if_neg hempty]
      by_cases hnil : p = []
      · rw [if_pos (Or.inl hnil), if_pos (Or.inl hnil), hnil, List.nil_append]
      · rw [if_neg (show ¬(p = [] ∨ (n.drop 1).take 1 = [':']) from fun h => h.elim hnil (hdrive hnil))]
        by_cases hlast : p.getLast? = some '\\'
        · rw [if_pos (Or.inr hlast), if_pos hlast]
        · rw [if_neg (fun h => h.elim hnil hlast), if_neg hlast]

theorem appendLaw_iff {path more : PyStr} (h : Appendable path more) : AppendLaw path more ↔
    joinWindowsPath path (stripLeading more) = getCanonicalPath (combinedPath path (stripLeading more)) := by
  have htexts : ∀ (read : Nat → PyStr) (pszPath pszMore pszDest pszDir pszFile : Nat), pszDest ≠ 0 → pszDir ≠ 0 →
      pszFile ≠ 0 → read pszPath = path → read pszMore = more → read pszDir = path →
      read pszFile = stripLeading more →
      (pathAppend read pszPath pszMore).written.map Prod.snd =
        some (joinWindowsPath path (stripLeading more)) ∧
      (pathCombine read pszDest pszDir pszFile).written.map Prod.snd =
        some (getCanonicalPath (combinedPath path (stripLeading more))) := by
    intro read pszPath pszMore pszDest pszDir pszFile hdest hdir hfile hpath hmore hdirText hfileText
    have hshort : ¬((pszDir = 0 ∧ pszFile = 0) ∨ maxPath ≤ (combinedPath path (stripLeading more)).length) :=
      fun hbad => hbad.elim (fun hnull => hdir hnull.1) fun hlong => Nat.not_lt.mpr hlong h.length
    constructor
    · unfold pathAppend
      dsimp only
      rw [hpath, hmore, if_neg h.unc]
      rfl
    · unfold pathCombine
      dsimp only
      rw [if_neg hdest, if_neg hdir, if_neg hfile, hdirText, hfileText, if_neg hshort]
      rfl
  constructor
  · intro law
    let read : Nat → PyStr := fun a => if a = 2 then more else if a = 3 then stripLeading more else path
    obtain ⟨hleft, hright⟩ := htexts read 1 2 1 1 3 (by decide) (by decide) (by decide) rfl rfl rfl rfl
    have hsame := law read 1 2 1 1 3 (by decide) (by decide) (by decide) rfl rfl rfl rfl
    rw [hleft, hright] at hsame
    exact Option.some.inj hsame
  · intro hsame read pszPath pszMore pszDest pszDir pszFile hdest hdir hfile hpath hmore hdirText hfileText
    obtain ⟨hleft, hright⟩ := htexts read pszPath pszMore pszDest pszDir pszFile hdest hdir hfile hpath hmore
      hdirText hfileText
    rw [hleft, hright, hsame]

end Append

/-- The path APIs meet the law on paths that they have nothing to do on. -/
theorem pathLaw_iff (path more : PyStr) :
    PathLaw path more ↔ NoDots path ∧ (Appendable path more → PlainAppend path more) := by
  have hplain : NoDots path → Appendable path more → (AppendLaw path more ↔ PlainAppend path more) := by
    intro hdots happend
    rw [appendLaw_iff happend, joinWindowsPath_eq_canonical hdots (stripLeading_head? more)]
    constructor
    · rintro ⟨hp, hslash, hn, hends, hdrive⟩
      exact ⟨hp, hslash, hn, hends, hdrive⟩
    · intro h
      exact ⟨h.pathSlash, h.moreSlash, h.noDots, h.ends, h.drive⟩
  constructor
  · intro h
    have hdots := canonicalLaw_iff.mp h.canonical
    exact ⟨hdots, fun happend => (hplain hdots happend).mp (h.append happend)⟩
  · rintro ⟨hdots, happend⟩
    exact ⟨canonicalLaw_iff.mpr hdots, fun ha => (hplain hdots ha).mpr (happend ha)⟩

/-- A path with a dot-dot element is copied, joined as it is, and a dropped element shows an empty one. -/
theorem pathLaw_dotDot : ¬PathLaw "C:\\a\\..\\b".toList "c".toList ∧
    (∀ read : Nat → PyStr, read 1 = "C:\\a\\..\\b".toList →
      (pathCanonicalize read 2 1).written ≠ some (2, getCanonicalPath (read 1))) ∧
    ¬AppendLaw "C:\\a".toList "..\\b".toList ∧
    rootKind "a\\..\\\\b".toList ≠ rootKind (getCanonicalPath "a\\..\\\\b".toList) := by
  have happend : Appendable "C:\\a".toList "..\\b".toList :=
    ⟨by decide, by decide, by decide⟩
  refine ⟨fun law => ?_, fun read hread => ?_, fun law => ?_, by decide⟩
  · exact absurd (canonicalLaw_iff.mp law.canonical) (by decide)
  · rw [pathCanonicalize, hread]
    decide
  · exact absurd ((appendLaw_iff happend).mp law) (by decide)

end Speakeasy
