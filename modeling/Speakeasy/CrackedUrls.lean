import Mathlib.Data.List.DropRight
import Mathlib.Data.List.Infix

namespace Speakeasy

/-- `s.partition(c)[2]` -/
def afterFirst (c : Nat) (s : List Nat) : List Nat := (s.dropWhile (· ≠ c)).drop 1

/-- `s.rpartition(c)[2]` -/
def afterLast (c : Nat) (s : List Nat) : List Nat := s.rtakeWhile (· ≠ c)

/-- `s.rpartition(c)[0]` -/
def beforeLast (c : Nat) (s : List Nat) : List Nat :=
  if c ∈ s then s.take (s.length - (afterLast c s).length - 1) else []

/-- `s.rsplit(c, 1)[0]` -/
def rsplitHead (c : Nat) (s : List Nat) : List Nat := if c ∈ s then beforeLast c s else s

def urlColon : Nat := 0x3A
def urlSlash : Nat := 0x2F
def urlAt : Nat := 0x40
def urlOpen : Nat := 0x5B
def urlClose : Nat := 0x5D
def urlQuery : Nat := 0x3F
def urlFragment : Nat := 0x23

/-- The characters that `urlsplit` takes off the front, and those that it removes everywhere. -/
def isUrlControl (c : Nat) : Bool := c ≤ 0x20

def isUrlRemoved (c : Nat) : Bool := c = 0x09 || c = 0x0A || c = 0x0D

def isUrlLetter (c : Nat) : Bool := (0x41 ≤ c && c ≤ 0x5A) || (0x61 ≤ c && c ≤ 0x7A)

def isUrlDigit (c : Nat) : Bool := 0x30 ≤ c && c ≤ 0x39

def isSchemeChar (c : Nat) : Bool := isUrlLetter c || isUrlDigit c || c = 0x2B || c = 0x2D || c = 0x2E

def schemeLower (c : Nat) : Nat := if 0x41 ≤ c ∧ c ≤ 0x5A then c + 0x20 else c

def cleanUrl (url : List Nat) : List Nat := (url.dropWhile isUrlControl).filter fun c => !isUrlRemoved c

/-- The scheme, in lower case, and what follows its colon. -/
def splitScheme (url : List Nat) : List Nat × List Nat :=
  let i := url.findIdx (· = urlColon)
  if 0 < i ∧ i < url.length ∧ (∃ c ∈ url.head?, isUrlLetter c = true) ∧ ∀ c ∈ url.take i, isSchemeChar c = true then
    ((url.take i).map schemeLower, url.drop (i + 1))
  else ([], url)

/-- The network location, where there is one, and what follows it. -/
def splitNetloc (rest : List Nat) : List Nat × List Nat :=
  if [urlSlash, urlSlash] <+: rest then
    ((rest.drop 2).takeWhile fun c => c ≠ urlSlash ∧ c ≠ urlQuery ∧ c ≠ urlFragment,
      (rest.drop 2).dropWhile fun c => c ≠ urlSlash ∧ c ≠ urlQuery ∧ c ≠ urlFragment)
  else ([], rest)

/-- The path, up to a query or a fragment. -/
def splitPath (rest : List Nat) : List Nat := rest.takeWhile fun c => c ≠ urlQuery ∧ c ≠ urlFragment

structure SplitResult where
  scheme : List Nat
  netloc : List Nat
  path : List Nat
deriving DecidableEq

/-- `urlsplit`, which raises for a network location that is malformed. -/
def urlsplit (check : List Nat → Bool) (url : List Nat) : Option SplitResult :=
  let (scheme, rest) := splitScheme (cleanUrl url)
  let (netloc, rest) := splitNetloc rest
  if check netloc then some ⟨scheme, netloc, splitPath rest⟩ else none

/-- What follows the address of a host. -/
def portTail (hostinfo : List Nat) : List Nat :=
  if urlOpen ∈ hostinfo then afterFirst urlClose (afterFirst urlOpen hostinfo) else hostinfo

def portText (hostinfo : List Nat) : List Nat := afterFirst urlColon (portTail hostinfo)

def decimalValue (digits : List Nat) : Nat := digits.foldl (fun n d => n * 10 + (d - 0x30)) 0

/-- The number of a port, where the text is one. -/
def portNumber (port : List Nat) : Option Nat :=
  if (∀ c ∈ port, isUrlDigit c = true) ∧ port.length ≤ 4300 ∧ decimalValue port ≤ 65535 then some (decimalValue port)
  else none

/-- The port of a network location: an error, or a number where there is one. -/
def readPort (netloc : List Nat) : Option (Option Nat) :=
  let port := portText (afterLast urlAt netloc)
  if port = [] then some none else (portNumber port).map some

def schemeHttp : List Nat := "http".toList.map Char.toNat
def schemeHttps : List Nat := "https".toList.map Char.toNat
def schemeFtp : List Nat := "ftp".toList.map Char.toNat

def defaultPort (scheme : List Nat) : Option Nat :=
  if scheme = schemeHttp then some 80
  else if scheme = schemeHttps then some 443
  else if scheme = schemeFtp then some 21
  else none

/-- The parts of a URL, each with its offset. -/
structure UrlParts where
  scheme : List Nat × Nat
  hostName : List Nat × Nat
  urlPath : List Nat × Nat
  extraInfo : List Nat × Nat
deriving DecidableEq

def crackUrl (check : List Nat → Bool) (url : List Nat) : Option (Nat × UrlParts) :=
  (urlsplit check url).map fun crack =>
    let start := if crack.scheme ≠ [] then crack.scheme.length + 1 else 0
    let netlocStart := if [urlSlash, urlSlash] <+: url.drop start then start + 2 else start
    let hostStart :=
      if urlAt ∈ crack.netloc then netlocStart + (rsplitHead urlAt crack.netloc).length + 1 else netlocStart
    let host := (url.take (netlocStart + crack.netloc.length)).drop hostStart
    let pathStart := netlocStart + crack.netloc.length
    let extraStart := pathStart + crack.path.length
    let (host, port) :=
      match readPort crack.netloc with
      | some (some port) => (rsplitHead urlColon host, port)
      | _ => (host, (defaultPort crack.scheme).getD 0)
    (port, ⟨(url.take crack.scheme.length, 0), (host, hostStart), (crack.path, pathStart), (url.drop extraStart, extraStart)⟩)

/-- The port and the parts of `InternetCrackUrl`. Without a length for extra info, the path goes on to the end. -/
def internetCrackUrl (check : List Nat → Bool) (url : List Nat) (dwExtraInfoLength : Nat) : Option (Nat × UrlParts) :=
  (crackUrl check url).map fun (port, parts) =>
    if dwExtraInfoLength = 0 then (port, { parts with urlPath := (url.drop parts.urlPath.2, parts.urlPath.2) })
    else (port, parts)

/-- The server and the port that `InternetOpenUrl` connects to. -/
def internetOpenUrl (check : List Nat → Bool) (url : List Nat) : Option (List Nat × Nat) :=
  (urlsplit check url).bind fun crack =>
    let server := afterLast urlAt crack.netloc
    (defaultPort crack.scheme).bind fun defaultPort =>
      if server = [] then none
      else
        match readPort crack.netloc with
        | some (some port) => if port ≠ 0 then some (beforeLast urlColon server, port) else some (server, defaultPort)
        | _ => some (server, defaultPort)

section Partitions

variable {c : Nat} {s front rest : List Nat}

theorem afterFirst_of_split (h : c ∉ front) (rest : List Nat) : afterFirst c (front ++ c :: rest) = rest := by
  have hall : ∀ d ∈ front, decide (d ≠ c) = true := fun d hd => decide_eq_true fun heq => h (heq ▸ hd)
  rw [afterFirst, List.dropWhile_append_of_pos hall, List.dropWhile_cons_of_neg (by simp), List.drop_one, List.tail_cons]

theorem exists_split_first (h : c ∈ s) : ∃ front, s = front ++ c :: afterFirst c s ∧ c ∉ front := by
  obtain ⟨front, rest, hs, hfront⟩ := List.eq_append_cons_of_mem h
  refine ⟨front, ?_, hfront⟩
  rw [hs, afterFirst_of_split hfront]

theorem afterFirst_of_notMem (h : c ∉ s) : afterFirst c s = [] := by
  have hall : ∀ d ∈ s, decide (d ≠ c) = true := fun d hd => decide_eq_true fun heq => h (heq ▸ hd)
  rw [afterFirst, List.dropWhile_eq_nil_iff.mpr hall, List.drop_nil]

theorem afterLast_of_split (h : c ∉ rest) (front : List Nat) : afterLast c (front ++ c :: rest) = rest := by
  have hall : ∀ d ∈ rest.reverse, decide (d ≠ c) = true := fun d hd =>
    decide_eq_true fun heq => h (heq ▸ List.mem_reverse.mp hd)
  have hrev : (front ++ c :: rest).reverse = rest.reverse ++ c :: front.reverse := by
    rw [List.reverse_append, List.reverse_cons, List.append_assoc, List.singleton_append]
  rw [afterLast, List.rtakeWhile, hrev, List.takeWhile_append_of_pos hall, List.takeWhile_cons_of_neg (by simp),
    List.append_nil, List.reverse_reverse]

theorem afterLast_of_notMem (h : c ∉ s) : afterLast c s = s := by
  have hall : ∀ d ∈ s, decide (d ≠ c) = true := fun d hd => decide_eq_true fun heq => h (heq ▸ hd)
  exact List.rtakeWhile_eq_self_iff.mpr hall

theorem notMem_afterLast (c : Nat) (s : List Nat) : c ∉ afterLast c s := by
  intro hmem
  have hne := List.mem_rtakeWhile_imp hmem
  exact absurd rfl (of_decide_eq_true hne)

/-- The last occurrence of a character splits a text. -/
theorem exists_split_last (h : c ∈ s) : ∃ front, s = front ++ c :: afterLast c s := by
  obtain ⟨rest, front, hrev, hrest⟩ := List.eq_append_cons_of_mem (List.mem_reverse.mpr h)
  have hs : s = front.reverse ++ c :: rest.reverse := by
    rw [← List.reverse_reverse s, hrev, List.reverse_append, List.reverse_cons, List.append_assoc,
      List.singleton_append]
  refine ⟨front.reverse, ?_⟩
  rw [hs, afterLast_of_split fun hmem => hrest (List.mem_reverse.mp hmem)]

theorem beforeLast_of_split (h : c ∉ rest) (front : List Nat) : beforeLast c (front ++ c :: rest) = front := by
  have hmem : c ∈ front ++ c :: rest := List.mem_append_right _ List.mem_cons_self
  have hlen : (front ++ c :: rest).length - rest.length - 1 = front.length := by
    rw [List.length_append, List.length_cons]
    omega
  rw [beforeLast, if_pos hmem, afterLast_of_split h, hlen, List.take_left]

theorem rsplitHead_of_split (h : c ∉ rest) (front : List Nat) : rsplitHead c (front ++ c :: rest) = front := by
  have hmem : c ∈ front ++ c :: rest := List.mem_append_right _ List.mem_cons_self
  rw [rsplitHead, if_pos hmem, beforeLast_of_split h]

end Partitions

section Ports

variable {hostinfo port : List Nat} {p : Nat}

theorem portText_of_notMem (h : urlColon ∉ portTail hostinfo) : portText hostinfo = [] := afterFirst_of_notMem h

/-- A host with a port is the host, a colon and the port. -/
theorem port_split (h : urlColon ∈ portTail hostinfo) :
    ∃ host, hostinfo = host ++ urlColon :: portText hostinfo ∧ urlColon ∉ portTail host := by
  obtain ⟨tail, htail, hfirst⟩ := exists_split_first h
  by_cases hopen : urlOpen ∈ hostinfo
  case neg =>
    have hself : portTail hostinfo = hostinfo := if_neg hopen
    rw [hself] at htail
    have hportText : afterFirst urlColon hostinfo = portText hostinfo := by rw [portText, hself]
    rw [hportText] at htail
    have hopen' : urlOpen ∉ tail := fun hmem => hopen (htail ▸ List.mem_append_left _ hmem)
    refine ⟨tail, htail, ?_⟩
    rw [portTail, if_neg hopen']
    exact hfirst
  case pos =>
    have hself : portTail hostinfo = afterFirst urlClose (afterFirst urlOpen hostinfo) := if_pos hopen
    obtain ⟨before, hbefore, hnotOpen⟩ := exists_split_first hopen
    have hclose : urlClose ∈ afterFirst urlOpen hostinfo := by
      by_contra hclose
      rw [hself, afterFirst_of_notMem hclose] at h
      exact absurd h List.not_mem_nil
    obtain ⟨address, haddress, hnotClose⟩ := exists_split_first hclose
    rw [← hself, htail] at haddress
    rw [haddress] at hbefore
    refine ⟨before ++ urlOpen :: (address ++ urlClose :: tail), ?_, ?_⟩
    · simpa [portText] using hbefore
    · have hmem : urlOpen ∈ before ++ urlOpen :: (address ++ urlClose :: tail) :=
        List.mem_append_right _ List.mem_cons_self
      rw [portTail, if_pos hmem, afterFirst_of_split hnotOpen, afterFirst_of_split hnotClose]
      exact hfirst

theorem colon_notMem_of_portNumber (h : portNumber port = some p) : urlColon ∉ port := by
  intro hmem
  unfold portNumber at h
  split at h
  next hfine =>
    have hdigit := hfine.1 urlColon hmem
    exact absurd hdigit (by decide)
  next => exact nomatch h

/-- A host with a number for a port: the number and the colon come off. -/
theorem rsplitHead_port (h : urlColon ∈ portTail hostinfo) (hnumber : portNumber (portText hostinfo) = some p) :
    hostinfo = rsplitHead urlColon hostinfo ++ urlColon :: portText hostinfo ∧
      beforeLast urlColon hostinfo = rsplitHead urlColon hostinfo ∧
      urlColon ∉ portTail (rsplitHead urlColon hostinfo) := by
  have hnot := colon_notMem_of_portNumber hnumber
  obtain ⟨host, hhost, hcolon⟩ := port_split h
  have hsplit : rsplitHead urlColon hostinfo = host := by
    conv_lhs => rw [hhost]
    exact rsplitHead_of_split hnot host
  have hbefore : beforeLast urlColon hostinfo = host := by
    conv_lhs => rw [hhost]
    exact beforeLast_of_split hnot host
  rw [hsplit, hbefore]
  exact ⟨hhost, rfl, hcolon⟩

end Ports

section Layout

variable {url : List Nat}

/-- A character that ends neither a network location's scheme nor its path. -/
def NotQuery (c : Nat) : Prop := c ≠ urlQuery ∧ c ≠ urlFragment

instance (c : Nat) : Decidable (NotQuery c) := inferInstanceAs (Decidable (_ ∧ _))

theorem splitPath_append {front : List Nat} (h : ∀ c ∈ front, NotQuery c) (rest : List Nat) :
    splitPath (front ++ rest) = front ++ splitPath rest :=
  List.takeWhile_append_of_pos fun c hc => decide_eq_true (h c hc)

theorem notQuery_of_schemeChar {c : Nat} (h : isSchemeChar c = true) : NotQuery c := by
  constructor <;> rintro rfl <;> exact absurd h (by decide)

/-- Where the scheme and its colon end. -/
def schemeEnd (scheme : List Nat) : Nat := if scheme ≠ [] then scheme.length + 1 else 0

theorem splitScheme_layout (v : List Nat) :
    ∃ front, v = front ++ (splitScheme v).2 ∧ front.length = schemeEnd (splitScheme v).1 ∧ ∀ c ∈ front, NotQuery c := by
  unfold splitScheme
  extract_lets i
  split
  next h =>
    obtain ⟨hpos, hlt, -, hchars⟩ := h
    have hlen : (v.take i).length = i := by
      rw [List.length_take]
      omega
    have hne : (v.take i).map schemeLower ≠ [] := by
      intro hnil
      have hzero := congrArg List.length hnil
      rw [List.length_map, hlen, List.length_nil] at hzero
      omega
    refine ⟨v.take (i + 1), (List.take_append_drop (i + 1) v).symm, ?_, fun c hc => ?_⟩
    · rw [schemeEnd, if_pos hne, List.length_map, hlen, List.length_take]
      omega
    · have hcolon : v[i] = urlColon := by
        have hfound := List.findIdx_getElem (w := hlt)
        simpa using hfound
      rw [List.take_succ_eq_append_getElem hlt, hcolon] at hc
      rcases List.mem_append.mp hc with hc | hc
      · exact notQuery_of_schemeChar (hchars c hc)
      · rw [List.mem_singleton.mp hc]
        decide
  next => exact ⟨[], rfl, rfl, fun c hc => absurd hc List.not_mem_nil⟩

theorem splitNetloc_layout (rest : List Nat) :
    ∃ front, rest = front ++ (splitNetloc rest).1 ++ (splitNetloc rest).2 ∧
      (front = if [urlSlash, urlSlash] <+: rest then [urlSlash, urlSlash] else []) ∧
      ([urlSlash, urlSlash] <+: rest ∨ (splitNetloc rest).1 = []) ∧
      ∀ c ∈ front ++ (splitNetloc rest).1, NotQuery c := by
  unfold splitNetloc
  by_cases hslash : [urlSlash, urlSlash] <+: rest
  case pos =>
    obtain ⟨tail, rfl⟩ := hslash
    refine ⟨[urlSlash, urlSlash], ?_, ?_, Or.inl ⟨tail, rfl⟩, fun c hc => ?_⟩
    · rw [if_pos ⟨tail, rfl⟩, List.append_assoc, List.takeWhile_append_dropWhile]
      rfl
    · rw [if_pos ⟨tail, rfl⟩]
    · rw [if_pos ⟨tail, rfl⟩] at hc
      rcases List.mem_append.mp hc with hc | hc
      · have heq : c = urlSlash := by simpa using hc
        rw [heq]
        decide
      · have hchar := List.mem_takeWhile_imp (p := fun d => decide (d ≠ urlSlash ∧ d ≠ urlQuery ∧ d ≠ urlFragment)) hc
        have hchar := of_decide_eq_true hchar
        exact ⟨hchar.2.1, hchar.2.2⟩
  case neg =>
    refine ⟨[], ?_, ?_, Or.inr ?_, fun c hc => ?_⟩
    · rw [if_neg hslash]
      rfl
    · rw [if_neg hslash]
    · rw [if_neg hslash]
    · rw [if_neg hslash] at hc
      exact absurd hc List.not_mem_nil

theorem cleanUrl_head (url : List Nat) : ∀ c ∈ (cleanUrl url).head?, isUrlControl c = false := by
  intro c hc
  unfold cleanUrl at hc
  cases hdrop : url.dropWhile isUrlControl with
  | nil =>
    rw [hdrop] at hc
    exact nomatch hc
  | cons d rest =>
    have hd := List.head?_dropWhile_not isUrlControl url
    rw [hdrop] at hc hd
    have hcontrol : isUrlControl d = false := by simpa using hd
    have hkept : (!isUrlRemoved d) = true := by
      unfold isUrlControl at hcontrol
      have hbig := of_decide_eq_false hcontrol
      unfold isUrlRemoved
      simp only [Bool.not_eq_true', Bool.or_eq_false_iff, decide_eq_false_iff_not]
      omega
    have hfilter : ((d :: rest).filter fun c => !isUrlRemoved c) = d :: rest.filter fun c => !isUrlRemoved c :=
      List.filter_cons_of_pos hkept
    rw [hfilter, List.head?_cons] at hc
    rw [← Option.some.inj hc]
    exact hcontrol

/-- What is kept at the front stays in front of what is removed later. -/
theorem cleanUrl_append {front rest : List Nat} (hkept : ∀ c ∈ front, isUrlRemoved c = false)
    (hhead : ∀ c ∈ (front ++ rest).head?, isUrlControl c = false) :
    cleanUrl (front ++ rest) = front ++ rest.filter fun c => !isUrlRemoved c := by
  have hdrop : (front ++ rest).dropWhile isUrlControl = front ++ rest := by
    cases hall : front ++ rest with
    | nil => rfl
    | cons c cs =>
      rw [hall] at hhead
      exact List.dropWhile_cons_of_neg (by rw [hhead c rfl]; exact Bool.false_ne_true)
  have hfront : (front.filter fun c => !isUrlRemoved c) = front :=
    List.filter_eq_self.mpr fun c hc => by rw [hkept c hc]; rfl
  rw [cleanUrl, hdrop, List.filter_append, hfront]

theorem not_removed_of_mem_cleanUrl {c : Nat} (h : c ∈ cleanUrl url) : isUrlRemoved c = false := by
  have hkept := (List.mem_filter.mp h).2
  rwa [Bool.not_eq_true'] at hkept

/-- `urlsplit` removes no character before the query. -/
def KeptToPath (url : List Nat) : Prop := splitPath (cleanUrl url) <+: url

/-- No slash follows the path. -/
theorem path_end {rest : List Nat} (hsplit : url = splitPath (cleanUrl url) ++ rest) :
    ∀ c ∈ rest.head?, c ≠ urlSlash := by
  rintro c hc rfl
  obtain ⟨tail, rfl⟩ := List.head?_eq_some_iff.mp hc
  have htail : cleanUrl url = splitPath (cleanUrl url) ++ (cleanUrl url).dropWhile fun c => c ≠ urlQuery ∧ c ≠ urlFragment :=
    (List.takeWhile_append_dropWhile).symm
  have hkept : ∀ c ∈ splitPath (cleanUrl url), isUrlRemoved c = false := fun c hc =>
    not_removed_of_mem_cleanUrl (List.takeWhile_subset _ hc)
  have hhead : ∀ c ∈ (splitPath (cleanUrl url) ++ urlSlash :: tail).head?, isUrlControl c = false := by
    cases hpath : splitPath (cleanUrl url) with
    | nil =>
      intro c hc
      rw [List.nil_append, List.head?_cons] at hc
      rw [← Option.some.inj hc]
      decide
    | cons d ds =>
      intro c hc
      refine cleanUrl_head url c ?_
      rw [htail, hpath]
      exact hc
  have hclean := cleanUrl_append hkept hhead
  rw [← hsplit, List.filter_cons_of_pos (by decide)] at hclean
  -- so the slash would still follow the path in the cleaned URL
  have hrest := List.append_cancel_left (htail.symm.trans hclean)
  have hstop := List.head?_dropWhile_not (fun c => decide (c ≠ urlQuery ∧ c ≠ urlFragment)) (cleanUrl url)
  rw [hrest, List.head?_cons] at hstop
  exact absurd hstop (by decide)

/-- Where the network location starts, after the slashes before it. -/
def netlocStart (url scheme : List Nat) : Nat :=
  if [urlSlash, urlSlash] <+: url.drop (schemeEnd scheme) then schemeEnd scheme + 2 else schemeEnd scheme

theorem length_le_netlocStart (url scheme : List Nat) : scheme.length ≤ netlocStart url scheme := by
  have hend : scheme.length ≤ schemeEnd scheme := by
    unfold schemeEnd
    split
    next => omega
    next hnil =>
      rw [not_not.mp hnil]
      exact Nat.zero_le _
  unfold netlocStart
  split <;> omega

/-- A URL of which `urlsplit` keeps all before the query: its parts stand one after the other. -/
theorem url_layout {scheme netloc rest query path : List Nat} (hkept : KeptToPath url)
    (hscheme : splitScheme (cleanUrl url) = (scheme, rest)) (hnetloc : splitNetloc rest = (netloc, query))
    (hpath : splitPath query = path) :
    ∃ front tail, url = front ++ (netloc ++ (path ++ tail)) ∧ front.length = netlocStart url scheme := by
  obtain ⟨first, hfirst, hlen, hfirstChars⟩ := splitScheme_layout (cleanUrl url)
  obtain ⟨second, hsecond, hslashes, hnone, hsecondChars⟩ := splitNetloc_layout rest
  rw [hscheme] at hfirst hlen
  rw [hnetloc] at hsecond hnone hsecondChars
  dsimp only at hfirst hlen hsecond hnone hsecondChars
  have hfront : splitPath (cleanUrl url) = first ++ (second ++ (netloc ++ path)) := by
    rw [hfirst, splitPath_append hfirstChars, hsecond, splitPath_append hsecondChars, hpath, List.append_assoc]
  obtain ⟨tail, htail⟩ := hkept
  have hend := path_end htail.symm
  rw [hfront] at htail
  have hurl : url = (first ++ second) ++ (netloc ++ (path ++ tail)) := by
    rw [← htail]
    simp only [List.append_assoc]
  refine ⟨first ++ second, tail, hurl, ?_⟩
  have hdrop : url.drop (schemeEnd scheme) = second ++ (netloc ++ (path ++ tail)) := by
    rw [hurl, List.append_assoc, ← hlen, List.drop_left]
  rw [List.length_append, hlen, netlocStart, hdrop]
  by_cases hslash : [urlSlash, urlSlash] <+: rest
  case pos =>
    rw [if_pos hslash] at hslashes
    rw [hslashes, if_pos (List.prefix_append _ _)]
    rfl
  case neg =>
    rw [if_neg hslash] at hslashes
    rw [hnone.resolve_left hslash, hslashes] at hsecond
    have hno : ¬[urlSlash, urlSlash] <+: path ++ tail := by
      intro hstart
      match path, hpath with
      | [], _ =>
        obtain ⟨more, hmore⟩ := hstart
        refine hend urlSlash ?_ rfl
        rw [List.nil_append] at hmore
        rw [← hmore]
        exact rfl
      | [_], _ =>
        obtain ⟨more, hmore⟩ := hstart
        have htailEq : urlSlash :: more = tail := (List.cons.inj hmore).2
        refine hend urlSlash ?_ rfl
        rw [← htailEq]
        exact rfl
      | c :: d :: path, hpath =>
        obtain ⟨more, hmore⟩ := hstart
        obtain ⟨hc, hmore⟩ := List.cons.inj hmore
        obtain ⟨hd, -⟩ := List.cons.inj hmore
        refine hslash ?_
        have hstart : splitPath query <+: query := List.takeWhile_prefix _
        rw [hpath, ← hc, ← hd] at hstart
        rw [hsecond]
        exact List.IsPrefix.trans ⟨path, rfl⟩ hstart
    rw [hslashes, hnone.resolve_left hslash, List.nil_append, List.nil_append, if_neg hno]
    rfl

end Layout

section Law

variable {check : List Nat → Bool} {url scheme netloc rest query path : List Nat}

def UrlParts.all (parts : UrlParts) : List (List Nat × Nat) :=
  [parts.scheme, parts.hostName, parts.urlPath, parts.extraInfo]

/-- Each part stands in the URL at its offset, in order, and the host alone is the server that is connected to. -/
structure UrlSplitAgrees (check : List Nat → Bool) (url : List Nat) : Prop where
  atOffset : ∀ port parts, crackUrl check url = some (port, parts) →
    ∀ part ∈ parts.all, (url.drop part.2).take part.1.length = part.1
  inOrder : ∀ port parts, crackUrl check url = some (port, parts) →
    parts.all.Pairwise fun before after => before.2 + before.1.length ≤ after.2
  hostAlone : ∀ port parts, crackUrl check url = some (port, parts) →
    urlAt ∉ parts.hostName.1 ∧ urlColon ∉ portTail parts.hostName.1
  sameServer : ∀ dwExtraInfoLength port parts crack, urlsplit check url = some crack →
    internetCrackUrl check url dwExtraInfoLength = some (port, parts) → defaultPort crack.scheme ≠ none →
      parts.hostName.1 ≠ [] → internetOpenUrl check url = some (parts.hostName.1, port)

/-- The port is absent, or a number that is not zero where zero is not the default. -/
def PortFine (scheme netloc : List Nat) : Prop :=
  urlColon ∉ portTail (afterLast urlAt netloc) ∨
    portText (afterLast urlAt netloc) ≠ [] ∧ ∃ p, portNumber (portText (afterLast urlAt netloc)) = some p ∧
      (p ≠ 0 ∨ defaultPort scheme = none ∨ afterLast urlAt netloc = urlColon :: portText (afterLast urlAt netloc))

/-- The host and the port of a network location. -/
def hostPort (scheme netloc : List Nat) : List Nat × Nat :=
  match readPort netloc with
  | some (some port) => (rsplitHead urlColon (afterLast urlAt netloc), port)
  | _ => (afterLast urlAt netloc, (defaultPort scheme).getD 0)

/-- What comes before the host is the rest of the network location. -/
theorem host_layout (netloc : List Nat) :
    ∃ user, netloc = user ++ afterLast urlAt netloc ∧
      user.length = if urlAt ∈ netloc then (rsplitHead urlAt netloc).length + 1 else 0 := by
  by_cases hat : urlAt ∈ netloc
  case pos =>
    obtain ⟨user, huser⟩ := exists_split_last hat
    have hhead : rsplitHead urlAt netloc = user := by
      conv_lhs => rw [huser]
      exact rsplitHead_of_split (notMem_afterLast urlAt netloc) user
    refine ⟨user ++ [urlAt], ?_, ?_⟩
    · rw [List.append_assoc, List.singleton_append]
      exact huser
    · rw [if_pos hat, hhead, List.length_append]
      rfl
  case neg =>
    refine ⟨[], (afterLast_of_notMem hat).symm, ?_⟩
    rw [if_neg hat]
    rfl

theorem hostPort_split (scheme netloc : List Nat) :
    ∃ after, afterLast urlAt netloc = (hostPort scheme netloc).1 ++ after := by
  unfold hostPort
  split
  next port hport =>
    unfold readPort at hport
    extract_lets text at hport
    split at hport
    next => exact nomatch hport
    next htext =>
      obtain ⟨p, hnumber, -⟩ := Option.map_eq_some_iff.mp hport
      have hcolon : urlColon ∈ portTail (afterLast urlAt netloc) := by
        by_contra hnot
        exact htext (portText_of_notMem hnot)
      exact ⟨_, (rsplitHead_port hcolon hnumber).1⟩
  next => exact ⟨[], (List.append_nil _).symm⟩

/-- The parts of a URL of which `urlsplit` keeps all before the query. -/
theorem crackUrl_kept (check : List Nat → Bool) (hkept : KeptToPath url)
    (hscheme : splitScheme (cleanUrl url) = (scheme, rest)) (hnetloc : splitNetloc rest = (netloc, query))
    (hpath : splitPath query = path) :
    ∃ front user after tail, url = front ++ (user ++ ((hostPort scheme netloc).1 ++ (after ++ (path ++ tail)))) ∧
      scheme.length ≤ front.length ∧
      crackUrl check url = if check netloc then
        some ((hostPort scheme netloc).2, ⟨(url.take scheme.length, 0),
          ((hostPort scheme netloc).1, front.length + user.length),
          (path, front.length + (user.length + ((hostPort scheme netloc).1.length + after.length))),
          (tail, front.length + (user.length + ((hostPort scheme netloc).1.length + after.length)) + path.length)⟩)
        else none := by
  obtain ⟨front, tail, hurl, hfront⟩ := url_layout hkept hscheme hnetloc hpath
  obtain ⟨user, huser, huserLen⟩ := host_layout netloc
  obtain ⟨after, hafter⟩ := hostPort_split scheme netloc
  have hlen : netloc.length = user.length + ((hostPort scheme netloc).1.length + after.length) := by
    conv_lhs => rw [huser, hafter]
    rw [List.length_append, List.length_append]
  refine ⟨front, user, after, tail, ?_, ?_, ?_⟩
  · rw [hurl]
    conv_lhs => rw [huser, hafter]
    simp only [List.append_assoc]
  · rw [hfront]
    exact length_le_netlocStart url scheme
  · have hstart : (if urlAt ∈ netloc then netlocStart url scheme + (rsplitHead urlAt netloc).length + 1
        else netlocStart url scheme) = front.length + user.length := by
      rw [huserLen, hfront]
      split <;> omega
    have hbefore : url = (front ++ user) ++ (afterLast urlAt netloc ++ (path ++ tail)) := by
      rw [hurl]
      conv_lhs => rw [huser]
      simp only [List.append_assoc]
    have hhost : (url.take (netlocStart url scheme + netloc.length)).drop (front.length + user.length) =
        afterLast urlAt netloc := by
      have hwhole : netlocStart url scheme + netloc.length =
          (front ++ user).length + (afterLast urlAt netloc).length := by
        rw [← hfront, List.length_append]
        conv_lhs => rw [huser, List.length_append]
        omega
      rw [hwhole, hbefore, ← List.length_append, ← List.append_assoc, ← List.length_append, List.take_left,
        List.drop_left]
    have hextra : url.drop (netlocStart url scheme + netloc.length + path.length) = tail := by
      have hwhole : netlocStart url scheme + netloc.length + path.length = (front ++ (netloc ++ path)).length := by
        rw [← hfront, List.length_append, List.length_append]
        omega
      have hall : url = (front ++ (netloc ++ path)) ++ tail := by
        rw [hurl]
        simp only [List.append_assoc]
      rw [hwhole]
      conv_lhs => rw [hall]
      exact List.drop_left
    unfold crackUrl urlsplit
    rw [hscheme]
    dsimp only
    rw [hnetloc]
    dsimp only
    rw [hpath]
    change Option.map _ _ = _
    split
    next hcheck =>
      have hend : (if scheme ≠ [] then scheme.length + 1 else 0) = schemeEnd scheme := rfl
      have hnet : (if [urlSlash, urlSlash] <+: url.drop (schemeEnd scheme) then schemeEnd scheme + 2
          else schemeEnd scheme) = netlocStart url scheme := rfl
      rw [Option.map_some, ← hlen]
      dsimp only
      rw [hend, hnet, hstart, hhost, hextra, ← hfront]
      rfl
    next => rfl

theorem drop_take_middle {front middle tail : List Nat} {k : Nat} (hk : k = front.length) :
    ((front ++ (middle ++ tail)).drop k).take middle.length = middle := by
  rw [hk, List.drop_left, List.take_left]

theorem crackUrl_atOffset (check : List Nat → Bool) (hkept : KeptToPath url) {port : Nat} {parts : UrlParts}
    (h : crackUrl check url = some (port, parts)) :
    (∀ part ∈ parts.all, (url.drop part.2).take part.1.length = part.1) ∧
      parts.all.Pairwise fun before after => before.2 + before.1.length ≤ after.2 := by
  rcases hscheme : splitScheme (cleanUrl url) with ⟨scheme, rest⟩
  rcases hnetloc : splitNetloc rest with ⟨netloc, query⟩
  obtain ⟨front, user, after, tail, hurl, hle, hcrack⟩ := crackUrl_kept check hkept hscheme hnetloc rfl
  generalize hostPort scheme netloc = hp at hurl hcrack
  generalize splitPath query = path at hurl hcrack
  rw [hcrack] at h
  split at h
  next =>
    obtain ⟨-, rfl⟩ := Prod.mk.inj (Option.some.inj h)
    have hle' : (url.take scheme.length).length ≤ front.length :=
      Nat.le_trans (List.length_take_le scheme.length url) hle
    constructor
    · intro part hpart
      simp only [UrlParts.all, List.mem_cons, List.not_mem_nil, or_false] at hpart
      rcases hpart with rfl | rfl | rfl | rfl
      · dsimp only
        rw [List.drop_zero, List.length_take, List.take_eq_take_iff]
        omega
      · have hwhole : url = (front ++ user) ++ (hp.1 ++ (after ++ (path ++ tail))) := by
          rw [hurl, List.append_assoc]
        dsimp only
        conv_lhs => rw [hwhole]
        exact drop_take_middle (List.length_append).symm
      · have hwhole : url = (front ++ (user ++ (hp.1 ++ after))) ++ (path ++ tail) := by
          rw [hurl]
          simp only [List.append_assoc]
        dsimp only
        conv_lhs => rw [hwhole]
        refine drop_take_middle ?_
        simp only [List.length_append]
      · have hwhole : url = (front ++ (user ++ (hp.1 ++ (after ++ path)))) ++ (tail ++ []) := by
          rw [hurl]
          simp only [List.append_assoc, List.append_nil]
        dsimp only
        conv_lhs => rw [hwhole]
        refine drop_take_middle ?_
        simp only [List.length_append]
        omega
    · simp only [UrlParts.all, List.pairwise_cons, List.mem_cons, List.not_mem_nil, or_false, forall_eq_or_imp,
        forall_eq, Nat.zero_add, List.Pairwise.nil, IsEmpty.forall_iff, implies_true, and_true]
      omega
  next => exact nomatch h

theorem hostPort_noPort (scheme : List Nat) (h : portText (afterLast urlAt netloc) = []) :
    readPort netloc = some none ∧ hostPort scheme netloc = (afterLast urlAt netloc, (defaultPort scheme).getD 0) := by
  have hread : readPort netloc = some none := by
    unfold readPort
    extract_lets text
    exact if_pos h
  refine ⟨hread, ?_⟩
  unfold hostPort
  rw [hread]

theorem hostPort_notNumber (scheme : List Nat) (h : portText (afterLast urlAt netloc) ≠ [])
    (hnumber : portNumber (portText (afterLast urlAt netloc)) = none) :
    hostPort scheme netloc = (afterLast urlAt netloc, (defaultPort scheme).getD 0) := by
  have hread : readPort netloc = none := by
    unfold readPort
    extract_lets text
    rw [if_neg h, hnumber]
    rfl
  unfold hostPort
  rw [hread]

theorem hostPort_number (scheme : List Nat) {p : Nat} (h : portText (afterLast urlAt netloc) ≠ [])
    (hnumber : portNumber (portText (afterLast urlAt netloc)) = some p) :
    readPort netloc = some (some p) ∧ hostPort scheme netloc = (rsplitHead urlColon (afterLast urlAt netloc), p) := by
  have hread : readPort netloc = some (some p) := by
    unfold readPort
    extract_lets text
    rw [if_neg h, hnumber]
    rfl
  refine ⟨hread, ?_⟩
  unfold hostPort
  rw [hread]

/-- The host is alone exactly when there is no port, or one that is a number. -/
theorem hostAlone_iff (scheme netloc : List Nat) :
    urlAt ∉ (hostPort scheme netloc).1 ∧ urlColon ∉ portTail (hostPort scheme netloc).1 ↔
      urlColon ∉ portTail (afterLast urlAt netloc) ∨
        portText (afterLast urlAt netloc) ≠ [] ∧ ∃ p, portNumber (portText (afterLast urlAt netloc)) = some p := by
  have hat : urlAt ∉ (hostPort scheme netloc).1 := by
    obtain ⟨after, hafter⟩ := hostPort_split scheme netloc
    intro hmem
    refine notMem_afterLast urlAt netloc ?_
    rw [hafter]
    exact List.mem_append_left _ hmem
  rw [and_iff_right hat]
  by_cases hcolon : urlColon ∈ portTail (afterLast urlAt netloc)
  case neg =>
    rw [(hostPort_noPort scheme (portText_of_notMem hcolon)).2]
    exact ⟨fun _ => Or.inl hcolon, fun _ => hcolon⟩
  case pos =>
    rw [or_iff_right (not_not.mpr hcolon)]
    by_cases htext : portText (afterLast urlAt netloc) = []
    case pos =>
      rw [(hostPort_noPort scheme htext).2]
      exact ⟨fun h => absurd hcolon h, fun h => absurd htext h.1⟩
    case neg =>
      cases hnumber : portNumber (portText (afterLast urlAt netloc)) with
      | none =>
        rw [hostPort_notNumber scheme htext hnumber]
        exact ⟨fun h => absurd hcolon h, fun h => nomatch h.2⟩
      | some p =>
        rw [(hostPort_number scheme htext hnumber).2]
        exact ⟨fun _ => ⟨htext, p, rfl⟩, fun _ => (rsplitHead_port hcolon hnumber).2.2⟩

/-- What `InternetOpenUrl` connects to, from the network location. -/
theorem internetOpenUrl_eq {crack : SplitResult} (hsplit : urlsplit check url = some crack) {d : Nat}
    (hdefault : defaultPort crack.scheme = some d) (hserver : afterLast urlAt crack.netloc ≠ []) :
    internetOpenUrl check url = match readPort crack.netloc with
      | some (some port) =>
        if port ≠ 0 then some (beforeLast urlColon (afterLast urlAt crack.netloc), port)
        else some (afterLast urlAt crack.netloc, d)
      | _ => some (afterLast urlAt crack.netloc, d) := by
  unfold internetOpenUrl
  rw [hsplit, Option.bind_some]
  extract_lets server
  rw [hdefault, Option.bind_some, if_neg hserver]

/-- Where the host is alone, the server is the reported one unless the port is zero. -/
theorem sameServer_iff {crack : SplitResult} (hsplit : urlsplit check url = some crack)
    (halone : urlColon ∉ portTail (afterLast urlAt crack.netloc) ∨
      portText (afterLast urlAt crack.netloc) ≠ [] ∧ ∃ p, portNumber (portText (afterLast urlAt crack.netloc)) = some p) :
    (defaultPort crack.scheme ≠ none → (hostPort crack.scheme crack.netloc).1 ≠ [] →
      internetOpenUrl check url = some (hostPort crack.scheme crack.netloc)) ↔ PortFine crack.scheme crack.netloc := by
  by_cases hcolon : urlColon ∈ portTail (afterLast urlAt crack.netloc)
  case neg =>
    obtain ⟨hread, hhost⟩ := hostPort_noPort crack.scheme (portText_of_notMem hcolon)
    refine ⟨fun _ => Or.inl hcolon, fun _ hdefault hne => ?_⟩
    obtain ⟨d, hd⟩ := Option.ne_none_iff_exists'.mp hdefault
    rw [hhost] at hne ⊢
    rw [internetOpenUrl_eq hsplit hd hne, hread, hd]
    rfl
  case pos =>
    obtain ⟨htext, p, hnumber⟩ := halone.resolve_left (not_not.mpr hcolon)
    obtain ⟨hread, hhost⟩ := hostPort_number crack.scheme htext hnumber
    obtain ⟨hsplitHost, hbefore, -⟩ := rsplitHead_port hcolon hnumber
    have hserver : afterLast urlAt crack.netloc ≠ [] := by
      intro hnil
      rw [hnil] at hsplitHost
      exact absurd hsplitHost (by simp)
    unfold PortFine
    rw [or_iff_right (not_not.mpr hcolon), hhost]
    generalize hfront : rsplitHead urlColon (afterLast urlAt crack.netloc) = front at hsplitHost hbefore
    constructor
    · intro hsame
      refine ⟨htext, p, hnumber, ?_⟩
      by_contra hnot
      obtain ⟨hzero, hnot⟩ := not_or.mp hnot
      obtain ⟨hdefault, hhostNe⟩ := not_or.mp hnot
      obtain ⟨d, hd⟩ := Option.ne_none_iff_exists'.mp hdefault
      have hfrontNe : front ≠ [] := by
        rintro rfl
        exact hhostNe hsplitHost
      have hopen := hsame hdefault hfrontNe
      rw [internetOpenUrl_eq hsplit hd hserver, hread] at hopen
      dsimp only at hopen
      rw [if_neg hzero] at hopen
      -- the server keeps the colon and the zero that the host name lost
      have hlen := congrArg List.length (Prod.mk.inj (Option.some.inj hopen)).1
      rw [hsplitHost, List.length_append, List.length_cons] at hlen
      omega
    · rintro ⟨-, q, hq, hfine⟩ hdefault hne
      obtain rfl : p = q := Option.some.inj (hnumber.symm.trans hq)
      obtain ⟨d, hd⟩ := Option.ne_none_iff_exists'.mp hdefault
      rw [internetOpenUrl_eq hsplit hd hserver, hread]
      dsimp only
      rcases hfine with hzero | hnone | hempty
      · rw [if_pos hzero, hbefore]
      · exact absurd hnone hdefault
      · have hlen := congrArg List.length (hsplitHost.symm.trans hempty)
        rw [List.length_append, List.length_cons] at hlen
        have hzero : front.length = 0 := by omega
        exact absurd (List.eq_nil_of_length_eq_zero hzero) hne

theorem urlsplit_eq (check : List Nat → Bool) (hscheme : splitScheme (cleanUrl url) = (scheme, rest))
    (hnetloc : splitNetloc rest = (netloc, query)) :
    urlsplit check url = if check netloc then some ⟨scheme, netloc, splitPath query⟩ else none := by
  unfold urlsplit
  rw [hscheme]
  dsimp only
  rw [hnetloc]

theorem internetCrackUrl_host {dwExtraInfoLength port : Nat} {parts : UrlParts}
    (h : internetCrackUrl check url dwExtraInfoLength = some (port, parts)) :
    ∃ cracked, crackUrl check url = some (port, cracked) ∧ cracked.hostName = parts.hostName := by
  obtain ⟨⟨port', cracked⟩, hcracked, hmap⟩ := Option.map_eq_some_iff.mp h
  dsimp only at hmap
  split at hmap
  next =>
    obtain ⟨rfl, rfl⟩ := Prod.mk.inj hmap
    exact ⟨cracked, hcracked, rfl⟩
  next =>
    obtain ⟨rfl, rfl⟩ := Prod.mk.inj hmap
    exact ⟨cracked, hcracked, rfl⟩

theorem internetCrackUrl_extra {cracked : Nat × UrlParts} (h : crackUrl check url = some cracked) :
    internetCrackUrl check url 1 = some cracked := by
  rw [internetCrackUrl, h]
  rfl

/-- The parts agree exactly when the port of the URL, if there is one, is fine. -/
theorem crackUrl_law (check : List Nat → Bool) (url : List Nat) (hkept : KeptToPath url) :
    UrlSplitAgrees check url ↔ ∀ crack, urlsplit check url = some crack → PortFine crack.scheme crack.netloc := by
  rcases hscheme : splitScheme (cleanUrl url) with ⟨scheme, rest⟩
  rcases hnetloc : splitNetloc rest with ⟨netloc, query⟩
  obtain ⟨front, user, after, tail, -, -, hcrack⟩ := crackUrl_kept check hkept hscheme hnetloc rfl
  have hurlsplit := urlsplit_eq check hscheme hnetloc
  constructor
  · intro hagree crack hsplit
    rw [hsplit] at hurlsplit
    split at hurlsplit
    next hcheck =>
      obtain rfl := Option.some.inj hurlsplit
      rw [if_pos hcheck] at hcrack
      have halone := (hostAlone_iff scheme netloc).mp (hagree.hostAlone _ _ hcrack)
      refine (sameServer_iff hsplit halone).mp fun hdefault hne => ?_
      exact hagree.sameServer 1 _ _ _ hsplit (internetCrackUrl_extra hcrack) hdefault hne
    next => exact nomatch hurlsplit
  · intro hfine
    refine ⟨fun port parts h => (crackUrl_atOffset check hkept h).1,
      fun port parts h => (crackUrl_atOffset check hkept h).2, fun port parts h => ?_,
      fun dwExtraInfoLength port parts crack hsplit h hdefault hne => ?_⟩
    · rw [hcrack] at h
      split at h
      next hcheck =>
        obtain ⟨-, rfl⟩ := Prod.mk.inj (Option.some.inj h)
        rw [if_pos hcheck] at hurlsplit
        refine (hostAlone_iff scheme netloc).mpr ?_
        rcases hfine _ hurlsplit with hnone | ⟨htext, p, hnumber, -⟩
        · exact Or.inl hnone
        · exact Or.inr ⟨htext, p, hnumber⟩
      next => exact nomatch h
    · obtain ⟨cracked, hcracked, hhost⟩ := internetCrackUrl_host h
      have hcrackFine := hfine crack hsplit
      rw [hsplit] at hurlsplit
      split at hurlsplit
      next hcheck =>
        obtain rfl := Option.some.inj hurlsplit
        rw [hcrack, if_pos hcheck] at hcracked
        obtain ⟨rfl, rfl⟩ := Prod.mk.inj (Option.some.inj hcracked)
        rw [← hhost] at hne ⊢
        have halone : urlColon ∉ portTail (afterLast urlAt netloc) ∨ portText (afterLast urlAt netloc) ≠ [] ∧
            ∃ p, portNumber (portText (afterLast urlAt netloc)) = some p := by
          rcases hcrackFine with hnone | ⟨htext, p, hnumber, -⟩
          · exact Or.inl hnone
          · exact Or.inr ⟨htext, p, hnumber⟩
        exact (sameServer_iff hsplit halone).mpr hcrackFine hdefault hne
      next => exact nomatch hurlsplit

/-- `http://h:8/p` -/
def portUrl : List Nat := [0x68, 0x74, 0x74, 0x70, 0x3A, 0x2F, 0x2F, 0x68, 0x3A, 0x38, 0x2F, 0x70]

theorem crackUrl_law_port :
    KeptToPath portUrl ∧ (UrlSplitAgrees (fun _ => true) portUrl ↔
      ∀ crack, urlsplit (fun _ => true) portUrl = some crack → PortFine crack.scheme crack.netloc) := by
  have hkept : KeptToPath portUrl := by
    unfold KeptToPath
    decide
  exact ⟨hkept, crackUrl_law (fun _ => true) portUrl hkept⟩

/-- `http://h:0/` -/
def zeroPortUrl : List Nat := [0x68, 0x74, 0x74, 0x70, 0x3A, 0x2F, 0x2F, 0x68, 0x3A, 0x30, 0x2F]

theorem crackUrl_zeroPort : ¬UrlSplitAgrees (fun _ => true) zeroPortUrl := by
  intro h
  have hopen := h.sameServer 1 0 ⟨(schemeHttp, 0), ([0x68], 7), ([0x2F], 10), ([], 11)⟩
    ⟨schemeHttp, [0x68, 0x3A, 0x30], [0x2F]⟩
    (by decide) (by decide) (by decide) (by decide)
  exact absurd hopen (by decide)

end Law

end Speakeasy
