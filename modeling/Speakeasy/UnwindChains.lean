import Speakeasy.UnwindInfo
import Speakeasy.UnwindEncoding
import Speakeasy.UnwindReadBounds

namespace Speakeasy

/-- The records that memory chains, from a function to its primary entry. -/
inductive IsChain (reader : GuestReader) (base : Int) :
    RuntimeFunction → List (RuntimeFunction × UnwindInfo) → Prop
  | primary {fn : RuntimeFunction} {info : UnwindInfo} :
      ((readUnwindInfo (base + fn.unwindInfo.toNat)).run reader.get).2 = .ok info →
      info.flags &&& flagChainInfo = 0 → IsChain reader base fn [(fn, info)]
  | fragment {fn next : RuntimeFunction} {info : UnwindInfo}
      {rest : List (RuntimeFunction × UnwindInfo)} :
      ((readUnwindInfo (base + fn.unwindInfo.toNat)).run reader.get).2 = .ok info →
      info.flags &&& flagChainInfo ≠ 0 →
      ((readRuntimeFunction base info.trailer).run reader.get).2 = .ok next →
      IsChain reader base next rest → IsChain reader base fn ((fn, info) :: rest)

/-- The codes of a record that precede an address. -/
def codesBefore (pc : Int) (record : RuntimeFunction × UnwindInfo) : List (UnwindInfo × UnwindCode) :=
  (record.2.codes.filter fun c => c.prologOffset ≤ prologOffset record.1 pc).map fun c => (record.2, c)

def allCodes (record : RuntimeFunction × UnwindInfo) : List (UnwindInfo × UnwindCode) :=
  record.2.codes.map fun c => (record.2, c)

/-- Apply codes in order, each with the frame register of its own record. -/
def applyEach (frame : Int) : List (UnwindInfo × UnwindCode) → UnwindState → UnwindReads UnwindState
  | [], s => return s
  | (info, c) :: codes, s => do
    let s ← applyCode info frame c s
    applyEach frame codes s

/-- The address is in the prolog of a record. -/
def InProlog (pc : Int) (record : RuntimeFunction × UnwindInfo) : Prop :=
  pc - record.1.imageBase - record.1.beginRva.toNat < record.2.prologSize ∧
    0 ≤ pc - record.1.imageBase - record.1.beginRva.toNat

instance (pc : Int) (record : RuntimeFunction × UnwindInfo) : Decidable (InProlog pc record) :=
  inferInstanceAs (Decidable (_ ∧ _))

/-- The handler of a record and its data, which the record has outside of its prolog. -/
def handlerOutsideProlog (base pc : Int) (handlerType : Nat) (record : RuntimeFunction × UnwindInfo) :
    UnwindReads (Int × Int) :=
  if record.2.flags &&& handlerType ≠ 0 ∧ ¬InProlog pc record then do
    return (base + (← readU32 record.2.trailer).toNat, record.2.trailer + 4)
  else return (0, 0)

/-- What an unwind does with some codes and the last record of a chain. -/
def unwindBy (base pc frame : Int) (handlerType : Nat) (codes : List (UnwindInfo × UnwindCode))
    (last : RuntimeFunction × UnwindInfo) (ctx : Context64) : UnwindReads (Context64 × FrameInfo) := do
  let s ← applyEach frame codes ⟨ctx, false⟩
  let (handler, handlerData) ← handlerOutsideProlog base pc handlerType last
  let ctx ← if s.machineFrame then pure s.ctx else unwindLeaf s.ctx
  return (ctx, ⟨frame, handler, handlerData⟩)

/-- The address is inside a function. -/
def InFunction (fn : RuntimeFunction) (pc : Int) : Prop :=
  (fn.beginRva.toNat : Int) ≤ pc - fn.imageBase ∧ pc - fn.imageBase < fn.endRva.toNat

instance (fn : RuntimeFunction) (pc : Int) : Decidable (InFunction fn pc) :=
  inferInstanceAs (Decidable (_ ∧ _))

/-- The prolog of a record is inside the record, and the address is outside of it. -/
structure Apart (pc : Int) (record : RuntimeFunction × UnwindInfo) : Prop where
  outside : ¬InFunction record.1 pc
  prolog : record.1.beginRva.toNat + record.2.prologSize ≤ record.1.endRva.toNat
  codes : ∀ c ∈ record.2.codes, record.1.beginRva.toNat + c.prologOffset ≤ record.1.endRva.toNat

theorem applyEach_append (frame : Int) (codes rest : List (UnwindInfo × UnwindCode)) (s : UnwindState) :
    applyEach frame (codes ++ rest) s = applyEach frame codes s >>= applyEach frame rest := by
  induction codes generalizing s with
  | nil => exact (LoggedReads.pure_bind s _).symm
  | cons x codes ih =>
    show applyCode x.1 frame x.2 s >>= applyEach frame (codes ++ rest) =
      (applyCode x.1 frame x.2 s >>= applyEach frame codes) >>= applyEach frame rest
    rw [LoggedReads.bind_assoc]
    congr 1
    funext s
    exact ih s

theorem applyCodes_eq (pc frame : Int) (fn : RuntimeFunction) (info : UnwindInfo) (s : UnwindState) :
    applyCodes (prologOffset fn pc) info frame info.codes s =
      applyEach frame (codesBefore pc (fn, info)) s := by
  unfold codesBefore
  generalize info.codes = codes
  induction codes generalizing s with
  | nil => rfl
  | cons c codes ih =>
    unfold applyCodes
    by_cases hc : c.prologOffset > prologOffset fn pc
    · rw [if_pos hc, ih, List.filter_cons_of_neg (by simpa using hc)]
    · rw [if_neg hc, List.filter_cons_of_pos (by simpa using hc)]
      show applyCode info frame c s >>= applyCodes (prologOffset fn pc) info frame codes = _
      congr 1
      funext s
      exact ih s

/-- The loop over a chain applies the codes of all its records that precede the address. -/
theorem unwindChain_result {reader : GuestReader} {base pc frame : Int} {fn : RuntimeFunction}
    {chain : List (RuntimeFunction × UnwindInfo)} (h : IsChain reader base fn chain)
    {rounds : Nat} (hrounds : chain.length ≤ rounds) {last : RuntimeFunction × UnwindInfo}
    (hlast : chain.getLast? = some last) (info : UnwindInfo)
    (hinfo : ((readUnwindInfo (base + fn.unwindInfo.toNat)).run reader.get).2 = .ok info) (s : UnwindState) :
    ((unwindChain base pc frame rounds fn info s).run reader.get).2 =
      ((applyEach frame (chain.flatMap (codesBefore pc)) s >>= fun s =>
        (return (last.1, last.2, s) : UnwindReads _)).run reader.get).2 := by
  induction h generalizing rounds info s with
  | @primary fn info' hread hflags =>
    obtain ⟨rounds, rfl⟩ := Nat.exists_eq_succ_of_ne_zero (Nat.ne_of_gt hrounds)
    rw [hread] at hinfo
    cases hinfo
    cases hlast
    unfold unwindChain
    rw [applyCodes_eq, List.flatMap_singleton]
    simp only [if_pos hflags]
    rfl
  | @fragment fn next info' rest hread hflags hnext hrest ih =>
    obtain ⟨rounds, rfl⟩ := Nat.exists_eq_succ_of_ne_zero
      (Nat.ne_of_gt (Nat.lt_of_lt_of_le (Nat.succ_pos _) hrounds))
    rw [hread] at hinfo
    cases hinfo
    have hnil : rest ≠ [] := by
      cases hrest <;> exact List.cons_ne_nil _ _
    have hlast' : rest.getLast? = some last := by
      rwa [List.getLast?_cons_of_ne_nil hnil] at hlast
    unfold unwindChain
    rw [applyCodes_eq, List.flatMap_cons, applyEach_append, LoggedReads.bind_assoc]
    refine LoggedReads.bind_result_congr rfl fun s => ?_
    rw [if_neg hflags, LoggedReads.bind_result_ok hnext]
    have hread' : ∃ info, ((readUnwindInfo (base + next.unwindInfo.toNat)).run reader.get).2 = .ok info := by
      cases hrest with
      | primary hread' => exact ⟨_, hread'⟩
      | fragment hread' => exact ⟨_, hread'⟩
    obtain ⟨info, hinfo⟩ := hread'
    rw [LoggedReads.bind_result_ok hinfo]
    exact ih (Nat.le_of_succ_le_succ hrounds) hlast' info hinfo s

/-- Behind the prolog of a record that is apart, all its codes precede the address. -/
theorem Apart.codesBefore_eq {pc : Int} {record : RuntimeFunction × UnwindInfo}
    (h : Apart pc record) (hpc : 0 ≤ pc - record.1.imageBase ∧ pc - record.1.imageBase < 2 ^ 32) :
    codesBefore pc record = allCodes record := by
  unfold codesBefore allCodes
  congr 1
  refine List.filter_eq_self.mpr fun c hc => decide_eq_true ?_
  have hcode := h.codes c hc
  have houtside := h.outside
  have hend := record.1.endRva.toNat_lt
  unfold InFunction at houtside
  unfold prologOffset
  omega

theorem Apart.not_inProlog {pc : Int} {record : RuntimeFunction × UnwindInfo}
    (h : Apart pc record) (hpc : 0 ≤ pc - record.1.imageBase ∧ pc - record.1.imageBase < 2 ^ 32) :
    prologOffset record.1 pc ≥ record.2.prologSize ↔ ¬InProlog pc record := by
  have hprolog := h.prolog
  have houtside := h.outside
  have hend := record.1.endRva.toNat_lt
  unfold InFunction at houtside
  unfold prologOffset InProlog
  omega

theorem InFunction.not_inProlog {pc : Int} {record : RuntimeFunction × UnwindInfo}
    (h : InFunction record.1 pc) :
    prologOffset record.1 pc ≥ record.2.prologSize ↔ ¬InProlog pc record := by
  have hend := record.1.endRva.toNat_lt
  unfold InFunction at h
  unfold prologOffset InProlog
  omega

theorem readRuntimeFunction_imageBase {reader : GuestReader} {base address : Int} {fn : RuntimeFunction}
    (h : ((readRuntimeFunction base address).run reader.get).2 = .ok fn) : fn.imageBase = base := by
  obtain ⟨bytes, _, hfn⟩ := LoggedReads.bind_eq_ok.mp h
  rw [← Except.ok.inj hfn]

theorem IsChain.imageBase {reader : GuestReader} {base : Int} {fn : RuntimeFunction}
    {chain : List (RuntimeFunction × UnwindInfo)} (h : IsChain reader base fn chain)
    (hfn : fn.imageBase = base) : ∀ record ∈ chain, record.1.imageBase = base := by
  induction h with
  | primary hread hflags =>
    intro record hrecord
    rw [List.mem_singleton.mp hrecord]
    exact hfn
  | fragment hread hflags hnext hrest ih =>
    intro record hrecord
    rcases List.mem_cons.mp hrecord with rfl | hrecord
    · exact hfn
    · exact ih (readRuntimeFunction_imageBase hnext) record hrecord

/-- An unwind over a chain applies the codes of the first record that precede the address and then all
the codes of the other records, and reports the handler of the last one. -/
def UnwindsChain (reader : GuestReader) (fn : RuntimeFunction) (pc : Int) (ctx : Context64)
    (handlerType : Nat) (chain : List (RuntimeFunction × UnwindInfo)) : Prop :=
  ∀ first rest last, chain = first :: rest → chain.getLast? = some last →
    ((virtualUnwind fn pc ctx handlerType).run reader.get).2 =
      ((unwindBy fn.imageBase pc (establisherFrame first.2 (prologOffset first.1 pc) ctx) handlerType
        (codesBefore pc first ++ rest.flatMap allCodes) last ctx).run reader.get).2

theorem readHandler_eq {base pc : Int} {handlerType : Nat} {last : RuntimeFunction × UnwindInfo}
    (h : prologOffset last.1 pc ≥ last.2.prologSize ↔ ¬InProlog pc last) :
    readHandler base pc handlerType last.1 last.2 = handlerOutsideProlog base pc handlerType last := by
  unfold readHandler handlerOutsideProlog
  by_cases hin : InProlog pc last
  · have hnot : ¬prologOffset last.1 pc ≥ last.2.prologSize := fun hge => h.mp hge hin
    rw [if_neg (fun hand => hnot hand.2), if_neg (fun hand => hand.2 hin)]
  · have hge := h.mpr hin
    by_cases hflag : last.2.flags &&& handlerType ≠ 0
    · rw [if_pos ⟨hflag, hge⟩, if_pos ⟨hflag, hin⟩]
    · rw [if_neg (fun hand => hflag hand.1), if_neg (fun hand => hflag hand.1)]

theorem virtualUnwind_chain {reader : GuestReader} {fn : RuntimeFunction} {pc : Int} {ctx : Context64}
    {handlerType : Nat} {chain : List (RuntimeFunction × UnwindInfo)}
    (h : IsChain reader fn.imageBase fn chain) (hlength : chain.length ≤ maxChain)
    (hpc : InFunction fn pc) (hapart : ∀ record ∈ chain.tail, Apart pc record) :
    UnwindsChain reader fn pc ctx handlerType chain := by
  rintro ⟨fn', info⟩ rest last rfl hlast
  have hbase := h.imageBase rfl
  have hhead : fn' = fn ∧
      ((readUnwindInfo (fn.imageBase + fn.unwindInfo.toNat)).run reader.get).2 = .ok info := by
    cases h with
    | primary hread _ => exact ⟨rfl, hread⟩
    | fragment hread _ _ _ => exact ⟨rfl, hread⟩
  obtain ⟨rfl, hread⟩ := hhead
  have hend := fn'.endRva.toNat_lt
  have hrva : 0 ≤ pc - fn'.imageBase ∧ pc - fn'.imageBase < 2 ^ 32 := by
    unfold InFunction at hpc
    omega
  have hall : rest.flatMap (codesBefore pc) = rest.flatMap allCodes := by
    refine List.flatMap_congr fun record hrecord => ?_
    have hsame := hbase record (List.mem_cons_of_mem _ hrecord)
    exact (hapart record hrecord).codesBefore_eq (hsame ▸ hrva)
  have hprolog : prologOffset last.1 pc ≥ last.2.prologSize ↔ ¬InProlog pc last := by
    rcases List.mem_cons.mp (List.mem_of_getLast? hlast) with heq | hrecord
    · rw [heq]
      exact InFunction.not_inProlog hpc
    · have hsame := hbase last (List.mem_cons_of_mem _ hrecord)
      exact (hapart last hrecord).not_inProlog (hsame ▸ hrva)
  unfold virtualUnwind
  rw [LoggedReads.bind_result_ok hread]
  refine (LoggedReads.bind_result_congr
    (unwindChain_result h hlength hlast info hread ⟨ctx, false⟩) fun _ => rfl).trans ?_
  rw [LoggedReads.bind_assoc]
  unfold unwindBy
  rw [List.flatMap_cons, hall]
  refine LoggedReads.bind_result_congr rfl fun s => ?_
  rw [LoggedReads.pure_bind]
  simp only [readHandler_eq hprolog]

/-- The function that memory links to the unwind data of a function. -/
def nextInChain (reader : GuestReader) (base : Int) (fn : RuntimeFunction) : Option RuntimeFunction :=
  match ((readUnwindInfo (base + fn.unwindInfo.toNat)).run reader.get).2 with
  | .error _ => none
  | .ok info =>
    if info.flags &&& flagChainInfo = 0 then none
    else ((readRuntimeFunction base info.trailer).run reader.get).2.toOption

/-- The function at the end of some links of a chain. -/
def follow (reader : GuestReader) (base : Int) : Nat → RuntimeFunction → Option RuntimeFunction
  | 0, fn => some fn
  | links + 1, fn => (nextInChain reader base fn).bind (follow reader base links)

/-- The chain of a function has more than `maxChain` records, or comes back to one of them. -/
def Endless (reader : GuestReader) (fn : RuntimeFunction) : Prop :=
  (follow reader fn.imageBase maxChain fn).isSome ∨
    ∃ i j, i < j ∧ (follow reader fn.imageBase i fn).isSome ∧
      follow reader fn.imageBase i fn = follow reader fn.imageBase j fn

theorem follow_add (reader : GuestReader) (base : Int) (i j : Nat) (fn : RuntimeFunction) :
    follow reader base (i + j) fn = (follow reader base i fn).bind (follow reader base j) := by
  induction i generalizing fn with
  | zero => rw [Nat.zero_add]; rfl
  | succ i ih =>
    rw [Nat.succ_add]
    show (nextInChain reader base fn).bind (follow reader base (i + j)) =
      ((nextInChain reader base fn).bind (follow reader base i)).bind (follow reader base j)
    rw [Option.bind_assoc]
    congr 1
    funext next
    exact ih next

/-- A chain that comes back to a record has as many links as one asks for. -/
theorem follow_of_cycle {reader : GuestReader} {base : Int} {g : RuntimeFunction} {period : Nat}
    (hpos : 0 < period) (hcycle : follow reader base period g = some g) (n : Nat) :
    (follow reader base n g).isSome := by
  induction n using Nat.strong_induction_on with
  | _ n ih =>
    by_cases hlt : n < period
    · have hsplit := follow_add reader base n (period - n) g
      rw [Nat.add_sub_cancel' (Nat.le_of_lt hlt), hcycle] at hsplit
      cases hn : follow reader base n g with
      | some _ => rfl
      | none => simp [hn] at hsplit
    · have hsplit := follow_add reader base period (n - period) g
      rw [Nat.add_sub_cancel' (Nat.le_of_not_lt hlt), hcycle, Option.bind_some] at hsplit
      rw [hsplit]
      exact ih (n - period) (by omega)

theorem Endless.long {reader : GuestReader} {fn : RuntimeFunction} (h : Endless reader fn) :
    (follow reader fn.imageBase maxChain fn).isSome := by
  rcases h with h | ⟨i, j, hij, hsome, heq⟩
  · exact h
  · obtain ⟨g, hg⟩ := Option.isSome_iff_exists.mp hsome
    have hsplit := follow_add reader fn.imageBase i (j - i) fn
    rw [Nat.add_sub_cancel' (Nat.le_of_lt hij), ← heq, hg, Option.bind_some] at hsplit
    have hcycle : ∀ n, (follow reader fn.imageBase n g).isSome :=
      follow_of_cycle (Nat.sub_pos_of_lt hij) hsplit.symm
    by_cases hle : i ≤ maxChain
    · have hall := follow_add reader fn.imageBase i (maxChain - i) fn
      rw [Nat.add_sub_cancel' hle, hg, Option.bind_some] at hall
      rw [hall]
      exact hcycle _
    · have hall := follow_add reader fn.imageBase maxChain (i - maxChain) fn
      rw [Nat.add_sub_cancel' (Nat.le_of_not_le hle), hg] at hall
      cases hn : follow reader fn.imageBase maxChain fn with
      | some _ => rfl
      | none => simp [hn] at hall

/-- The loop gives no result for a chain with a link behind each of its rounds. -/
theorem unwindChain_endless {reader : GuestReader} {base pc frame : Int} {rounds : Nat}
    {fn : RuntimeFunction} (h : (follow reader base rounds fn).isSome) {info : UnwindInfo}
    (hinfo : ((readUnwindInfo (base + fn.unwindInfo.toNat)).run reader.get).2 = .ok info)
    (s : UnwindState) (result : RuntimeFunction × UnwindInfo × UnwindState) :
    ((unwindChain base pc frame rounds fn info s).run reader.get).2 ≠ .ok result := by
  induction rounds generalizing fn info s with
  | zero => exact fun hok => nomatch hok
  | succ rounds ih =>
    intro hok
    obtain ⟨next, hnext, hrest⟩ : ∃ next, nextInChain reader base fn = some next ∧
        (follow reader base rounds next).isSome := by
      obtain ⟨g, hg⟩ := Option.isSome_iff_exists.mp h
      obtain ⟨next, hnext, hrest⟩ := Option.bind_eq_some_iff.mp hg
      exact ⟨next, hnext, Option.isSome_iff_exists.mpr ⟨g, hrest⟩⟩
    unfold nextInChain at hnext
    rw [hinfo] at hnext
    unfold unwindChain at hok
    obtain ⟨s', _, hok⟩ := LoggedReads.bind_eq_ok.mp hok
    by_cases hflags : info.flags &&& flagChainInfo = 0
    · simp [hflags] at hnext
    · rw [if_neg hflags] at hok
      obtain ⟨next', hread, hok⟩ := LoggedReads.bind_eq_ok.mp hok
      obtain ⟨info', hinfo', hok⟩ := LoggedReads.bind_eq_ok.mp hok
      simp only [if_neg hflags, hread, Except.toOption, Option.some.injEq] at hnext
      subst hnext
      exact ih hrest hinfo' s' hok

theorem virtualUnwind_endless {reader : GuestReader} {fn : RuntimeFunction} (h : Endless reader fn)
    (pc : Int) (ctx : Context64) (handlerType : Nat) (result : Context64 × FrameInfo) :
    ((virtualUnwind fn pc ctx handlerType).run reader.get).2 ≠ .ok result := by
  intro hok
  obtain ⟨info, hinfo, hok⟩ := LoggedReads.bind_eq_ok.mp hok
  obtain ⟨x, hx, _⟩ := LoggedReads.bind_eq_ok.mp hok
  exact unwindChain_endless h.long hinfo _ _ hx

/-- What an unwind does for a chain that ends, and for one that does not. -/
theorem virtualUnwind_chainLaw :
    (∀ reader fn pc ctx handlerType chain, IsChain reader fn.imageBase fn chain →
      chain.length ≤ maxChain → InFunction fn pc → (∀ record ∈ chain.tail, Apart pc record) →
      UnwindsChain reader fn pc ctx handlerType chain) ∧
    ∀ reader fn pc ctx handlerType, Endless reader fn →
      (∀ result, ((virtualUnwind fn pc ctx handlerType).run reader.get).2 ≠ .ok result) ∧
      ((∀ range ∈ ((virtualUnwind fn pc ctx handlerType).run reader.get).1,
          (reader.read range.1 range.2).isSome) →
        ((virtualUnwind fn pc ctx handlerType).run reader.get).2 = .error .chain) ∧
      ((virtualUnwind fn pc ctx handlerType).run reader.get).1.length ≤ maxReads := by
  refine ⟨fun _ _ _ _ _ _ h hlength hpc hapart => virtualUnwind_chain h hlength hpc hapart, ?_⟩
  intro reader fn pc ctx handlerType h
  refine ⟨virtualUnwind_endless h pc ctx handlerType, fun hreads => ?_,
    virtualUnwind_readCount fn pc ctx handlerType⟩
  cases hresult : ((virtualUnwind fn pc ctx handlerType).run reader.get).2 with
  | ok result => exact absurd hresult (virtualUnwind_endless h pc ctx handlerType result)
  | error fault =>
    rcases virtualUnwind_failsByRead fn pc ctx handlerType fault hresult with hown | ⟨range, hr, hfail⟩
    · rw [hown]
    · obtain ⟨bytes, hbytes⟩ := Option.isSome_iff_exists.mp (hreads range hr)
      rw [GuestReader.get_of_read hbytes] at hfail
      cases hfail

/-- A reader of some bytes at address 0. -/
def bytesReader (memory : List UInt8) : GuestReader where
  read address size :=
    if 0 ≤ address ∧ address.toNat + size ≤ memory.length then
      some ((memory.drop address.toNat).take size)
    else none
  length address size bytes h := by
    split at h
    next hin =>
      rw [← Option.some.inj h, List.length_take, List.length_drop]
      omega
    next => cases h

/-- A fragment at 16 whose primary entry at 0 has one code, an allocation of 8 bytes. -/
def chainMemory (offset : UInt8) : List UInt8 :=
  [33, 0, 0, 0, 0, 0, 0, 0, 16, 0, 0, 0, 16, 0, 0, 0] ++ [1, offset, 1, 0, offset, 2, 0, 0] ++
    [7, 0, 0, 0, 0, 0, 0, 0] ++ [9, 0, 0, 0, 0, 0, 0, 0]

def chainFragment : RuntimeFunction := ⟨0, 0, 16, 32, 0⟩

def chainRecords (offset : Nat) : List (RuntimeFunction × UnwindInfo) :=
  [(chainFragment, ⟨4, 0, 0, 0, [], 4⟩),
    (⟨0, 4, 0, 16, 16⟩, ⟨0, offset, 0, 0, [⟨offset, 2, 0, 0⟩], 24⟩)]

def chainContext : Context64 := ⟨fun reg => if reg = rspIndex then 24 else 0, fun _ => (0, 0), 20⟩

theorem virtualUnwind_chain_fragment :
    UnwindsChain (bytesReader (chainMemory 8)) chainFragment 20 chainContext 1 (chainRecords 8) := by
  have hchain : IsChain (bytesReader (chainMemory 8)) 0 chainFragment (chainRecords 8) :=
    .fragment rfl (by decide) rfl (.primary rfl (by decide))
  refine virtualUnwind_chainLaw.1 _ _ _ _ _ _ hchain (by decide) (by decide) ?_
  intro record hrecord
  have heq := List.mem_singleton.mp hrecord
  rw [heq]
  exact ⟨by decide, by decide, by decide⟩

/-- A code behind the end of the primary entry is not applied in a fragment just behind it. -/
theorem virtualUnwind_not_chain : ¬∀ reader fn pc ctx handlerType chain,
    IsChain reader fn.imageBase fn chain → chain.length ≤ maxChain → InFunction fn pc →
      UnwindsChain reader fn pc ctx handlerType chain := by
  intro h
  have hchain : IsChain (bytesReader (chainMemory 32)) 0 chainFragment (chainRecords 32) :=
    .fragment rfl (by decide) rfl (.primary rfl (by decide))
  have hunwinds := h (bytesReader (chainMemory 32)) chainFragment 20 chainContext 1 (chainRecords 32)
    hchain (by decide) (by decide) _ _ _ rfl rfl
  have hrsp := congrArg (fun result => result.toOption.map fun x => x.1.rsp) hunwinds
  exact absurd hrsp (by decide)

end Speakeasy
