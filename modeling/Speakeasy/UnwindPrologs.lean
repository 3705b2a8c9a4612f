import Speakeasy.UnwindChains

namespace Speakeasy

/-- The general registers that a function gives back to its caller, other than `Rsp`. -/
def nonvolatileGprs : List (Fin 16) := [3, 5, 6, 7, 12, 13, 14, 15]

def nonvolatileXmms : List (Fin 16) := [6, 7, 8, 9, 10, 11, 12, 13, 14, 15]

namespace UnwindOp

/-- The bytes of stack that the instruction of an operation takes. -/
def stackSize : UnwindOp → Nat
  | .pushNonvol _ => 8
  | .allocLarge units => units.toNat * 8
  | .allocHuge size => size.toNat
  | .allocSmall units => units.val * 8 + 8
  | _ => 0

def savedGpr : UnwindOp → Option (Fin 16)
  | .pushNonvol reg => some reg
  | .saveNonvol reg _ => some reg
  | .saveNonvolFar reg _ => some reg
  | _ => none

def savedXmm : UnwindOp → Option (Fin 16)
  | .saveXmm128 reg _ => some reg
  | .saveXmm128Far reg _ => some reg
  | _ => none

/-- The operation stores a register relative to the frame. -/
def IsSave : UnwindOp → Prop
  | .saveNonvol _ _ => True
  | .saveNonvolFar _ _ => True
  | .saveXmm128 _ _ => True
  | .saveXmm128Far _ _ => True
  | _ => False

def IsPush (op : UnwindOp) : Prop := ∃ reg, op = .pushNonvol reg

end UnwindOp

/-- The bytes of stack that some operations take. -/
def stackDepth (ops : List UnwindOp) : Nat := (ops.map UnwindOp.stackSize).sum

/-- The bytes of stack between the return address and the frame, for operations with the last one first. The
frame is at `Rsp` where the frame register is set, or else behind the prolog. -/
def frameDepth : List UnwindOp → Nat
  | [] => 0
  | op :: earlier => if .setFpreg ∈ earlier then frameDepth earlier else op.stackSize + stackDepth earlier

/-- The registers and the stores of a prolog that runs. -/
structure PrologState where
  ctx : Context64
  stored : List (Int × List UInt8)

/-- The state after the call of a function whose caller goes on with `caller`. -/
def calledBy (caller : Context64) : PrologState :=
  ⟨caller.setRsp (caller.rsp - 8), [((caller.rsp - 8).toNat, toBytes 8 caller.rip.toNat)]⟩

namespace PrologState

def store (s : PrologState) (address : Int) (bytes : List UInt8) : PrologState :=
  { s with stored := (address, bytes) :: s.stored }

def storeGpr (s : PrologState) (address : Int) (reg : Fin 16) : PrologState :=
  s.store address (toBytes 8 (s.ctx.gpr reg).toNat)

def storeXmm (s : PrologState) (address : Int) (reg : Fin 16) : PrologState :=
  s.store address (toBytes 8 (s.ctx.xmm reg).1.toNat ++ toBytes 8 (s.ctx.xmm reg).2.toNat)

def lower (s : PrologState) (size : Nat) : PrologState :=
  { s with ctx := s.ctx.setRsp (s.ctx.rsp - UInt64.ofNat size) }

/-- The instruction of an operation, in a function whose frame is at `frame`. -/
def execute (frameReg : Fin 16) (frameOffset : Nat) (frame : Int) : UnwindOp → PrologState → PrologState
  | .pushNonvol reg, s => { (s.storeGpr (s.ctx.rsp - 8).toNat reg) with ctx := s.ctx.setRsp (s.ctx.rsp - 8) }
  | .allocLarge units, s => s.lower (units.toNat * 8)
  | .allocHuge size, s => s.lower size.toNat
  | .allocSmall units, s => s.lower (units.val * 8 + 8)
  | .setFpreg, s => { s with ctx := s.ctx.setGpr frameReg (s.ctx.rsp + UInt64.ofNat (16 * frameOffset)) }
  | .saveNonvol reg units, s => s.storeGpr (frame + units.toNat * 8) reg
  | .saveNonvolFar reg offset, s => s.storeGpr (frame + offset.toNat) reg
  | .saveXmm128 reg units, s => s.storeXmm (frame + units.toNat * 16) reg
  | .saveXmm128Far reg offset, s => s.storeXmm (frame + offset.toNat) reg
  | .pushMachframe _, s => s

/-- The state behind some operations, with the last one first. -/
def behind (frameReg : Fin 16) (frameOffset : Nat) (frame : Int) (caller : Context64) (ops : List UnwindOp) :
    PrologState :=
  ops.foldr (execute frameReg frameOffset frame) (calledBy caller)

end PrologState

/-- What the operations of a prolog keep to, with the last one first: they save no `Rsp`, and a nonvolatile
frame register is saved before it is set. -/
structure PrologOps (frameReg : Fin 16) (ops : List UnwindOp) : Prop where
  gprs : ∀ op ∈ ops, op.savedGpr ≠ some rspIndex
  noMachframe : ∀ errorCode, .pushMachframe errorCode ∉ ops
  frameRegister : frameReg ≠ rspIndex
  setOnce : ops.count .setFpreg ≤ 1
  frameSaved : ∀ later earlier, ops = later ++ .setFpreg :: earlier → frameReg ∈ nonvolatileGprs →
    frameReg ∈ earlier.filterMap UnwindOp.savedGpr

/-- No register is pushed behind the instruction that sets the frame register. -/
def PushesFirst (ops : List UnwindOp) : Prop :=
  ∀ later earlier, ops = later ++ .setFpreg :: earlier → ∀ op ∈ later, ¬op.IsPush

/-- The registers at an address behind some operations of a prolog: the saved ones are free, and so is `Rsp`
when the frame register is set. -/
structure RegistersBehind (frameReg : Fin 16) (s : PrologState) (ops : List UnwindOp) (ctx : Context64) :
    Prop where
  rsp : ctx.rsp = s.ctx.rsp ∨ .setFpreg ∈ ops
  frame : .setFpreg ∈ ops → ctx.gpr frameReg = s.ctx.gpr frameReg
  gprs : ∀ reg ∈ nonvolatileGprs, reg ∈ ops.filterMap UnwindOp.savedGpr ∨ ctx.gpr reg = s.ctx.gpr reg
  xmms : ∀ reg ∈ nonvolatileXmms, reg ∈ ops.filterMap UnwindOp.savedXmm ∨ ctx.xmm reg = s.ctx.xmm reg

section Context

variable (ctx : Context64) (reg reg' : Fin 16) (value : UInt64) (pair : UInt64 × UInt64)

@[simp] theorem setGpr_gpr_self : (ctx.setGpr reg value).gpr reg = value := if_pos rfl

theorem setGpr_gpr_of_ne (h : reg' ≠ reg) : (ctx.setGpr reg value).gpr reg' = ctx.gpr reg' := if_neg h

@[simp] theorem setGpr_xmm : (ctx.setGpr reg value).xmm = ctx.xmm := rfl

@[simp] theorem setXmm_gpr : (ctx.setXmm reg pair).gpr = ctx.gpr := rfl

@[simp] theorem setRsp_rsp : (ctx.setRsp value).rsp = value :=
  setGpr_gpr_self ctx rspIndex value

@[simp] theorem setRsp_xmm : (ctx.setRsp value).xmm = ctx.xmm := rfl

theorem setRsp_gpr_of_ne (h : reg ≠ rspIndex) : (ctx.setRsp value).gpr reg = ctx.gpr reg := if_neg h

theorem setGpr_rsp_of_ne (h : reg ≠ rspIndex) : (ctx.setGpr reg value).rsp = ctx.rsp := if_neg (Ne.symm h)

theorem nonvolatileGprs_ne (h : reg ∈ nonvolatileGprs) : reg ≠ rspIndex := by
  rintro rfl
  exact absurd h (by decide)

end Context

section Steps

variable {reader : GuestReader} {frameReg : Fin 16} {frameOffset : Nat} {frame : Int} {caller : Context64}
  {op : UnwindOp} {ops : List UnwindOp}

theorem PrologOps.tail (h : PrologOps frameReg (op :: ops)) : PrologOps frameReg ops where
  gprs op' hop' := h.gprs op' (List.mem_cons_of_mem _ hop')
  noMachframe errorCode hop := h.noMachframe errorCode (List.mem_cons_of_mem _ hop)
  frameRegister := h.frameRegister
  setOnce := (List.count_le_count_cons).trans h.setOnce
  frameSaved later earlier heq := h.frameSaved (op :: later) earlier (congrArg (op :: ·) heq)

theorem PushesFirst.tail (h : PushesFirst (op :: ops)) : PushesFirst ops :=
  fun later earlier heq op' hop' => h (op :: later) earlier (congrArg (op :: ·) heq) op' (List.mem_cons_of_mem _ hop')

theorem readU64_stored {address : Int} {value : UInt64}
    (h : reader.read address (toBytes 8 value.toNat).length = some (toBytes 8 value.toNat)) :
    ((readU64 address).run reader.get).2 = .ok value := by
  rw [toBytes_length] at h
  have hread : ((readMem address 8).run reader.get).2 = .ok (toBytes 8 value.toNat) := GuestReader.get_of_read h
  unfold readU64
  rw [LoggedReads.bind_result_ok hread, fromBytes_toBytes_of_lt value.toNat_lt, UInt64.ofNat_toNat]
  rfl

theorem readXmm_stored {address : Int} {low high : UInt64}
    (h : reader.read address (toBytes 8 low.toNat ++ toBytes 8 high.toNat).length =
      some (toBytes 8 low.toNat ++ toBytes 8 high.toNat)) :
    ∃ bytes, ((readMem address 16).run reader.get).2 = .ok bytes ∧
      UInt64.ofNat (fromBytes (bytes.take 8)) = low ∧ UInt64.ofNat (fromBytes (bytes.drop 8)) = high := by
  rw [List.length_append, toBytes_length, toBytes_length] at h
  refine ⟨_, GuestReader.get_of_read h, ?_, ?_⟩
  · rw [List.take_left' (toBytes_length 8 _), fromBytes_toBytes_of_lt low.toNat_lt, UInt64.ofNat_toNat]
  · rw [List.drop_left' (toBytes_length 8 _), fromBytes_toBytes_of_lt high.toNat_lt, UInt64.ofNat_toNat]

theorem RegistersBehind.step {s s' : PrologState} {ctx ctx' : Context64}
    (h : RegistersBehind frameReg s' (op :: ops) ctx) (hops : PrologOps frameReg (op :: ops))
    (hrsp : ctx'.rsp = s.ctx.rsp ∨ .setFpreg ∈ ops)
    (hgprs : ∀ reg, reg ≠ rspIndex → s'.ctx.gpr reg = s.ctx.gpr reg ∧
      ctx'.gpr reg = if op.savedGpr = some reg then s.ctx.gpr reg else ctx.gpr reg)
    (hxmms : ∀ reg, s'.ctx.xmm reg = s.ctx.xmm reg ∧
      ctx'.xmm reg = if op.savedXmm = some reg then s.ctx.xmm reg else ctx.xmm reg) :
    RegistersBehind frameReg s ops ctx' where
  rsp := hrsp
  frame hmem := by
    obtain ⟨hsame, hnew⟩ := hgprs frameReg hops.frameRegister
    rw [hnew]
    split
    · rfl
    · rw [h.frame (List.mem_cons_of_mem _ hmem), hsame]
  gprs reg hreg := by
    obtain ⟨hsame, hnew⟩ := hgprs reg (nonvolatileGprs_ne reg hreg)
    by_cases hsaved : op.savedGpr = some reg
    · exact Or.inr (hnew.trans (if_pos hsaved))
    · rcases h.gprs reg hreg with hmem | heq
      · rw [List.filterMap_cons] at hmem
        left
        cases hop : op.savedGpr with
        | none => simpa only [hop] using hmem
        | some saved =>
          simp only [hop, List.mem_cons] at hmem
          exact hmem.resolve_left fun heq => hsaved (hop.trans (congrArg some heq.symm))
      · exact Or.inr ((hnew.trans (if_neg hsaved)).trans (heq.trans hsame))
  xmms reg hreg := by
    obtain ⟨hsame, hnew⟩ := hxmms reg
    by_cases hsaved : op.savedXmm = some reg
    · exact Or.inr (hnew.trans (if_pos hsaved))
    · rcases h.xmms reg hreg with hmem | heq
      · rw [List.filterMap_cons] at hmem
        left
        cases hop : op.savedXmm with
        | none => simpa only [hop] using hmem
        | some saved =>
          simp only [hop, List.mem_cons] at hmem
          exact hmem.resolve_left fun heq => hsaved (hop.trans (congrArg some heq.symm))
      · exact Or.inr ((hnew.trans (if_neg hsaved)).trans (heq.trans hsame))

/-- Registers from which the codes of some operations lead back to the start of the prolog. -/
def Unwindable (frameReg : Fin 16) (s : PrologState) (ops : List UnwindOp) (ctx : Context64) : Prop :=
  RegistersBehind frameReg s ops ctx ∧ (PushesFirst ops ∨ ctx.rsp = s.ctx.rsp)

theorem restored_gpr {saved : Option (Fin 16)} {reg : Fin 16} (h : saved = some reg) (s : PrologState)
    (ctx : Context64) (reg' : Fin 16) : (ctx.setGpr reg (s.ctx.gpr reg)).gpr reg' =
      if saved = some reg' then s.ctx.gpr reg' else ctx.gpr reg' := by
  subst h
  by_cases heq : reg = reg'
  · subst heq
    rw [setGpr_gpr_self, if_pos rfl]
  · rw [setGpr_gpr_of_ne _ _ _ _ (Ne.symm heq), if_neg fun h => heq (Option.some.inj h)]

theorem Unwindable.rsp_of_push {reg : Fin 16} {s : PrologState} {ctx : Context64}
    (h : Unwindable frameReg s (.pushNonvol reg :: ops) ctx) : ctx.rsp = s.ctx.rsp := by
  rcases h.2 with hfirst | heq
  · rcases h.1.rsp with heq | hmem
    · exact heq
    · obtain ⟨later, earlier, rfl⟩ := List.append_of_mem ((List.mem_cons.mp hmem).resolve_left nofun)
      exact absurd ⟨reg, rfl⟩ (hfirst (.pushNonvol reg :: later) earlier rfl _ List.mem_cons_self)
  · exact heq

theorem Unwindable.push {reg : Fin 16} {s : PrologState} {ctx : Context64}
    (h : Unwindable frameReg (s.execute frameReg frameOffset frame (.pushNonvol reg)) (.pushNonvol reg :: ops) ctx)
    (hops : PrologOps frameReg (.pushNonvol reg :: ops)) :
    Unwindable frameReg s ops
      ((ctx.setGpr reg (s.ctx.gpr reg)).setRsp ((ctx.setGpr reg (s.ctx.gpr reg)).rsp + 8)) := by
  have hreg : reg ≠ rspIndex := fun heq => hops.gprs _ List.mem_cons_self (congrArg some heq)
  have hrsp : (ctx.setGpr reg (s.ctx.gpr reg)).rsp + 8 = s.ctx.rsp := by
    rw [setGpr_rsp_of_ne _ _ _ hreg, h.rsp_of_push]
    exact UInt64.sub_add_cancel _ _
  refine ⟨h.1.step hops (Or.inl ((setRsp_rsp _ _).trans hrsp)) ?_ fun reg' => ⟨rfl, rfl⟩,
    Or.inr ((setRsp_rsp _ _).trans hrsp)⟩
  intro reg' hreg'
  exact ⟨setRsp_gpr_of_ne _ _ _ hreg', (setRsp_gpr_of_ne _ _ _ hreg').trans (restored_gpr rfl s ctx reg')⟩

theorem Unwindable.alloc {size : Nat} {s : PrologState} {ctx : Context64}
    (h : Unwindable frameReg (s.lower size) (op :: ops) ctx) (hops : PrologOps frameReg (op :: ops))
    (hset : op ≠ .setFpreg) (hgpr : op.savedGpr = none) (hxmm : op.savedXmm = none) :
    Unwindable frameReg s ops (ctx.setRsp (ctx.rsp + UInt64.ofNat size)) := by
  have hraise : ctx.rsp = (s.lower size).ctx.rsp → (ctx.setRsp (ctx.rsp + UInt64.ofNat size)).rsp = s.ctx.rsp := by
    intro heq
    rw [setRsp_rsp, heq]
    exact UInt64.sub_add_cancel _ _
  refine ⟨h.1.step hops ?_ ?_ fun reg => ⟨rfl, ?_⟩, h.2.imp PushesFirst.tail hraise⟩
  · exact h.1.rsp.imp hraise fun hmem => (List.mem_cons.mp hmem).resolve_left hset.symm
  · intro reg hreg
    refine ⟨setRsp_gpr_of_ne _ _ _ hreg, (setRsp_gpr_of_ne _ _ _ hreg).trans ?_⟩
    rw [hgpr, if_neg nofun]
  · rw [hxmm, if_neg nofun]
    rfl

theorem Unwindable.setFpreg {s : PrologState} {ctx : Context64}
    (h : Unwindable frameReg (s.execute frameReg frameOffset frame .setFpreg) (.setFpreg :: ops) ctx)
    (hops : PrologOps frameReg (.setFpreg :: ops)) :
    Unwindable frameReg s ops (ctx.setRsp (ctx.gpr frameReg - UInt64.ofNat (16 * frameOffset))) := by
  have hrsp : (ctx.setRsp (ctx.gpr frameReg - UInt64.ofNat (16 * frameOffset))).rsp = s.ctx.rsp := by
    rw [setRsp_rsp, h.1.frame List.mem_cons_self]
    show (s.ctx.setGpr frameReg _).gpr frameReg - _ = _
    rw [setGpr_gpr_self]
    exact UInt64.add_sub_cancel _ _
  have hnone : UnwindOp.setFpreg ∉ ops := by
    intro hmem
    have honce := hops.setOnce
    have hpos := List.count_pos_iff.mpr hmem
    rw [List.count_cons_self] at honce
    omega
  refine ⟨⟨Or.inl hrsp, fun hmem => absurd hmem hnone, ?_, h.1.xmms⟩, Or.inr hrsp⟩
  intro reg hreg
  by_cases heq : reg = frameReg
  · subst heq
    exact Or.inl (hops.frameSaved [] ops rfl hreg)
  · refine (h.1.gprs reg hreg).imp_right fun hsame => ?_
    rw [setRsp_gpr_of_ne _ _ _ (nonvolatileGprs_ne reg hreg), hsame]
    exact setGpr_gpr_of_ne _ _ _ _ heq

theorem Unwindable.saveGpr {reg : Fin 16} {address : Int} {s : PrologState} {ctx : Context64}
    (h : Unwindable frameReg (s.storeGpr address reg) (op :: ops) ctx) (hops : PrologOps frameReg (op :: ops))
    (hset : op ≠ .setFpreg) (hgpr : op.savedGpr = some reg) (hxmm : op.savedXmm = none) :
    Unwindable frameReg s ops (ctx.setGpr reg (s.ctx.gpr reg)) := by
  have hreg : reg ≠ rspIndex := fun heq => hops.gprs _ List.mem_cons_self (hgpr.trans (congrArg some heq))
  have hrsp := setGpr_rsp_of_ne ctx reg (s.ctx.gpr reg) hreg
  refine ⟨h.1.step hops ?_ ?_ fun reg' => ⟨rfl, ?_⟩, h.2.imp PushesFirst.tail hrsp.trans⟩
  · exact h.1.rsp.imp hrsp.trans fun hmem => (List.mem_cons.mp hmem).resolve_left hset.symm
  · exact fun reg' _ => ⟨rfl, restored_gpr hgpr s ctx reg'⟩
  · rw [hxmm, if_neg nofun]
    rfl

theorem Unwindable.saveXmm {reg : Fin 16} {address : Int} {s : PrologState} {ctx : Context64}
    (h : Unwindable frameReg (s.storeXmm address reg) (op :: ops) ctx) (hops : PrologOps frameReg (op :: ops))
    (hset : op ≠ .setFpreg) (hgpr : op.savedGpr = none) (hxmm : op.savedXmm = some reg) :
    Unwindable frameReg s ops (ctx.setXmm reg (s.ctx.xmm reg)) := by
  refine ⟨h.1.step hops ?_ ?_ fun reg' => ⟨rfl, ?_⟩, h.2.imp_left PushesFirst.tail⟩
  · exact h.1.rsp.imp_right fun hmem => (List.mem_cons.mp hmem).resolve_left hset.symm
  · intro reg' _
    refine ⟨rfl, ?_⟩
    rw [hgpr, if_neg nofun]
    rfl
  · rw [hxmm]
    by_cases heq : reg = reg'
    · subst heq
      exact (if_pos rfl).trans (if_pos rfl).symm
    · rw [if_neg fun h => heq (Option.some.inj h)]
      exact if_neg (Ne.symm heq)

/-- One code leads back over the instruction of its operation. -/
theorem applyCode_unwindable {info : UnwindInfo} {frame' : Int} {s : PrologState} {u : UnwindState}
    (offset : UInt8) (hops : PrologOps info.frameReg (op :: ops)) (hframe : op.IsSave → frame' = frame)
    (hstored : ∀ x ∈ (s.execute info.frameReg info.frameOffset frame op).stored,
      reader.read x.1 x.2.length = some x.2)
    (h : Unwindable info.frameReg (s.execute info.frameReg info.frameOffset frame op) (op :: ops) u.ctx) :
    ∃ ctx, ((applyCode info frame' (op.code offset) u).run reader.get).2 = .ok { u with ctx := ctx } ∧
      Unwindable info.frameReg s ops ctx := by
  cases op with
  | pushNonvol reg =>
    refine ⟨_, ?_, h.push hops⟩
    have hread : ((readU64 u.ctx.rsp.toNat).run reader.get).2 = .ok (s.ctx.gpr reg) := by
      rw [h.rsp_of_push]
      exact readU64_stored (hstored _ List.mem_cons_self)
    exact LoggedReads.bind_result_ok hread
  | allocLarge units => exact ⟨_, rfl, Unwindable.alloc h hops nofun rfl rfl⟩
  | allocHuge size => exact ⟨_, rfl, Unwindable.alloc h hops nofun rfl rfl⟩
  | allocSmall units => exact ⟨_, rfl, Unwindable.alloc h hops nofun rfl rfl⟩
  | setFpreg => exact ⟨_, rfl, h.setFpreg hops⟩
  | saveNonvol reg units =>
    obtain rfl := hframe trivial
    exact ⟨_, LoggedReads.bind_result_ok (readU64_stored (hstored _ List.mem_cons_self)),
      Unwindable.saveGpr h hops nofun rfl rfl⟩
  | saveNonvolFar reg offset =>
    obtain rfl := hframe trivial
    exact ⟨_, LoggedReads.bind_result_ok (readU64_stored (hstored _ List.mem_cons_self)),
      Unwindable.saveGpr h hops nofun rfl rfl⟩
  | saveXmm128 reg units =>
    obtain rfl := hframe trivial
    obtain ⟨bytes, hread, hlow, hhigh⟩ := readXmm_stored (hstored _ List.mem_cons_self)
    refine ⟨_, (LoggedReads.bind_result_ok hread).trans ?_, Unwindable.saveXmm h hops nofun rfl rfl⟩
    rw [hlow, hhigh]
    rfl
  | saveXmm128Far reg offset =>
    obtain rfl := hframe trivial
    obtain ⟨bytes, hread, hlow, hhigh⟩ := readXmm_stored (hstored _ List.mem_cons_self)
    have hscaled : ((readMem (frame' + offset.toNat * (1 : Nat)) 16).run reader.get).2 = .ok bytes := by
      rw [show frame' + offset.toNat * (1 : Nat) = frame' + offset.toNat by omega]
      exact hread
    refine ⟨_, (LoggedReads.bind_result_ok hscaled).trans ?_, Unwindable.saveXmm h hops nofun rfl rfl⟩
    rw [hlow, hhigh]
    rfl
  | pushMachframe errorCode => exact absurd List.mem_cons_self (hops.noMachframe errorCode)

end Steps

section Runs

variable {reader : GuestReader} {frame : Int} {caller : Context64}

theorem stored_behind_subset (frameReg : Fin 16) (frameOffset : Nat) (op : UnwindOp) (s : PrologState) :
    s.stored ⊆ (s.execute frameReg frameOffset frame op).stored := by
  cases op <;> first | exact List.Subset.refl _ | exact List.subset_cons_self _ _

theorem returnAddress_stored (frameReg : Fin 16) (frameOffset : Nat) (frame : Int) (caller : Context64)
    (ops : List UnwindOp) : (((caller.rsp - 8).toNat : Int), toBytes 8 caller.rip.toNat) ∈
      (PrologState.behind frameReg frameOffset frame caller ops).stored := by
  induction ops with
  | nil => exact List.mem_cons_self
  | cons op ops ih => exact stored_behind_subset _ _ _ _ ih

/-- The codes of the operations of a prolog lead back to its start. -/
theorem applyEach_unwindable (info : UnwindInfo) (frame' : Int) (xs : List (UInt8 × UnwindOp)) (u : UnwindState)
    (hops : PrologOps info.frameReg (xs.map Prod.snd))
    (hframe : ∀ op ∈ xs.map Prod.snd, op.IsSave → frame' = frame)
    (hstored : ∀ x ∈ (PrologState.behind info.frameReg info.frameOffset frame caller (xs.map Prod.snd)).stored,
      reader.read x.1 x.2.length = some x.2)
    (h : Unwindable info.frameReg
      (PrologState.behind info.frameReg info.frameOffset frame caller (xs.map Prod.snd)) (xs.map Prod.snd) u.ctx) :
    ∃ ctx, ((applyEach frame' (xs.map fun x => (info, x.2.code x.1)) u).run reader.get).2 =
        .ok { u with ctx := ctx } ∧ Unwindable info.frameReg (calledBy caller) [] ctx := by
  induction xs generalizing u with
  | nil => exact ⟨u.ctx, rfl, h⟩
  | cons x xs ih =>
    obtain ⟨offset, op⟩ := x
    obtain ⟨ctx, hrun, hback⟩ := applyCode_unwindable offset hops
      (hframe op List.mem_cons_self) hstored h
    obtain ⟨ctx', hrest, hend⟩ := @ih { u with ctx := ctx } hops.tail
      (fun op' hop' => hframe op' (List.mem_cons_of_mem _ hop'))
      (fun y hy => hstored y (stored_behind_subset _ _ _ _ hy)) hback
    exact ⟨ctx', (LoggedReads.bind_result_ok hrun).trans hrest, hend⟩

end Runs

section Frames

variable {frameReg : Fin 16} {frameOffset : Nat} {frame : Int} {caller : Context64} {ops : List UnwindOp}

theorem sub_ofNat_add (a : UInt64) (m n : Nat) :
    a - UInt64.ofNat m - UInt64.ofNat n = a - UInt64.ofNat (n + m) := by
  rw [UInt64.ofNat_add]
  grind

theorem execute_gpr {op : UnwindOp} {reg : Fin 16} (hset : op ≠ .setFpreg) (hreg : reg ≠ rspIndex)
    (s : PrologState) : (s.execute frameReg frameOffset frame op).ctx.gpr reg = s.ctx.gpr reg := by
  cases op with
  | setFpreg => exact absurd rfl hset
  | pushNonvol _ => exact setRsp_gpr_of_ne _ _ _ hreg
  | allocLarge _ => exact setRsp_gpr_of_ne _ _ _ hreg
  | allocHuge _ => exact setRsp_gpr_of_ne _ _ _ hreg
  | allocSmall _ => exact setRsp_gpr_of_ne _ _ _ hreg
  | saveNonvol _ _ => rfl
  | saveNonvolFar _ _ => rfl
  | saveXmm128 _ _ => rfl
  | saveXmm128Far _ _ => rfl
  | pushMachframe _ => rfl

theorem execute_rsp (hreg : frameReg ≠ rspIndex) (op : UnwindOp) (s : PrologState) :
    (s.execute frameReg frameOffset frame op).ctx.rsp = s.ctx.rsp - UInt64.ofNat op.stackSize := by
  have hzero : ∀ a : UInt64, a = a - UInt64.ofNat 0 := fun a => (UInt64.sub_zero a).symm
  cases op with
  | pushNonvol _ => exact setRsp_rsp _ _
  | allocLarge _ => exact setRsp_rsp _ _
  | allocHuge _ => exact setRsp_rsp _ _
  | allocSmall _ => exact setRsp_rsp _ _
  | setFpreg => exact (setGpr_rsp_of_ne _ _ _ hreg).trans (hzero _)
  | saveNonvol _ _ => exact hzero _
  | saveNonvolFar _ _ => exact hzero _
  | saveXmm128 _ _ => exact hzero _
  | saveXmm128Far _ _ => exact hzero _
  | pushMachframe _ => exact hzero _

theorem behind_rsp (hreg : frameReg ≠ rspIndex) (frameOffset : Nat) (frame : Int) (caller : Context64)
    (ops : List UnwindOp) : (PrologState.behind frameReg frameOffset frame caller ops).ctx.rsp =
      caller.rsp - 8 - UInt64.ofNat (stackDepth ops) := by
  induction ops with
  | nil => exact (setRsp_rsp _ _).trans (UInt64.sub_zero _).symm
  | cons op ops ih =>
    exact ((execute_rsp hreg op _).trans (congrArg (· - UInt64.ofNat op.stackSize) ih)).trans (sub_ofNat_add _ _ _)

/-- The frame register holds the frame from the instruction that sets it. -/
theorem behind_frame (hops : PrologOps frameReg ops) (hset : .setFpreg ∈ ops) :
    (PrologState.behind frameReg frameOffset frame caller ops).ctx.gpr frameReg =
      caller.rsp - 8 - UInt64.ofNat (frameDepth ops) + UInt64.ofNat (16 * frameOffset) := by
  induction ops with
  | nil => cases hset
  | cons op ops ih =>
    unfold frameDepth
    by_cases hmem : .setFpreg ∈ ops
    · have hne : op ≠ .setFpreg := by
        rintro rfl
        have honce := hops.setOnce
        have hpos := List.count_pos_iff.mpr hmem
        rw [List.count_cons_self] at honce
        omega
      rw [if_pos hmem, ← ih hops.tail hmem]
      exact execute_gpr hne hops.frameRegister _
    · obtain rfl := (List.mem_cons.mp hset).resolve_right hmem
      rw [if_neg hmem]
      refine (setGpr_gpr_self _ _ _).trans ?_
      rw [show UnwindOp.stackSize .setFpreg + stackDepth ops = stackDepth ops from Nat.zero_add _,
        ← behind_rsp hops.frameRegister frameOffset frame caller ops]
      rfl

theorem frameDepth_append {later earlier : List UnwindOp} (hset : .setFpreg ∈ earlier) :
    frameDepth (later ++ earlier) = frameDepth earlier := by
  induction later with
  | nil => rfl
  | cons op later ih =>
    rw [List.cons_append]
    unfold frameDepth
    rw [if_pos (List.mem_append_right _ hset), ih]
    cases earlier with
    | nil => cases hset
    | cons op earlier => rfl

end Frames

theorem opcode_setFpreg (op : UnwindOp) : op.opcode = uwopSetFpreg ↔ op = .setFpreg := by
  cases op <;> simp [UnwindOp.opcode, uwopSetFpreg]

namespace EncodedUnwind

variable (e : EncodedUnwind) (reader : GuestReader) (caller : Context64) (offset : Nat) (ctx : Context64)

/-- The operations of unwind data, with the last one first. -/
def prologOps : List UnwindOp := e.ops.map Prod.snd

/-- The operations that precede an offset. -/
def executed : List (UInt8 × UnwindOp) := e.ops.filter fun x => x.1.toNat ≤ offset

def executedOps : List UnwindOp := (e.executed offset).map Prod.snd

/-- Unwind data of a prolog, in the descending order of its offsets and without a chain. -/
structure IsProlog : Prop where
  ops : PrologOps e.frameReg e.prologOps
  descending : e.ops.Pairwise fun x y => y.1.toNat ≤ x.1.toNat
  inProlog : ∀ x ∈ e.ops, x.1.toNat ≤ e.prologSize.toNat
  noChain : e.flags.val &&& flagChainInfo = 0
  frameUsed : e.frameReg ≠ 0 ↔ .setFpreg ∈ e.prologOps

def frameAddress : UInt64 := caller.rsp - 8 - UInt64.ofNat (frameDepth e.prologOps)

/-- The state that the prolog reaches at an offset. -/
def behind : PrologState :=
  PrologState.behind e.frameReg e.frameOffset.val (e.frameAddress caller).toNat caller (e.executedOps offset)

/-- The function was called by `caller` and is at an offset of its prolog or past it, with the stores of the
prolog unmodified. -/
structure Reached : Prop where
  stored : ∀ x ∈ (e.behind caller offset).stored, reader.read x.1 x.2.length = some x.2
  registers : RegistersBehind e.frameReg (e.behind caller offset) (e.executedOps offset) ctx

/-- Behind a save, all pushes and allocations above the frame have been made; where `Rsp` is not that of the
prolog, no register has been pushed behind the set frame register, which does not wrap around. -/
structure FrameFixed : Prop where
  saves : ∀ op ∈ e.executedOps offset, op.IsSave →
    .setFpreg ∈ e.executedOps offset ∨ stackDepth (e.executedOps offset) = frameDepth e.prologOps
  fits : .setFpreg ∈ e.executedOps offset →
    (e.frameAddress caller).toNat + 16 * e.frameOffset.val < 2 ^ 64
  pushes : PushesFirst (e.executedOps offset) ∨ ctx.rsp = (e.behind caller offset).ctx.rsp

variable {e reader caller offset ctx}

theorem executed_of_past (h : e.IsProlog) (hpast : e.prologSize.toNat ≤ offset) : e.executed offset = e.ops :=
  List.filter_eq_self.mpr fun x hx => decide_eq_true ((h.inProlog x hx).trans hpast)

theorem executed_suffix (h : e.IsProlog) (offset : Nat) : ∃ later, e.prologOps = later ++ e.executedOps offset := by
  have hsuffix : ∀ xs : List (UInt8 × UnwindOp), xs.Pairwise (fun x y => y.1.toNat ≤ x.1.toNat) →
      ∃ later, xs = later ++ xs.filter fun x => x.1.toNat ≤ offset := by
    intro xs hxs
    induction xs with
    | nil => exact ⟨[], rfl⟩
    | cons x xs ih =>
      obtain ⟨hhead, htail⟩ := List.pairwise_cons.mp hxs
      by_cases hx : x.1.toNat ≤ offset
      · refine ⟨[], ((List.nil_append _).trans (List.filter_eq_self.mpr fun y hy => decide_eq_true ?_)).symm⟩
        rcases List.mem_cons.mp hy with rfl | hy
        · exact hx
        · exact (hhead y hy).trans hx
      · obtain ⟨later, hlater⟩ := ih htail
        refine ⟨x :: later, ?_⟩
        rw [List.filter_cons_of_neg (by simpa using hx), List.cons_append, ← hlater]
  obtain ⟨later, hlater⟩ := hsuffix e.ops h.descending
  exact ⟨later.map Prod.snd, (congrArg (List.map Prod.snd) hlater).trans List.map_append⟩

theorem executed_ops (h : e.IsProlog) (offset : Nat) : PrologOps e.frameReg (e.executedOps offset) := by
  obtain ⟨later, hlater⟩ := executed_suffix h offset
  have hmem : ∀ op ∈ e.executedOps offset, op ∈ e.prologOps := by
    intro op hop
    rw [hlater]
    exact List.mem_append_right _ hop
  refine ⟨fun op hop => h.ops.gprs op (hmem op hop), fun errorCode hop => h.ops.noMachframe errorCode (hmem _ hop),
    h.ops.frameRegister, ?_, ?_⟩
  · have honce := h.ops.setOnce
    rw [hlater, List.count_append] at honce
    omega
  · intro later' earlier heq
    refine h.ops.frameSaved (later ++ later') earlier ?_
    rw [hlater, heq, List.append_assoc]

theorem frameDepth_executed (h : e.IsProlog) (hset : .setFpreg ∈ e.executedOps offset) :
    frameDepth (e.executedOps offset) = frameDepth e.prologOps := by
  obtain ⟨later, hlater⟩ := executed_suffix h offset
  rw [hlater, frameDepth_append hset]

/-- The frame is set at an offset exactly when its instruction precedes the offset. -/
theorem frameSet_iff (h : e.IsProlog) (hreg : e.frameReg ≠ 0) (address : Int) :
    (offset ≥ (e.unwindInfo address).prologSize ∨ (e.unwindInfo address).flags &&& flagChainInfo ≠ 0 ∨
      (e.unwindInfo address).codes.any fun c => c.op = uwopSetFpreg ∧ c.prologOffset ≤ offset) ↔
      .setFpreg ∈ e.executedOps offset := by
  constructor
  · rintro (hpast | hchain | hany)
    · unfold executedOps
      rw [executed_of_past h hpast]
      exact h.frameUsed.mp hreg
    · exact absurd h.noChain hchain
    · obtain ⟨c, hc, hop⟩ := List.any_eq_true.mp hany
      obtain ⟨x, hx, rfl⟩ := List.mem_map.mp hc
      obtain ⟨hset, hle⟩ := of_decide_eq_true hop
      exact List.mem_map.mpr ⟨x, List.mem_filter.mpr ⟨hx, decide_eq_true hle⟩, (opcode_setFpreg x.2).mp hset⟩
  · intro hset
    obtain ⟨⟨off, op⟩, hx, heq⟩ := List.mem_map.mp hset
    obtain ⟨hmem, hle⟩ := List.mem_filter.mp hx
    obtain rfl : op = .setFpreg := heq
    exact Or.inr (Or.inr (List.any_eq_true.mpr ⟨_, List.mem_map.mpr ⟨_, hmem, rfl⟩,
      decide_eq_true ⟨rfl, of_decide_eq_true hle⟩⟩))

theorem establisherFrame_eq (h : e.IsProlog) (hreached : e.Reached reader caller offset ctx)
    (hfixed : e.FrameFixed caller offset ctx) {op : UnwindOp} (hop : op ∈ e.executedOps offset)
    (hsave : op.IsSave) (address : Int) :
    establisherFrame (e.unwindInfo address) offset ctx = (e.frameAddress caller).toNat := by
  unfold establisherFrame
  by_cases hset : .setFpreg ∈ e.executedOps offset
  · have hreg : e.frameReg ≠ 0 := by
      obtain ⟨later, hlater⟩ := executed_suffix h offset
      refine h.frameUsed.mpr ?_
      rw [hlater]
      exact List.mem_append_right _ hset
    have hvalue : ctx.gpr e.frameReg = e.frameAddress caller + UInt64.ofNat (16 * e.frameOffset.val) := by
      rw [hreached.registers.frame hset]
      refine (behind_frame (executed_ops h offset) hset).trans ?_
      rw [frameDepth_executed h hset]
      rfl
    have hfits := hfixed.fits hset
    rw [if_pos ⟨hreg, (frameSet_iff h hreg address).mpr hset⟩]
    show ((ctx.gpr e.frameReg).toNat : Int) - 16 * (e.frameOffset.val : Nat) = _
    rw [hvalue, UInt64.toNat_add, UInt64.toNat_ofNat']
    omega
  · have hframe : ¬(e.frameReg ≠ 0 ∧ (offset ≥ (e.unwindInfo address).prologSize ∨
        (e.unwindInfo address).flags &&& flagChainInfo ≠ 0 ∨
        (e.unwindInfo address).codes.any fun c => c.op = uwopSetFpreg ∧ c.prologOffset ≤ offset)) :=
      fun hand => hset ((frameSet_iff h hand.1 address).mp hand.2)
    refine (if_neg hframe).trans (congrArg (fun v : UInt64 => (v.toNat : Int)) ?_)
    rw [hreached.registers.rsp.resolve_right hset]
    refine (behind_rsp h.ops.frameRegister _ _ _ _).trans ?_
    rw [(hfixed.saves op hop hsave).resolve_left hset]
    rfl

end EncodedUnwind

/-- An unwind gives back what a function returns to: the caller's `Rip`, `Rsp` and nonvolatile registers. -/
def UnwindsTo (reader : GuestReader) (fn : RuntimeFunction) (pc : Int) (ctx : Context64) (handlerType : Nat)
    (caller : Context64) : Prop :=
  ∃ result frameInfo, ((virtualUnwind fn pc ctx handlerType).run reader.get).2 = .ok (result, frameInfo) ∧
    result.rip = caller.rip ∧ result.rsp = caller.rsp ∧
    (∀ reg ∈ nonvolatileGprs, result.gpr reg = caller.gpr reg) ∧
    ∀ reg ∈ nonvolatileXmms, result.xmm reg = caller.xmm reg

/-- The memory holds the unwind data of a function, with the handler of `handlerType` if it has one. -/
structure HoldsUnwind (reader : GuestReader) (fn : RuntimeFunction) (e : EncodedUnwind) (handlerType : Nat) :
    Prop where
  info : reader.Holds (fn.imageBase + fn.unwindInfo.toNat) e.encode
  handler : e.flags.val &&& handlerType ≠ 0 →
    (reader.read (e.unwindInfo (fn.imageBase + fn.unwindInfo.toNat)).trailer 4).isSome

theorem readHandler_ok {reader : GuestReader} {fn : RuntimeFunction} {e : EncodedUnwind} {handlerType : Nat}
    (h : HoldsUnwind reader fn e handlerType) (base pc : Int) :
    ∃ handler, ((readHandler base pc handlerType fn
      (e.unwindInfo (fn.imageBase + fn.unwindInfo.toNat))).run reader.get).2 = .ok handler := by
  unfold readHandler
  split
  next hflag =>
    obtain ⟨bytes, hbytes⟩ := Option.isSome_iff_exists.mp (h.handler hflag.1)
    have hread : ((readU32 (e.unwindInfo (fn.imageBase + fn.unwindInfo.toNat)).trailer).run reader.get).2 =
        .ok (UInt32.ofNat (fromBytes bytes)) :=
      LoggedReads.bind_result_ok (GuestReader.get_of_read hbytes)
    exact ⟨_, LoggedReads.bind_result_ok hread⟩
  next => exact ⟨_, rfl⟩

/-- An unwind undoes the call and the prolog of a function, from each offset of the prolog and past it. -/
theorem virtualUnwind_prolog {reader : GuestReader} {fn : RuntimeFunction} {pc : Int} {ctx caller : Context64}
    {handlerType : Nat} {e : EncodedUnwind} (h : e.IsProlog) (hinfo : HoldsUnwind reader fn e handlerType)
    (hreached : e.Reached reader caller (prologOffset fn pc) ctx)
    (hfixed : e.FrameFixed caller (prologOffset fn pc) ctx) :
    UnwindsTo reader fn pc ctx handlerType caller := by
  obtain ⟨address, haddress⟩ : ∃ address, address = fn.imageBase + fn.unwindInfo.toNat := ⟨_, rfl⟩
  obtain ⟨frame, hframe⟩ : ∃ frame, frame = establisherFrame (e.unwindInfo address) (prologOffset fn pc) ctx :=
    ⟨_, rfl⟩
  have hread : ((readUnwindInfo (fn.imageBase + fn.unwindInfo.toNat)).run reader.get).2 =
      .ok (e.unwindInfo address) := by
    rw [readUnwindInfo_encode e hinfo.info, haddress]
  have hcodes : codesBefore pc (fn, e.unwindInfo address) =
      (e.executed (prologOffset fn pc)).map fun x => (e.unwindInfo address, x.2.code x.1) := by
    show ((e.ops.map fun x => x.2.code x.1).filter _).map _ = _
    rw [List.filter_map, List.map_map]
    rfl
  obtain ⟨start, happly, hstart⟩ := applyEach_unwindable (e.unwindInfo address) frame
    (e.executed (prologOffset fn pc)) ⟨ctx, false⟩ (EncodedUnwind.executed_ops h _)
    (fun op hop hsave => hframe.trans (EncodedUnwind.establisherFrame_eq h hreached hfixed hop hsave address))
    hreached.stored ⟨hreached.registers, hfixed.pushes⟩
  have hrsp : start.rsp = caller.rsp - 8 :=
    (hstart.1.rsp.resolve_right List.not_mem_nil).trans (setRsp_rsp _ _)
  have hreturn : ((readU64 start.rsp.toNat).run reader.get).2 = .ok caller.rip := by
    rw [hrsp]
    exact readU64_stored (hreached.stored (_, _) (returnAddress_stored _ _ _ _ _))
  have hlength : [(fn, e.unwindInfo address)].length ≤ maxChain := Nat.succ_pos _
  have hchain : ((unwindChain fn.imageBase pc frame maxChain fn (e.unwindInfo address) ⟨ctx, false⟩).run
      reader.get).2 = .ok (fn, e.unwindInfo address, ⟨start, false⟩) := by
    rw [unwindChain_result (.primary hread h.noChain) hlength rfl _ hread, List.flatMap_singleton, hcodes,
      LoggedReads.bind_result_ok happly]
    rfl
  obtain ⟨handler, hhandler⟩ := readHandler_ok hinfo fn.imageBase pc
  rw [← haddress] at hhandler
  refine ⟨(start.setRip caller.rip).setRsp ((start.setRip caller.rip).rsp + 8), ⟨frame, handler.1, handler.2⟩,
    ?_, rfl, ?_, ?_, ?_⟩
  · unfold virtualUnwind
    rw [LoggedReads.bind_result_ok hread, ← hframe, LoggedReads.bind_result_ok hchain,
      LoggedReads.bind_result_ok hhandler]
    exact LoggedReads.bind_result_ok (LoggedReads.bind_result_ok hreturn)
  · rw [setRsp_rsp]
    show start.rsp + 8 = caller.rsp
    rw [hrsp]
    exact UInt64.sub_add_cancel _ _
  · intro reg hreg
    have hne := nonvolatileGprs_ne reg hreg
    have hstay := (hstart.1.gprs reg hreg).resolve_left List.not_mem_nil
    exact ((setRsp_gpr_of_ne _ _ _ hne).trans hstay).trans (setRsp_gpr_of_ne _ _ _ hne)
  · exact fun reg hreg => (hstart.1.xmms reg hreg).resolve_left List.not_mem_nil

theorem bytesReader_holds (bytes rest : List UInt8) : (bytesReader (bytes ++ rest)).Holds 0 bytes := by
  intro pos size hfits
  show (if _ then _ else _) = _
  have hpos : ((0 : Int) + pos).toNat = pos := by omega
  rw [hpos, if_pos ⟨by omega, by rw [List.length_append]; omega⟩, List.drop_append_of_le_length (by omega),
    List.take_append_of_le_length (by rw [List.length_drop]; omega)]

/-- A prolog that sets `Rbp` and pushes `Rbx` behind it. -/
def pushedUnwind : EncodedUnwind :=
  ⟨1, 0, 5, 5, 0, [(5, .pushNonvol 3), (4, .setFpreg), (1, .pushNonvol 5)], by decide⟩

/-- A prolog that saves `Rbx` and then pushes `Rsi`. -/
def savedUnwind : EncodedUnwind :=
  ⟨1, 0, 6, 0, 0, [(6, .pushNonvol 6), (5, .saveNonvol 3 1), (4, .allocSmall 1)], by decide⟩

/-- Memory with unwind data at 0, `Rbx` at 40 and the return address at 56. -/
def prologMemory (e : EncodedUnwind) : List UInt8 :=
  e.encode ++ (List.replicate 28 0 ++ toBytes 8 1 ++ toBytes 8 0 ++ toBytes 8 7)

def prologCaller : Context64 :=
  ⟨fun reg => if reg = rspIndex then 64 else if reg = 3 then 1 else 0, fun _ => (0, 0), 7⟩

def prologFunction : RuntimeFunction := ⟨0, 0, 0, 16, 0⟩

/-- Registers in a prolog, with their own `Rbx`. -/
def prologContext (rsp rbp : UInt64) : Context64 :=
  ⟨fun reg => if reg = rspIndex then rsp else if reg = 5 then rbp else if reg = 3 then 2 else 0,
    fun _ => (0, 0), 0⟩

theorem pushedUnwind_isProlog : pushedUnwind.IsProlog := by
  refine ⟨⟨by decide, by decide, by decide, by decide, ?_⟩, by decide, by decide, by decide, by decide⟩
  intro later earlier heq _
  rcases later with _ | ⟨op, _ | ⟨op', later⟩⟩
  · cases heq
  · cases heq
    decide
  · have htail := (List.cons.inj (List.cons.inj heq).2).2
    have hmem : UnwindOp.setFpreg ∈ later ++ .setFpreg :: earlier := List.mem_append_right _ List.mem_cons_self
    rw [show later ++ .setFpreg :: earlier = [.pushNonvol 5] from htail.symm] at hmem
    exact absurd hmem (by decide)

theorem savedUnwind_isProlog : savedUnwind.IsProlog := by
  refine ⟨⟨by decide, by decide, by decide, by decide, ?_⟩, by decide, by decide, by decide, by decide⟩
  intro later earlier heq _
  have hmem : UnwindOp.setFpreg ∈ savedUnwind.prologOps := heq ▸ List.mem_append_right _ List.mem_cons_self
  exact absurd hmem (by decide)

theorem prologMemory_holds (e : EncodedUnwind) (handlerType : Nat) (hflags : e.flags.val = 0) :
    HoldsUnwind (bytesReader (prologMemory e)) prologFunction e handlerType :=
  ⟨bytesReader_holds _ _, fun h => absurd (congrArg (· &&& handlerType) hflags) (by simpa using h)⟩

theorem not_unwindsTo {reader : GuestReader} {fn : RuntimeFunction} {pc : Int} {ctx caller : Context64}
    {handlerType : Nat}
    (hrun : ((virtualUnwind fn pc ctx handlerType).run reader.get).2.toOption.map (fun x => x.1.gpr 3) = some 0)
    (hne : 0 ≠ caller.gpr 3) : ¬UnwindsTo reader fn pc ctx handlerType caller := by
  rintro ⟨result, frameInfo, hresult, -, -, hgprs, -⟩
  rw [hresult] at hrun
  exact hne ((Option.some.inj hrun).symm.trans (hgprs 3 (by decide)))

theorem virtualUnwind_prolog_saved :
    UnwindsTo (bytesReader (prologMemory savedUnwind)) prologFunction 6 (prologContext 32 0) 0 prologCaller := by
  refine virtualUnwind_prolog savedUnwind_isProlog (prologMemory_holds savedUnwind 0 rfl) ?_ ?_
  · exact ⟨by decide, Or.inl (by decide), by decide, by decide, by decide⟩
  · exact ⟨fun _ _ _ => Or.inr (by decide), by decide, Or.inr (by decide)⟩

/-- Some addresses of a prolog do not lead back to the caller: between a save and a later push, and where `Rsp`
has moved below a push behind the set frame register. -/
theorem virtualUnwind_not_prolog :
    (savedUnwind.IsProlog ∧ HoldsUnwind (bytesReader (prologMemory savedUnwind)) prologFunction savedUnwind 0 ∧
      savedUnwind.Reached (bytesReader (prologMemory savedUnwind)) prologCaller 5 (prologContext 40 0) ∧
      ¬UnwindsTo (bytesReader (prologMemory savedUnwind)) prologFunction 5 (prologContext 40 0) 0 prologCaller) ∧
    pushedUnwind.IsProlog ∧ HoldsUnwind (bytesReader (prologMemory pushedUnwind)) prologFunction pushedUnwind 0 ∧
      pushedUnwind.Reached (bytesReader (prologMemory pushedUnwind)) prologCaller 5 (prologContext 32 48) ∧
      ¬UnwindsTo (bytesReader (prologMemory pushedUnwind)) prologFunction 5 (prologContext 32 48) 0 prologCaller := by
  refine ⟨⟨savedUnwind_isProlog, prologMemory_holds savedUnwind 0 rfl, ?_, ?_⟩,
    pushedUnwind_isProlog, prologMemory_holds pushedUnwind 0 rfl, ?_, ?_⟩
  · exact ⟨by decide, Or.inl (by decide), by decide, by decide, by decide⟩
  · exact not_unwindsTo (by decide) (by decide)
  · exact ⟨by decide, Or.inr (by decide), by decide, by decide, by decide⟩
  · exact not_unwindsTo (by decide) (by decide)

end Speakeasy
