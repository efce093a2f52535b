import MEmu.Invariant

/-!
# Privilege modes

What a completed step does to the privilege mode and to the machine-level state.
A step that ends in a higher mode than it ran in has trapped, once, to the vector
of that mode.  A step that runs in U- or S-mode and does not end in M-mode leaves
the machine-level registers as they were.  The reserved mode is not reached as
long as no instruction writes it to `mstatus`.
-/

namespace MEmu

/-! ## Fields of the core through a step -/

namespace RV64Core

/-- A write to a register changes nothing but the registers. -/
theorem setGPR_eq (rd : BitVec 5) (value : Word) (c : RV64Core) :
    c.setGPR rd value = { c with GPR := (c.setGPR rd value).GPR } := by
  unfold setGPR
  split <;> rfl

section SetGPR

variable (rd : BitVec 5) (value : Word) (c : RV64Core)

@[simp] theorem setGPR_needTrap : (c.setGPR rd value).needTrap = c.needTrap := by
  rw [setGPR_eq]

@[simp] theorem setGPR_trapLog : (c.setGPR rd value).trapLog = c.trapLog := by
  rw [setGPR_eq]

@[simp] theorem setGPR_minstret : (c.setGPR rd value).minstret = c.minstret := by
  rw [setGPR_eq]

@[simp] theorem setGPR_csrMCycleNum : (c.setGPR rd value).csrMCycleNum = c.csrMCycleNum := by
  rw [setGPR_eq]

end SetGPR

/-- `takeTrap` by its destination. -/
theorem trapped_cases (cause tval : Word) (c : RV64Core) :
    (c.trapToSMode cause = true ∧
      c.trapped cause tval = enterSMode cause tval
        { c with needTrap := true, trapLog := c.trapLog ++ [(cause, tval)] }) ∨
    (c.trapToSMode cause = false ∧
      c.trapped cause tval = enterMMode cause tval
        { c with needTrap := true, trapLog := c.trapLog ++ [(cause, tval)] }) := by
  cases h : c.trapToSMode cause
  · exact .inr ⟨rfl, if_neg (by simpa [trapToSMode] using h)⟩
  · exact .inl ⟨rfl, if_pos (by simpa [trapToSMode] using h)⟩

/-- A trap changes no register. -/
theorem trapped_GPR (cause tval : Word) (c : RV64Core) : (c.trapped cause tval).GPR = c.GPR := by
  rcases c.trapped_cases cause tval with ⟨-, h⟩ | ⟨-, h⟩ <;> rw [h] <;> rfl

/-- What a CSR write leaves alone. -/
structure CsrFrame (c c' : RV64Core) : Prop where
  GPR : c'.GPR = c.GPR
  minstret : c'.minstret = c.minstret
  currentPrivMode : c'.currentPrivMode = c.currentPrivMode
  nextPrivMode : c'.nextPrivMode = c.nextPrivMode
  trapLog : c'.trapLog = c.trapLog
  rvHartID : c'.rvHartID = c.rvHartID

/-- Every case of `csrWrite` has that frame. -/
theorem csrWriteCase_frame {v : Word} {c c' : RV64Core} {a : CSRAddr}
    (h : c.csrWriteCase v a = some c') : CsrFrame c c' := by
  cases a <;> simp only [csrWriteCase, reduceCtorEq, Option.some.injEq] at h
  case satp =>
    split at h <;> cases h
    exact ⟨rfl, rfl, rfl, rfl, rfl, rfl⟩
  all_goals
    subst h
    exact ⟨rfl, rfl, rfl, rfl, rfl, rfl⟩

end RV64Core

/-- The mode that a step from `m` runs in. -/
def Machine.mode {β : Type} (m : Machine β) : PrivMode := m.begun.currentPrivMode

/-! ## A rise of the mode is a trap -/

/-- A trap taken from `c` is entered in `c'`: in S- or M-mode, at the address that
the vector register of that mode gives, with the old PC in its `epc`. -/
def TrapEntered (c c' : RV64Core) (cause : Word) : Prop :=
  (c'.nextPrivMode = .sMode ∧
    c'.currentProgramCounter = RV64Core.vectorPC c.csrSTrapVecBaseAddr cause ∧
    c'.csrSExceptionPC = c.currentProgramCounter) ∨
  (c'.nextPrivMode = .mMode ∧
    c'.currentProgramCounter = RV64Core.vectorPC c.csrMTrapVecBaseAddr cause ∧
    c'.csrMExceptionPC = c.currentProgramCounter)

section Step

variable {β : Type} [MMIOBus β] {m m' : Machine β} {fb : FuncReturnFeedback}

omit [MMIOBus β] in
/-- A trap at the end of a step is entered once, from the PC of the step. -/
theorem trapped_trapEntered (m : Machine β) (cause tval : Word) (comp : Bool)
    (flags : ExecFlags) :
    TrapEntered m.core ((m.begun.trapped cause tval).retire comp flags) cause ∧
      ((m.begun.trapped cause tval).retire comp flags).trapLog = [(cause, tval)] := by
  rcases m.begun.trapped_cases cause tval with ⟨-, h⟩ | ⟨-, h⟩ <;> rw [h]
  · exact ⟨.inl ⟨rfl, rfl, rfl⟩, rfl⟩
  · exact ⟨.inr ⟨rfl, rfl, rfl⟩, rfl⟩

/-- An instruction that retires does not raise the mode. -/
theorem Retires.mode_le {inst : BitVec 32} {flags : ExecFlags} (h : Retires inst m flags m')
    (hm : m.core.nextPrivMode = m.core.currentPrivMode) :
    m'.core.nextPrivMode.val ≤ m.core.currentPrivMode.val := by
  cases h with
  | set rd value =>
      rw [RV64Core.setGPR_eq]
      exact PrivMode.val_le_of_eq hm
  | jump rd link npc =>
      rw [RV64Core.setGPR_eq]
      exact PrivMode.val_le_of_eq hm
  | mem op rd value s hr =>
      rw [RV64Core.setGPR_eq]
      exact PrivMode.val_le_of_eq hm
  | csr a rd value old c hperm hwrite hc =>
      rw [RV64Core.setGPR_eq]
      exact PrivMode.val_le_of_eq ((RV64Core.csrWriteCase_frame hc).nextPrivMode.trans hm)
  | mret hmode =>
      rw [hmode]
      exact BitVec.le_def.mpr (Nat.le_of_lt_succ (m.core.returnM.nextPrivMode.val.isLt))
  | sret hperm =>
      have hS : PrivMode.sMode.val ≤ m.core.currentPrivMode.val := by
        simp only [RV64Core.sretPermitted, Bool.and_eq_true, Bool.not_eq_true',
          decide_eq_false_iff_not] at hperm
        exact BitVec.not_lt.mp hperm.1
      refine BitVec.le_trans ?_ hS
      simp only [RV64Core.returnS, PrivMode.val_ofVal]
      generalize SStatus.spp _ = spp
      cases spp <;> decide
  | sfence vaddr asid hperm => exact PrivMode.val_le_of_eq hm

/-- A step that ends in a higher mode than it ran in has trapped, exactly once, to
the vector of the mode it ends in. -/
theorem mode_rise_traps (h : stepCoreAPI.run m = .ok fb m')
    (hrise : m.mode.val < m'.core.nextPrivMode.val) :
    ∃ cause tval, m'.core.trapLog = [(cause, tval)] ∧ TrapEntered m.core m'.core cause := by
  rcases (h ▸ stepCoreAPI_effect m : StepEffect m (.ok fb m')).cases_ok with
    ⟨cause, tval, comp, flags, s, s', -, -, rfl⟩ | ⟨inst, flags, s, m₁, -, -, hr, rfl⟩
  · obtain ⟨hentered, hlog⟩ := trapped_trapEntered m cause tval comp flags
    exact ⟨cause, tval, hlog, hentered⟩
  · exact absurd hrise (BitVec.not_lt.mpr (hr.mode_le rfl))

/-- U-mode with the machine timer pending and a vectored `mtvec`. -/
def timerPending : Machine (MEmuMMIOBus MMIOMem) :=
  .ofBytes
    { (default : RV64Core) with
      intStatus := { (default : IntStatus) with mtip := true }
      csrIntEnable := 0x80
      csrMTrapVecBaseAddr := 0x101 } []

/-- The timer interrupt of that machine. -/
theorem mode_rise_traps_timer :
    ∃ m', stepCoreAPI.run timerPending = .ok .ok m' ∧
      ∃ cause tval, m'.core.trapLog = [(cause, tval)] ∧ TrapEntered timerPending.core m'.core cause :=
  have h : stepCoreAPI.run timerPending = .ok .ok (Run.final (stepCoreAPI.run timerPending)) := by
    rfl
  ⟨_, h, mode_rise_traps h (by decide)⟩

end Step

/-! ## Machine-level state out of reach of U- and S-mode -/

/-- The machine-level state is the same in `c'` as in `c`, but for `MPRV`, which
may have been cleared. -/
structure MachineFrame (c c' : RV64Core) : Prop where
  medeleg : c'.csrMExceptionDelegation = c.csrMExceptionDelegation
  mideleg : c'.csrMIntDelegation = c.csrMIntDelegation
  mtvec : c'.csrMTrapVecBaseAddr = c.csrMTrapVecBaseAddr
  mepc : c'.csrMExceptionPC = c.csrMExceptionPC
  mcause : c'.csrMachineCause = c.csrMachineCause
  mtval : c'.csrMachineTrapVal = c.csrMachineTrapVal
  mscratch : c'.csrMscratch = c.csrMscratch
  mcounteren : c'.csrMCounterEN = c.csrMCounterEN
  mie : MStatus.mie c'.status = MStatus.mie c.status
  mpie : MStatus.mpie c'.status = MStatus.mpie c.status
  mpp : MStatus.mpp c'.status = MStatus.mpp c.status
  tvm : MStatus.tvm c'.status = MStatus.tvm c.status
  tw : MStatus.tw c'.status = MStatus.tw c.status
  tsr : MStatus.tsr c'.status = MStatus.tsr c.status
  intEnable : ∀ i ∈ [IntType.mSw, .mTimer, .mExt],
    c'.csrIntEnable.getLsbD i.val = c.csrIntEnable.getLsbD i.val
  mprv : MStatus.mprv c'.status = true → MStatus.mprv c.status = true

/-- The bits of the status word that only M-mode may change. -/
def machineStatusBits : List Nat := [3, 7, 11, 12, 20, 21, 22]

/-- The part of `MachineFrame` that is about the status word. -/
structure StatusFrame (s s' : Word) : Prop where
  bits : ∀ i ∈ machineStatusBits, s'.getLsbD i = s.getLsbD i
  mprv : MStatus.mprv s' = true → MStatus.mprv s = true

namespace StatusFrame

/-- The frame of what leaves the status as it is. -/
theorem refl (s : Word) : StatusFrame s s := ⟨fun _ _ => rfl, id⟩

/-- Frames compose. -/
theorem trans {s s' s'' : Word} (h : StatusFrame s s') (h' : StatusFrame s' s'') :
    StatusFrame s s'' :=
  ⟨fun i hi => (h'.bits i hi).trans (h.bits i hi), fun hm => h.mprv (h'.mprv hm)⟩

/-- A bit that is none of the machine-level bits nor `MPRV` may change. -/
theorem setBit {i : Nat} (hi : i ∉ machineStatusBits) (hmprv : i ≠ 17) (b : Bool) (s : Word) :
    StatusFrame s (BitField.setBit i b s) := by
  refine ⟨fun j hj => ?_, fun h => ?_⟩
  · have hne : j ≠ i := fun he => hi (he ▸ hj)
    rw [BitField.getLsbD_setBit, if_neg hne]
  · rwa [MStatus.mprv, BitField.getLsbD_setBit, if_neg hmprv.symm] at h

/-- `MPRV` may be cleared. -/
theorem clearMprv (s : Word) : StatusFrame s (MStatus.setMprv false s) := by
  refine ⟨fun j hj => ?_, fun h => ?_⟩
  · have hne : j ≠ 17 := fun he => by
      subst he
      revert hj
      decide
    rw [MStatus.setMprv, BitField.getLsbD_setBit, if_neg hne]
  · rw [MStatus.mprv, MStatus.setMprv, BitField.getLsbD_setBit] at h
    simp at h

/-- `MPP` is in the frame. -/
theorem mpp {s s' : Word} (h : StatusFrame s s') : MStatus.mpp s' = MStatus.mpp s := by
  apply BitVec.eq_of_getLsbD_eq
  intro i hi
  rw [MStatus.mpp, MStatus.mpp, BitField.getLsbD_get, BitField.getLsbD_get]
  have hmem : 11 + i ∈ machineStatusBits := by
    have : i = 0 ∨ i = 1 := by omega
    rcases this with rfl | rfl <;> decide
  rw [h.bits _ hmem]

end StatusFrame

namespace RV64Core

/-- A trap to S-mode keeps the machine-level bits. -/
theorem enterSMode_statusFrame (cause tval : Word) (c : RV64Core) :
    StatusFrame c.status (enterSMode cause tval c).status :=
  (StatusFrame.setBit (i := 5) (by decide) (by decide) _ _).trans <|
    (StatusFrame.setBit (i := 1) (by decide) (by decide) _ _).trans <|
    StatusFrame.setBit (i := 8) (by decide) (by decide) _ _

/-- So does a write to `sstatus`, -/
theorem writeSStatus_statusFrame (v status : Word) :
    StatusFrame status (writeSStatus v status) :=
  (StatusFrame.setBit (i := 1) (by decide) (by decide) _ _).trans <|
    (StatusFrame.setBit (i := 5) (by decide) (by decide) _ _).trans <|
    (StatusFrame.setBit (i := 8) (by decide) (by decide) _ _).trans <|
    (StatusFrame.setBit (i := 18) (by decide) (by decide) _ _).trans <|
    StatusFrame.setBit (i := 19) (by decide) (by decide) _ _

/-- and `sret`. -/
theorem returnS_statusFrame (c : RV64Core) : StatusFrame c.status c.returnS.status := by
  have hmprv : ∀ (b : Prop) [Decidable b] (s : Word),
      StatusFrame s (if b then MStatus.setMprv false s else s) := by
    intro b _ s
    split
    · exact .clearMprv s
    · exact .refl s
  exact (StatusFrame.setBit (i := 1) (by decide) (by decide) _ _).trans <|
    (StatusFrame.setBit (i := 5) (by decide) (by decide) _ _).trans <|
    (hmprv _ _).trans <| StatusFrame.setBit (i := 8) (by decide) (by decide) _ _

/-- The machine-level registers, but for the status word and `mie`. -/
def machineRegs (c : RV64Core) : List Word :=
  [c.csrMExceptionDelegation, c.csrMIntDelegation, c.csrMTrapVecBaseAddr, c.csrMExceptionPC,
    c.csrMachineCause, c.csrMachineTrapVal, c.csrMscratch, c.csrMCounterEN]

end RV64Core

/-- The frame, from the registers, the status and the interrupt enables. -/
theorem MachineFrame.intro {c c' : RV64Core} (hregs : c'.machineRegs = c.machineRegs)
    (hs : StatusFrame c.status c'.status)
    (hint : ∀ i ∈ [IntType.mSw, .mTimer, .mExt],
      c'.csrIntEnable.getLsbD i.val = c.csrIntEnable.getLsbD i.val) : MachineFrame c c' := by
  simp only [RV64Core.machineRegs, List.cons.injEq, and_true] at hregs
  obtain ⟨h₁, h₂, h₃, h₄, h₅, h₆, h₇, h₈⟩ := hregs
  exact ⟨h₁, h₂, h₃, h₄, h₅, h₆, h₇, h₈, hs.bits 3 (by decide), hs.bits 7 (by decide), hs.mpp,
    hs.bits 20 (by decide), hs.bits 21 (by decide), hs.bits 22 (by decide), hint, hs.mprv⟩

/-- A write to the supervisor view of `mie` keeps the machine bits. -/
theorem sieWrite_machineBits (v ie : Word) :
    ∀ i ∈ [IntType.mSw, .mTimer, .mExt],
      ((ie &&& ~~~RV64Core.S_MODE_INT_MASK) ||| (v &&& RV64Core.S_MODE_INT_MASK)).getLsbD i.val
        = ie.getLsbD i.val := by
  intro i hi
  have hmask : RV64Core.S_MODE_INT_MASK.getLsbD i.val = false ∧ i.val < 64 := by
    revert hi i
    decide
  rw [BitVec.getLsbD_or, BitVec.getLsbD_and, BitVec.getLsbD_not, BitVec.getLsbD_and, hmask.1]
  simp [hmask.2]

/-- A CSR that U- or S-mode may write keeps the machine-level state. -/
theorem csrWriteCase_machineFrame {v : Word} {c c' : RV64Core} {a : CSRAddr}
    (hmode : c.currentPrivMode.val ≤ PrivMode.sMode.val)
    (hperm : c.csrOpPermissionCheck a.val true = true) (h : c.csrWriteCase v a = some c') :
    MachineFrame c c' := by
  have hlow : BitField.get 8 2 a.val ≤ PrivMode.sMode.val := by
    unfold RV64Core.csrOpPermissionCheck at hperm
    split at hperm
    · cases hperm
    · exact BitVec.le_trans (BitVec.not_lt.mp ‹_›) hmode
  cases a <;> simp only [RV64Core.csrWriteCase, reduceCtorEq, Option.some.injEq] at h
  case sstatus =>
    subst h
    exact .intro rfl (RV64Core.writeSStatus_statusFrame v c.status) fun _ _ => rfl
  case sie =>
    subst h
    exact .intro rfl (.refl _) (sieWrite_machineBits v c.csrIntEnable)
  case satp =>
    split at h <;> cases h
    exact .intro rfl (.refl _) fun _ _ => rfl
  case stvec | scounteren | sscratch | sepc | scause | stval | sip =>
    subst h
    exact .intro rfl (.refl _) fun _ _ => rfl
  all_goals exact absurd hlow (by decide)

section Step

variable {β : Type} [MMIOBus β] {m m' : Machine β} {fb : FuncReturnFeedback}

/-- An instruction that retires in U- or S-mode keeps the machine-level state. -/
theorem Retires.machineFrame {inst : BitVec 32} {flags : ExecFlags} (h : Retires inst m flags m')
    (hmode : m.core.currentPrivMode.val ≤ PrivMode.sMode.val) :
    MachineFrame m.core m'.core := by
  cases h with
  | set rd value =>
      rw [RV64Core.setGPR_eq]
      exact .intro rfl (.refl _) fun _ _ => rfl
  | jump rd link npc =>
      rw [RV64Core.setGPR_eq]
      exact .intro rfl (.refl _) fun _ _ => rfl
  | mem op rd value s hr =>
      rw [RV64Core.setGPR_eq]
      exact .intro rfl (.refl _) fun _ _ => rfl
  | csr a rd value old c hperm hwrite hc =>
      rw [RV64Core.setGPR_eq]
      exact { csrWriteCase_machineFrame hmode hperm hc with }
  | mret h =>
      rw [h] at hmode
      exact absurd hmode (by decide)
  | sret hperm => exact .intro rfl (RV64Core.returnS_statusFrame m.core) fun _ _ => rfl
  | sfence vaddr asid hperm => exact .intro rfl (.refl _) fun _ _ => rfl

/-- A step that runs in U- or S-mode and does not end in M-mode keeps the
machine-level state. -/
theorem machine_frame (h : stepCoreAPI.run m = .ok fb m')
    (hmode : m.mode = .uMode ∨ m.mode = .sMode) (hend : m'.core.nextPrivMode ≠ .mMode) :
    MachineFrame m.core m'.core := by
  rcases (h ▸ stepCoreAPI_effect m : StepEffect m (.ok fb m')).cases_ok with
    ⟨cause, tval, comp, flags, s, s', -, -, rfl⟩ | ⟨inst, flags, s, m₁, -, -, hr, rfl⟩
  · rcases m.begun.trapped_cases cause tval with ⟨-, ht⟩ | ⟨-, ht⟩
    · dsimp only
      rw [ht]
      exact .intro rfl (RV64Core.enterSMode_statusFrame cause tval m.begun) fun _ _ => rfl
    · rw [ht] at hend
      exact absurd rfl hend
  · have hle : m.begun.currentPrivMode.val ≤ PrivMode.sMode.val := by
      rcases hmode with hm | hm <;> rw [Machine.mode] at hm <;> rw [hm] <;> decide
    exact { hr.machineFrame hle with }

/-- U-mode at an `ecall` that is delegated to S-mode. -/
def userEcall : Machine (MEmuMMIOBus MMIOMem) :=
  .ofBytes { (default : RV64Core) with csrMExceptionDelegation := 0x100 } [0x73, 0x00, 0x00, 0x00]

/-- That step, which ends in S-mode. -/
theorem machine_frame_ecall :
    ∃ m', stepCoreAPI.run userEcall = .ok .ok m' ∧ m'.core.nextPrivMode = .sMode ∧
      m'.core.csrSupervisorCause = 8 ∧ MachineFrame userEcall.core m'.core :=
  have h : stepCoreAPI.run userEcall = .ok .ok (Run.final (stepCoreAPI.run userEcall)) := by rfl
  ⟨_, h, by decide, by decide, machine_frame h (.inl rfl) (by decide)⟩

end Step

/-! ## The reserved mode -/

/-- None of the three fields that hold a mode holds the reserved one. -/
structure ModesValid (c : RV64Core) : Prop where
  current : c.currentPrivMode ≠ .hMode
  next : c.nextPrivMode ≠ .hMode
  mpp : MStatus.mpp c.status ≠ PrivMode.hMode.val

/-- The modes have different numbers. -/
theorem PrivMode.val_ne_hMode {p : PrivMode} (h : p ≠ .hMode) : p.val ≠ PrivMode.hMode.val :=
  fun he => h (PrivMode.val_injective he)

/-- Only the number of the reserved mode stands for it. -/
theorem PrivMode.ofVal_ne_hMode {v : BitVec 2} (h : v ≠ PrivMode.hMode.val) :
    PrivMode.ofVal v ≠ .hMode := by
  intro he
  exact h (by rw [← PrivMode.val_ofVal v, he])

/-- `MPP` holds what was written to it. -/
theorem mpp_setMpp (v : BitVec 2) (s : Word) : MStatus.mpp (MStatus.setMpp v s) = v :=
  BitField.get_set_same v s (by decide)

/-- A bit outside of `MPP` does not change it. -/
theorem mpp_setBit {i : Nat} (h : i < 11 ∨ 13 ≤ i) (b : Bool) (s : Word) :
    MStatus.mpp (BitField.setBit i b s) = MStatus.mpp s :=
  BitField.get_setBit_of_disjoint 11 2 b s (by omega)

/-- A write to `mstatus` takes `MPP` from the value. -/
theorem mpp_writeMStatus (v s : Word) :
    MStatus.mpp (RV64Core.writeMStatus v s) = MStatus.mpp v := by
  simp only [RV64Core.writeMStatus, MStatus.setTsr, MStatus.setTw, MStatus.setTvm, MStatus.setMxr,
    MStatus.setSum, MStatus.setMprv]
  rw [mpp_setBit (by decide), mpp_setBit (by decide), mpp_setBit (by decide),
    mpp_setBit (by decide), mpp_setBit (by decide), mpp_setBit (by decide), mpp_setMpp]

namespace ModesValid

/-- A reset core is in M-mode, with U-mode in `MPP`. -/
theorem reset (c : RV64Core) : ModesValid c.reset :=
  have hmode : PrivMode.mMode ≠ .hMode := by decide
  have hmpp : MStatus.mpp (MStatus.setUxl 2 (MStatus.setSxl 2 0)) ≠ PrivMode.hMode.val := by decide
  ⟨hmode, hmode, hmpp⟩

/-- The three fields decide. -/
theorem congr {c c' : RV64Core} (h : ModesValid c) (hcur : c'.currentPrivMode = c.currentPrivMode)
    (hnext : c'.nextPrivMode = c.nextPrivMode) (hmpp : MStatus.mpp c'.status = MStatus.mpp c.status) :
    ModesValid c' :=
  ⟨hcur ▸ h.current, hnext ▸ h.next, hmpp ▸ h.mpp⟩

theorem setGPR {c : RV64Core} (h : ModesValid c) (rd : BitVec 5) (value : Word) :
    ModesValid (c.setGPR rd value) := by
  rw [RV64Core.setGPR_eq]
  exact ⟨h.current, h.next, h.mpp⟩

/-- A trap puts the mode of the step into `MPP`, and goes to M- or S-mode. -/
theorem trapped {c : RV64Core} (h : ModesValid c) (cause tval : Word) :
    ModesValid (c.trapped cause tval) := by
  rcases c.trapped_cases cause tval with ⟨-, ht⟩ | ⟨-, ht⟩ <;> rw [ht]
  · have hmpp := (RV64Core.enterSMode_statusFrame cause tval c).mpp
    exact ⟨h.current, PrivMode.noConfusion, fun he => h.mpp (hmpp ▸ he)⟩
  · refine ⟨h.current, PrivMode.noConfusion, ?_⟩
    simp only [RV64Core.enterMMode, mpp_setMpp]
    exact PrivMode.val_ne_hMode h.current

/-- `mret` goes to the mode of `MPP`, and puts U-mode there. -/
theorem returnM {c : RV64Core} (h : ModesValid c) : ModesValid c.returnM := by
  refine ⟨h.current, PrivMode.ofVal_ne_hMode ?_, ?_⟩
  · rw [MStatus.setMie, mpp_setBit (by decide)]
    exact h.mpp
  · simp only [RV64Core.returnM, mpp_setMpp]
    decide

/-- `sret` goes to U- or S-mode. -/
theorem returnS {c : RV64Core} (h : ModesValid c) : ModesValid c.returnS := by
  refine ⟨h.current, PrivMode.ofVal_ne_hMode ?_, ?_⟩
  · generalize SStatus.spp _ = spp
    cases spp <;> decide
  · rw [c.returnS_statusFrame.mpp]
    exact h.mpp

/-- Only a write to `mstatus` writes `MPP`. -/
theorem csrWriteCase {v : Word} {c c' : RV64Core} {a : CSRAddr} (h : ModesValid c)
    (hv : a = .mstatus → MStatus.mpp v ≠ PrivMode.hMode.val) (hw : c.csrWriteCase v a = some c') :
    ModesValid c' := by
  have hframe := RV64Core.csrWriteCase_frame hw
  have hmpp : MStatus.mpp c'.status ≠ PrivMode.hMode.val := by
    cases a <;> simp only [RV64Core.csrWriteCase, reduceCtorEq, Option.some.injEq] at hw
    case mstatus =>
      subst hw
      rw [mpp_writeMStatus]
      exact hv rfl
    case sstatus =>
      subst hw
      rw [(RV64Core.writeSStatus_statusFrame v c.status).mpp]
      exact h.mpp
    case satp =>
      split at hw <;> cases hw
      exact h.mpp
    all_goals
      subst hw
      exact h.mpp
  exact ⟨hframe.currentPrivMode ▸ h.current, hframe.nextPrivMode ▸ h.next, hmpp⟩

/-- Every function of the step keeps the modes valid, but for a write of the reserved one. -/
theorem invariant :
    CoreInvariant (fun a v => a = .mstatus → MStatus.mpp v ≠ PrivMode.hMode.val) ModesValid where
  beginStep h := ⟨h.next, h.next, h.mpp⟩
  trapped h cause tval := h.trapped cause tval
  retire h _ _ := h.congr rfl rfl rfl
  setGPR h rd value := h.setGPR rd value
  setPC h _ := h.congr rfl rfl rfl
  csrWrite h hW _ hw := h.csrWriteCase hW hw
  returnM h := h.returnM
  returnS h := h.returnS

end ModesValid

section Run

variable {β : Type} [MMIOBus β]

/-- The step from `m` executes an instruction that writes the reserved mode to the
field `MPP` of `mstatus`. -/
def WritesHMode (m : Machine β) : Prop :=
  ∃ inst m₁ v, fetchInst.run m = .ok (some inst) m₁ ∧
    csrWriteOf inst m₁.core = some (CSRAddr.mstatus.val, v) ∧
    MStatus.mpp v = PrivMode.hMode.val

/-- The instruction that the step from `m` fetches, and the machine then. -/
def Machine.fetched (m : Machine β) : Option (BitVec 32 × Machine β) :=
  match fetchInst.run m with
  | .ok (some inst) m₁ => some (inst, m₁)
  | _ => none

/-- It is that of `fetchInst`. -/
theorem Machine.fetched_eq_some {m m₁ : Machine β} {inst : BitVec 32} :
    m.fetched = some (inst, m₁) ↔ fetchInst.run m = .ok (some inst) m₁ := by
  unfold fetched
  split
  · simp_all
  · rename_i hno
    exact iff_of_false (by simp) (hno inst m₁)

instance (m : Machine β) : Decidable (WritesHMode m) :=
  decidable_of_iff (∃ f ∈ m.fetched, ∃ w ∈ csrWriteOf f.1 f.2.core,
      w.1 = CSRAddr.mstatus.val ∧ MStatus.mpp w.2 = PrivMode.hMode.val) <| by
    constructor
    · rintro ⟨⟨inst, m₁⟩, hf, ⟨a, v⟩, hw, rfl, hv⟩
      exact ⟨inst, m₁, v, Machine.fetched_eq_some.mp hf, hw, hv⟩
    · rintro ⟨inst, m₁, v, hf, hw, hv⟩
      exact ⟨(inst, m₁), Machine.fetched_eq_some.mpr hf, _, hw, rfl, hv⟩

/-- The states of a core reached from reset by steps that start where `P` holds.
Between two steps the interrupt lines and everything outside the core change at
will. -/
inductive CoreReach (P : Machine β → Prop) : RV64Core → Prop where
  | reset (c : RV64Core) : CoreReach P c.reset
  | step {c : RV64Core} (hc : CoreReach P c) (lines : IntStatus) (s : MMUSys β)
      {fb : FuncReturnFeedback} {m' : Machine β}
      (hP : P { core := { c with intStatus := lines }, mem := s })
      (h : stepCoreAPI.run { core := { c with intStatus := lines }, mem := s } = .ok fb m') :
      CoreReach P m'.core

/-- What holds at reset and of whatever the interrupt lines are is kept by a run, if its steps
make only CSR writes in `W`. -/
theorem CoreInvariant.reach {W : CSRAddr → Word → Prop} {I : RV64Core → Prop}
    (hI : CoreInvariant W I) {P : Machine β → Prop} (hreset : ∀ c : RV64Core, I c.reset)
    (hlines : ∀ (c : RV64Core) (lines : IntStatus), I c → I { c with intStatus := lines })
    (hW : ∀ m inst s a v, P m → fetchInst.run m = .ok (some inst) { core := m.begun, mem := s } →
      csrWriteOf inst m.begun = some (a.val, v) → W a v)
    {c : RV64Core} (h : CoreReach P c) : I c := by
  induction h with
  | reset c => exact hreset c
  | @step c hc lines s fb m' hP h ih =>
      exact hI.step h (hlines c lines ih) fun inst s' a v => hW _ inst s' a v hP

/-- In a run whose steps do not write the reserved mode to `mstatus`, no field ever
holds it. -/
theorem modes_valid {c : RV64Core} (h : CoreReach (fun m : Machine β => ¬WritesHMode m) c) :
    ModesValid c := by
  refine ModesValid.invariant.reach .reset (fun c lines h => h.congr rfl rfl rfl) ?_ h
  rintro m inst s a v hm hfetch hwrite rfl hmpp
  exact hm ⟨inst, _, v, hfetch, hwrite, hmpp⟩

end Run

/-- A run of a program in RAM at address 0, from reset, without interrupts. -/
def runFrom (bytes : List Byte) : Nat → Machine (MEmuMMIOBus MMIOMem)
  | 0 => .ofBytes (default : RV64Core).reset bytes
  | n + 1 =>
      .ofBytes { (Run.final (stepCoreAPI.run (runFrom bytes n))).core with intStatus := default } bytes

/-- The next machine of the program. -/
theorem runFrom_succ (bytes : List Byte) (n : Nat) :
    runFrom bytes (n + 1) = ⟨{ (Run.final (stepCoreAPI.run (runFrom bytes n))).core with
      intStatus := default }, (runFrom bytes (n + 1)).mem⟩ := rfl

/-- The program returns for its first `n` steps. -/
def ReturnsFor (bytes : List Byte) (n : Nat) : Prop :=
  ∀ i < n, (Run.result (stepCoreAPI.run (runFrom bytes i))).toOption.isSome = true

instance (bytes : List Byte) (n : Nat) : Decidable (ReturnsFor bytes n) :=
  inferInstanceAs (Decidable (∀ i < n, _))

/-- Each of those steps ends in the machine that `runFrom` goes on from. -/
theorem ReturnsFor.run {bytes : List Byte} {n : Nat} (h : ReturnsFor bytes n) {i : Nat}
    (hi : i < n) : ∃ fb, stepCoreAPI.run (runFrom bytes i)
      = .ok fb (Run.final (stepCoreAPI.run (runFrom bytes i))) := by
  have hok := h i hi
  cases hr : stepCoreAPI.run (runFrom bytes i) with
  | ok fb m' => exact ⟨fb, rfl⟩
  | error e m' =>
      rw [hr] at hok
      cases hok

/-- A program that returns runs the core from reset. -/
theorem ReturnsFor.reach {P : Machine (MEmuMMIOBus MMIOMem) → Prop} {bytes : List Byte}
    {n : Nat} (h : ReturnsFor bytes (n + 1)) (hP : ∀ i < n + 1, P (runFrom bytes i)) :
    CoreReach P (Run.final (stepCoreAPI.run (runFrom bytes n))).core := by
  induction n with
  | zero =>
      obtain ⟨fb, hr⟩ := h.run (Nat.lt_succ_self 0)
      exact .step (.reset default) default (runFrom bytes 0).mem (hP 0 (Nat.lt_succ_self 0)) hr
  | succ n ih =>
      obtain ⟨fb, hr⟩ := h.run (Nat.lt_succ_self (n + 1))
      have hbefore := ih (fun i hi => h i (Nat.lt_succ_of_lt hi))
        fun i hi => hP i (Nat.lt_succ_of_lt hi)
      exact hbefore.step default (runFrom bytes (n + 1)).mem (hP _ (Nat.lt_succ_self (n + 1))) hr

/-- `addi x1, x0, -1; csrrw x0, mideleg, x1; csrrw x0, sie, x1; csrrsi x0, mstatus, 8;
csrrwi x0, mepc, 24; mret; ecall`. -/
def visitUser : List Byte :=
  [0x93, 0x00, 0xf0, 0xff, 0x73, 0x90, 0x30, 0x30, 0x73, 0x90, 0x40, 0x10, 0x73, 0x60, 0x04, 0x30,
    0x73, 0x50, 0x1c, 0x34, 0x73, 0x00, 0x20, 0x30, 0x73, 0x00, 0x00, 0x00]

/-- It runs to the trap that its `ecall` takes. -/
theorem visitUser_returns : ReturnsFor visitUser 7 := by decide +kernel

/-- The core after the `ecall`. -/
def visitedUser : RV64Core := (Run.final (stepCoreAPI.run (runFrom visitUser 6))).core

/-- The core is back in M-mode, and no field holds the reserved mode. -/
theorem modes_valid_visitUser :
    CoreReach (fun m : Machine (MEmuMMIOBus MMIOMem) => ¬WritesHMode m) visitedUser ∧
      visitedUser.currentPrivMode = .uMode ∧ visitedUser.nextPrivMode = .mMode ∧
      visitedUser.csrMachineCause = 8 ∧ ModesValid visitedUser := by
  have hw : ∀ i < 7, ¬WritesHMode (runFrom visitUser i) := by decide +kernel
  have hr : CoreReach (fun m : Machine (MEmuMMIOBus MMIOMem) => ¬WritesHMode m) visitedUser :=
    visitUser_returns.reach hw
  exact ⟨hr, by decide +kernel, by decide +kernel, by decide +kernel, modes_valid hr⟩

/-- `lui x1, 1; csrrw x0, mstatus, x1; mret`. -/
def enterHMode : List Byte :=
  [0xb7, 0x10, 0x00, 0x00, 0x73, 0x90, 0x00, 0x30, 0x73, 0x00, 0x20, 0x30]

/-- The reserved mode is in `MPP` after two steps of that program, and the mode in
force after three. -/
theorem hMode_reachable :
    ∃ c c', CoreReach (fun _ : Machine (MEmuMMIOBus MMIOMem) => True) c ∧
      CoreReach (fun _ : Machine (MEmuMMIOBus MMIOMem) => True) c' ∧
      MStatus.mpp c.status = PrivMode.hMode.val ∧ c'.nextPrivMode = .hMode := by
  have h₀ : stepCoreAPI.run (runFrom enterHMode 0)
      = .ok .ok (Run.final (stepCoreAPI.run (runFrom enterHMode 0))) := by rfl
  have h₁ : stepCoreAPI.run (runFrom enterHMode 1)
      = .ok .ok (Run.final (stepCoreAPI.run (runFrom enterHMode 1))) := by rfl
  have h₂ : stepCoreAPI.run (runFrom enterHMode 2)
      = .ok .ok (Run.final (stepCoreAPI.run (runFrom enterHMode 2))) := by rfl
  have hr₁ : CoreReach (fun _ : Machine (MEmuMMIOBus MMIOMem) => True) _ :=
    .step (.reset default) default _ trivial h₀
  have hr₂ := hr₁.step default _ trivial h₁
  have hr₃ := hr₂.step default _ trivial h₂
  exact ⟨_, _, hr₂, hr₃, by decide +kernel, by decide +kernel⟩

end MEmu
