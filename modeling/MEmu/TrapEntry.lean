import MEmu.Modes

/-!
# Trap entry

A trap is taken to S- or to M-mode, each with its own registers and its own fields of the
status word.  `raiseTrap` edits the word through two layouts, and sends the PC to the vector
with an offset for every cause in vectored mode.  The privileged architecture has an offset
for interrupts alone.
-/

namespace MEmu

open BitField (EqOutside)
open Run (Sat)

/-! ## The modes that traps are taken to -/

/-- A mode that traps are taken to. -/
inductive TrapMode where
  | s
  | m
deriving DecidableEq

/-- The trap registers of a mode. -/
structure TrapRegs where
  tval : Word
  cause : Word
  epc : Word
  tvec : Word
deriving DecidableEq

namespace TrapMode

def priv : TrapMode → PrivMode
  | s => .sMode
  | m => .mMode

def other : TrapMode → TrapMode
  | s => m
  | m => s

def regs : TrapMode → RV64Core → TrapRegs
  | s, c => ⟨c.csrSupervisorTrapVal, c.csrSupervisorCause, c.csrSExceptionPC, c.csrSTrapVecBaseAddr⟩
  | m, c => ⟨c.csrMachineTrapVal, c.csrMachineCause, c.csrMExceptionPC, c.csrMTrapVecBaseAddr⟩

/-- `SIE` and `MIE`. -/
def ie : TrapMode → Nat
  | s => 1
  | m => 3

/-- `SPIE` and `MPIE`. -/
def pie : TrapMode → Nat
  | s => 5
  | m => 7

/-- `SPP` and `MPP`. -/
def ppBits : TrapMode → List Nat
  | s => [8]
  | m => [11, 12]

/-- The value of `SPP` or `MPP`. -/
def pp : TrapMode → Word → BitVec 2
  | s, status => (BitVec.ofBool (SStatus.spp status)).setWidth 2
  | m, status => MStatus.mpp status

/-- The fields that trap entry and return are about. -/
def statusBits (x : TrapMode) : List Nat := x.ie :: x.pie :: x.ppBits

end TrapMode

namespace RV64Core

/-- The destination of a trap. -/
def trapMode (c : RV64Core) (cause : Word) : TrapMode := if c.trapToSMode cause then .s else .m

end RV64Core

/-- The vector of a trap: only interrupts have an offset, and only in vectored mode. -/
def archVector (tvec cause : Word) : Word :=
  (TrapVector.base tvec <<< 2) +
    if Cause.interrupt cause = true ∧ TrapVector.mode tvec = 1 then
      (Cause.cause cause).setWidth 64 * 4
    else 0

/-! ## What trap entry is to do -/

/-- A trap from `c` to the mode `x` that leaves `c'`, but for the address that it goes to. -/
structure Enters (x : TrapMode) (c : RV64Core) (cause tval : Word) (c' : RV64Core) : Prop where
  mode : c'.nextPrivMode = x.priv
  regs : x.regs c' = ⟨tval, cause, c.currentProgramCounter, (x.regs c).tvec⟩
  others : x.other.regs c' = x.other.regs c
  pie : c'.status.getLsbD x.pie = c.status.getLsbD x.ie
  ie : c'.status.getLsbD x.ie = false
  pp : x.pp c'.status = c.currentPrivMode.val
  status : EqOutside x.statusBits c.status c'.status
  redirects : c'.needTrap = true

/-- `raiseTrap` takes the trap as the privileged architecture has it. -/
def EntersTrap (c : RV64Core) (cause tval : Word) : Prop :=
  Sat c (raiseTrap cause tval)
    (fun _ c' => Enters (c.trapMode cause) c cause tval c' ∧
      c'.trapProgramCounter = archVector ((c.trapMode cause).regs c).tvec cause)
    (fun _ _ => False)

/-! ## What trap entry does -/

section Entry

variable {c : RV64Core} {cause tval : Word}

theorem enterSMode_enters (hmode : c.currentPrivMode = .uMode ∨ c.currentPrivMode = .sMode)
    (hneed : c.needTrap = true) (cause tval : Word) :
    Enters .s c cause tval (RV64Core.enterSMode cause tval c) where
  mode := rfl
  regs := rfl
  others := rfl
  pie := by
    rw [RV64Core.enterSMode, SStatus.setSpp, SStatus.setSie, SStatus.setSpie]
    simp only [TrapMode.pie, BitField.getLsbD_setBit, Nat.reduceEqDiff, if_false, if_true]
    rfl
  ie := by
    rw [RV64Core.enterSMode, SStatus.setSpp, SStatus.setSie]
    simp only [TrapMode.ie, BitField.getLsbD_setBit, Nat.reduceEqDiff, if_false, if_true]
    rfl
  pp := by
    simp only [RV64Core.enterSMode, TrapMode.pp, SStatus.spp, SStatus.setSpp,
      BitField.getLsbD_setBit]
    rcases hmode with h | h <;> rw [h] <;> rfl
  status := (EqOutside.setBit (i := 5) (by decide) _ _).trans <|
    (EqOutside.setBit (i := 1) (by decide) _ _).trans <|
    EqOutside.setBit (i := 8) (by decide) _ _
  redirects := hneed

theorem setMpp_eqOutside {bits : List Nat} (hin : ∀ k < 2, 11 + k ∈ bits) (v : BitVec 2)
    (s : Word) : EqOutside bits s (MStatus.setMpp v s) :=
  EqOutside.set hin v s

theorem enterMMode_enters (hneed : c.needTrap = true) (cause tval : Word) :
    Enters .m c cause tval (RV64Core.enterMMode cause tval c) where
  mode := rfl
  regs := rfl
  others := rfl
  pie := by
    rw [RV64Core.enterMMode, MStatus.setMpp, MStatus.setMie, MStatus.setMpie]
    simp only [TrapMode.pie, BitField.getLsbD_set, BitField.getLsbD_setBit]
    rfl
  ie := by
    rw [RV64Core.enterMMode, MStatus.setMpp, MStatus.setMie]
    simp only [TrapMode.ie, BitField.getLsbD_set, BitField.getLsbD_setBit]
    rfl
  pp := mpp_setMpp _ _
  status := (EqOutside.setBit (i := 7) (by decide) _ _).trans <|
    (EqOutside.setBit (i := 3) (by decide) _ _).trans <|
    setMpp_eqOutside (by decide) _ _
  redirects := hneed

/-- A trap that is taken is entered in its mode. -/
theorem trapped_enters (hmode : c.currentPrivMode ≠ .hMode) (cause tval : Word) :
    Enters (c.trapMode cause) c cause tval (c.trapped cause tval) ∧
      (c.trapped cause tval).trapProgramCounter
        = RV64Core.vectorPC ((c.trapMode cause).regs c).tvec cause := by
  let armed := { c with needTrap := true, trapLog := c.trapLog ++ [(cause, tval)] }
  rcases c.trapped_cases cause tval with ⟨hs, h⟩ | ⟨hm, h⟩
  · have hlow : c.currentPrivMode = .uMode ∨ c.currentPrivMode = .sMode := by
      unfold RV64Core.trapToSMode at hs
      cases hp : c.currentPrivMode with
      | uMode => exact .inl rfl
      | sMode => exact .inr rfl
      | hMode => exact absurd hp hmode
      | mMode =>
          rw [hp] at hs
          cases hs
    rw [h, RV64Core.trapMode, if_pos hs]
    have henters := enterSMode_enters (c := armed) hlow rfl cause tval
    exact ⟨{ henters with }, rfl⟩
  · rw [h, RV64Core.trapMode, if_neg (by rw [hm]; exact Bool.false_ne_true)]
    have henters := enterMMode_enters (c := armed) rfl cause tval
    exact ⟨{ henters with }, rfl⟩

/-! ## Entry as the architecture has it -/

/-- The offset of the source and that of the architecture agree on interrupts, outside vectored
mode and where the offset wraps to nothing. -/
theorem vectorPC_eq_archVector_iff (tvec cause : Word) :
    RV64Core.vectorPC tvec cause = archVector tvec cause ↔
      (TrapVector.mode tvec = 1 →
        Cause.interrupt cause = true ∨ (Cause.cause cause).setWidth 64 * 4 = 0) := by
  unfold RV64Core.vectorPC archVector
  rw [BitVec.add_right_inj]
  by_cases hv : TrapVector.mode tvec = 1
  · by_cases hi : Cause.interrupt cause = true
    · simp [hv, hi]
    · simp [hv, hi]
  · rw [if_neg hv, if_neg fun h => hv h.2]
    exact iff_of_true rfl fun h => absurd h hv

/-- `raiseTrap` enters the trap as the architecture has it exactly where no trap is pending, the
cause is one, the fetch at the vector is not what faulted, and an exception meets no vector with
an offset. -/
theorem entersTrap_iff (hmode : c.currentPrivMode ≠ .hMode) (cause tval : Word) :
    EntersTrap c cause tval ↔
      c.needTrap = false ∧
      Cause.cause cause ≠ ExecFeedbackCode.ok.val ∧
      ¬(Cause.cause cause = ExecFeedbackCode.instrPgfault.val ∧
        tval = archVector ((c.trapMode cause).regs c).tvec cause) ∧
      (TrapVector.mode ((c.trapMode cause).regs c).tvec = 1 →
        Cause.interrupt cause = true ∨ (Cause.cause cause).setWidth 64 * 4 = 0) := by
  rw [← vectorPC_eq_archVector_iff]
  obtain ⟨henters, hpc⟩ := trapped_enters hmode cause tval
  cases hneed : c.needTrap with
  | true =>
      refine iff_of_false (fun h => ?_) fun h => Bool.noConfusion h.1
      have hrun : (raiseTrap cause tval).run c
          = .error .needTrap { c with trapLog := c.trapLog ++ [(cause, tval)] } := by
        simp [raiseTrap, cassert, hneed]
      exact h.error hrun
  | false =>
      rw [EntersTrap, Sat, run_raiseTrap hneed, hpc]
      by_cases hok : Cause.cause cause = ExecFeedbackCode.ok.val
      · rw [if_pos hok]
        exact iff_of_false id fun h => h.2.1 hok
      rw [if_neg hok]
      by_cases hfault : Cause.cause cause = ExecFeedbackCode.instrPgfault.val ∧
          tval = RV64Core.vectorPC ((c.trapMode cause).regs c).tvec cause
      · rw [if_pos hfault]
        exact iff_of_false id fun h => h.2.2.1 (by rwa [h.2.2.2] at hfault)
      rw [if_neg hfault]
      constructor
      · intro h
        have heq := hpc.symm.trans h.2
        exact ⟨rfl, hok, by rwa [heq] at hfault, heq⟩
      · rintro ⟨-, -, -, heq⟩
        exact ⟨henters, hpc.trans heq⟩

end Entry

/-- U-mode with breakpoints and timer interrupts delegated to a vectored `stvec`. -/
def vectored : RV64Core :=
  { (default : RV64Core) with
    csrMExceptionDelegation := 0x8
    csrMIntDelegation := 0x20
    csrSTrapVecBaseAddr := 0x101 }

theorem entersTrap_iff_vectored :
    EntersTrap vectored (Cause.int .sTimer) 0 ↔
      vectored.needTrap = false ∧
      Cause.cause (Cause.int .sTimer) ≠ ExecFeedbackCode.ok.val ∧
      ¬(Cause.cause (Cause.int .sTimer) = ExecFeedbackCode.instrPgfault.val ∧
        0 = archVector ((vectored.trapMode (Cause.int .sTimer)).regs vectored).tvec
          (Cause.int .sTimer)) ∧
      (TrapVector.mode ((vectored.trapMode (Cause.int .sTimer)).regs vectored).tvec = 1 →
        Cause.interrupt (Cause.int .sTimer) = true ∨
          (Cause.cause (Cause.int .sTimer)).setWidth 64 * 4 = 0) :=
  entersTrap_iff (by decide) _ _

/-- A breakpoint is sent to the vector of an interrupt. -/
theorem breakpoint_offset : ¬EntersTrap vectored (Cause.exception .breakpoint) 0 := by
  have hrun : (raiseTrap (Cause.exception .breakpoint) 0).run vectored
      = .ok () (vectored.trapped (Cause.exception .breakpoint) 0) :=
    run_raiseTrap_ok rfl (by decide) 0
  intro h
  exact absurd (h.ok hrun).2 (by decide)

end MEmu
