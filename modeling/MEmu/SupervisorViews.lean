import MEmu.Masks

/-!
# Supervisor views

`sstatus`, `sie` and `sip` are no registers of their own.  Each is a view of a machine register:
a read shows the bits under one mask, and a write is the write of the machine register that
replaces the bits under another.  For the interrupt registers this rests on the mask of the
machine register, which a write of the view does not apply.
-/

namespace MEmu

open BitField (merge getLsbD_merge EqOutside)
open RV64Core

/-! ## The masks -/

/-- The fields of `CSReg_SStatus_t`. -/
def SSTATUS_MASK : Word := 0x80000003000de762

/-- `SIE`, `SPIE`, `SPP`, `SUM` and `MXR`. -/
def SSTATUS_WRITE_MASK : Word := bit 1 ||| bit 5 ||| bit 8 ||| bit 18 ||| bit 19

/-- The fields of `mstatus` that a write copies: those, `MIE`, `MPIE`, `MPP`, `MPRV`, `TVM`, `TW`
and `TSR`. -/
def MSTATUS_WRITE_MASK : Word :=
  SSTATUS_WRITE_MASK ||| bit 3 ||| bit 7 ||| bit 11 ||| bit 12 ||| bit 17 ||| bit 20 ||| bit 21
    ||| bit 22

/-- In `c`, the register `s` is the view of `m` that shows the bits of `shown` and writes those
of `written`. -/
def IsView (s m : CSRAddr) (shown written : Word) (c : RV64Core) : Prop :=
  ∃ old, c.csrRead m.val = some old ∧ c.csrRead s.val = some (old &&& shown) ∧
    ∀ v, (csrWrite s.val v).run c = (csrWrite m.val (merge written v old)).run c

/-- The three supervisor registers are views. -/
structure SupervisorViews (c : RV64Core) : Prop where
  sstatus : IsView .sstatus .mstatus SSTATUS_MASK SSTATUS_WRITE_MASK c
  sie : IsView .sie .mie S_MODE_INT_MASK S_MODE_INT_MASK c
  sip : IsView .sip .mip S_MODE_INT_MASK S_MODE_INT_MASK c

/-! ## The status word -/

/-- The fields that a read of `sstatus` copies are those under the mask. -/
theorem sstatusView_eq (status : Word) : sstatusView status = status &&& SSTATUS_MASK := by
  have hmask : SSTATUS_MASK = BitField.setBit 63 true (BitField.set 32 (BitVec.allOnes 2)
      (BitField.setBit 19 true (BitField.setBit 18 true (BitField.set 15 (BitVec.allOnes 2)
      (BitField.set 13 (BitVec.allOnes 2) (BitField.set 9 (BitVec.allOnes 2)
      (BitField.setBit 8 true (BitField.setBit 6 true (BitField.setBit 5 true
      (BitField.setBit 1 true 0)))))))))) := by decide
  rw [hmask]
  simp only [← BitField.setBit_getLsbD_and, ← BitField.set_get_and]
  have hzero : status &&& 0 = 0 := by simp
  rw [hzero]
  rfl

/-- The fields that a write of `mstatus` copies are those under its mask. -/
theorem writeMStatus_eq (v status : Word) :
    writeMStatus v status = merge MSTATUS_WRITE_MASK v status := by
  have hmask : MSTATUS_WRITE_MASK = BitField.setBit 22 true (BitField.setBit 21 true
      (BitField.setBit 20 true (BitField.setBit 19 true (BitField.setBit 18 true
      (BitField.setBit 17 true (BitField.set 11 (BitVec.allOnes 2) (BitField.setBit 8 true
      (BitField.setBit 7 true (BitField.setBit 5 true (BitField.setBit 3 true
      (BitField.setBit 1 true 0))))))))))) := by decide
  rw [hmask]
  simp only [← BitField.setBit_getLsbD_merge, ← BitField.set_get_merge, BitField.merge_zero]
  rfl

/-- The fields that a write of `sstatus` copies are those under its mask. -/
theorem writeSStatus_eq (v status : Word) :
    writeSStatus v status = merge SSTATUS_WRITE_MASK v status := by
  have hmask : SSTATUS_WRITE_MASK = BitField.setBit 19 true (BitField.setBit 18 true
      (BitField.setBit 8 true (BitField.setBit 5 true (BitField.setBit 1 true 0)))) := by decide
  rw [hmask]
  simp only [← BitField.setBit_getLsbD_merge, BitField.merge_zero]
  rfl

/-- A write of `sstatus` is the write of `mstatus` that keeps the other fields. -/
theorem writeMStatus_merge (v status : Word) :
    writeMStatus (merge SSTATUS_WRITE_MASK v status) status = writeSStatus v status := by
  rw [writeMStatus_eq, writeSStatus_eq]
  exact BitField.merge_of_merge v status (by decide)

/-! ## The three views -/

variable {c : RV64Core}

theorem isView_sstatus (c : RV64Core) :
    IsView .sstatus .mstatus SSTATUS_MASK SSTATUS_WRITE_MASK c := by
  refine ⟨c.status, rfl, ?_, fun v => ?_⟩
  · show some (sstatusView c.status) = _
    rw [sstatusView_eq]
  · show EStateM.Result.ok true { c with status := writeSStatus v c.status } = _
    rw [← writeMStatus_merge]
    rfl

/-- A word within the mask of its register, with the bits of the view replaced. -/
theorem merge_sInt_masked {old : Word} (h : OnlyBits intBits old) (v : Word) :
    merge S_MODE_INT_MASK v old &&& M_MODE_INT_MASK = merge S_MODE_INT_MASK v old := by
  apply BitVec.eq_of_getLsbD_eq
  intro i hi
  by_cases hbit : i ∈ intBits
  · have hmask : M_MODE_INT_MASK.getLsbD i = true := by
      revert i
      decide
    rw [BitVec.getLsbD_and, hmask, Bool.and_true]
  · have hzero : (merge S_MODE_INT_MASK v old).getLsbD i = false :=
      (h.writeView v i hbit).trans BitVec.getLsbD_zero
    rw [BitVec.getLsbD_and, hzero, Bool.false_and]

theorem isView_sie (h : OnlyBits intBits c.csrIntEnable) :
    IsView .sie .mie S_MODE_INT_MASK S_MODE_INT_MASK c := by
  refine ⟨c.csrIntEnable, rfl, rfl, fun v => ?_⟩
  exact congrArg (fun bits => EStateM.Result.ok true { c with csrIntEnable := bits })
    (merge_sInt_masked h v).symm

theorem isView_sip (h : OnlyBits intBits c.csrIntPending) :
    IsView .sip .mip S_MODE_INT_MASK S_MODE_INT_MASK c := by
  refine ⟨c.csrIntPending, rfl, rfl, fun v => ?_⟩
  exact congrArg (fun bits => EStateM.Result.ok true { c with csrIntPending := bits })
    (merge_sInt_masked h v).symm

theorem WithinMasks.supervisorViews (h : WithinMasks c) : SupervisorViews c where
  sstatus := isView_sstatus c
  sie := isView_sie h.mie
  sip := isView_sip h.mip

section Run

variable {β : Type} [MMIOBus β]

/-- In every state reached from reset, and in every state in which a step from there executes
its instruction, the supervisor registers are views. -/
theorem supervisor_views {P : Machine β → Prop} (h : CoreReach P c) (lines : IntStatus)
    (s : MMUSys β) :
    SupervisorViews c ∧
      SupervisorViews (Machine.begun { core := { c with intStatus := lines }, mem := s }) := by
  have hlines : WithinMasks { c with intStatus := lines } := h.withinMasks.congr (.refl _) rfl
  exact ⟨h.withinMasks.supervisorViews, (WithinMasks.invariant.beginStep hlines).supervisorViews⟩

end Run

theorem supervisor_views_visitUser :
    CoreReach (fun _ : Machine (MEmuMMIOBus MMIOMem) => True) visitedUser ∧
      visitedUser.csrIntEnable = 0x222 ∧ SupervisorViews visitedUser := by
  have hr : CoreReach (fun _ : Machine (MEmuMMIOBus MMIOMem) => True) visitedUser :=
    visitUser_returns.reach fun _ _ => trivial
  exact ⟨hr, by decide +kernel, (supervisor_views hr default (runFrom visitUser 6).mem).1⟩

end MEmu
