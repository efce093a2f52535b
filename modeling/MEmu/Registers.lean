import MEmu.Modes

/-!
# The register x0

The entry points of the core that a debugger or a platform calls to write its
registers, next to the step, and what they do to `x0`.  `setGPR` and
`SetGPRByIndex_CoreAPI` leave index 0 alone.  `WriteAllRegister_CoreAPI` stores
whatever it is given.
-/

namespace MEmu

namespace RV64Core

/-! ## Entry points -/

/-- `WriteProgramCounter_CoreAPI`. -/
def writeProgramCounter (reg_val : Word) : CoreM FuncReturnFeedback := do
  modify (setPC reg_val)
  pure .ok

/-- `SetGPRByIndex_CoreAPI`. -/
def setGPRByIndex (gpr_index : BitVec 8) (val : Word) : CoreM FuncReturnFeedback := do
  cassert (gpr_index < 32) .gprIndex
  if gpr_index = 0 then pure .ok
  else
    modify fun c => { c with GPR := fun r => if r = gpr_index.setWidth 5 then val else c.GPR r }
    pure .ok

/-- `WriteAllRegister_CoreAPI`, on the values of the register items. -/
def writeAllRegister (regs : List Word) : CoreM FuncReturnFeedback := do
  if regs.length ≠ 33 then pure .invalidParam
  else
    modify fun c => { c with GPR := fun i => regs.getD i.toNat 0 }
    modify (setPC (regs.getD 32 0))
    pure .ok

end RV64Core

/-- A call on a core from outside. -/
inductive CoreCall (β : Type) where
  /-- `Step_CoreAPI`, with the interrupt lines and everything outside the core as
  they are by then. -/
  | step (lines : IntStatus) (s : MMUSys β)
  | writeProgramCounter (reg_val : Word)
  | setGPRByIndex (gpr_index : BitVec 8) (val : Word)
  | writeAllRegister (regs : List Word)

namespace CoreCall

variable {β : Type} [MMIOBus β]

/-- The call returns, and takes the core from `c` to `c'`. -/
def Returns (c c' : RV64Core) : CoreCall β → Prop
  | step lines s => ∃ fb m', c' = m'.core ∧
      stepCoreAPI.run { core := { c with intStatus := lines }, mem := s } = .ok fb m'
  | writeProgramCounter reg_val => ∃ fb, (RV64Core.writeProgramCounter reg_val).run c = .ok fb c'
  | setGPRByIndex gpr_index val =>
      ∃ fb, (RV64Core.setGPRByIndex gpr_index val).run c = .ok fb c'
  | writeAllRegister regs => ∃ fb, (RV64Core.writeAllRegister regs).run c = .ok fb c'

omit [MMIOBus β] in
/-- The call does not write all registers with a value other than 0 for `x0`. -/
def LeavesX0 : CoreCall β → Prop
  | writeAllRegister regs => regs.length = 33 → regs.getD 0 0 = 0
  | _ => True

end CoreCall

/-- The states of a core reached from construction by calls in `P`. -/
inductive CallReach {β : Type} [MMIOBus β] (P : CoreCall β → Prop) : RV64Core → Prop where
  | construct (c : RV64Core) : CallReach P c.reset
  | call {c c' : RV64Core} (hc : CallReach P c) (call : CoreCall β) (hP : P call)
      (h : call.Returns c c') : CallReach P c'

/-! ## What a step does to x0 -/

theorem setGPR_x0 (c : RV64Core) (rd : BitVec 5) (value : Word) :
    (c.setGPR rd value).GPR 0 = c.GPR 0 := by
  unfold RV64Core.setGPR
  split
  · rfl
  · exact if_neg fun h => ‹¬rd = 0› h.symm

/-- Every function of the step leaves `x0` as it is. -/
theorem x0_invariant : CoreInvariant (fun _ _ => True) fun c => c.GPR 0 = 0 where
  beginStep h := h
  trapped {c} h cause tval := by
    rcases c.trapped_cases cause tval with ⟨-, ht⟩ | ⟨-, ht⟩ <;> rw [ht] <;> exact h
  retire h _ _ := h
  setGPR {c} h rd value := (setGPR_x0 c rd value).trans h
  setPC h _ := h
  csrWrite h _ _ hw := by rw [(RV64Core.csrWriteCase_frame hw).GPR, h]
  returnM h := h
  returnS h := h

/-! ## Runs -/

section Run

variable {β : Type} [MMIOBus β]

/-- One call keeps `x0` at 0, unless it writes all registers with another value. -/
theorem CoreCall.Returns.x0 {call : CoreCall β} {c c' : RV64Core} (h : call.Returns c c')
    (hcall : call.LeavesX0) (hc : c.GPR 0 = 0) : c'.GPR 0 = 0 := by
  cases call with
  | step lines s =>
      obtain ⟨fb, m', rfl, hr⟩ := h
      exact x0_invariant.step hr hc fun _ _ _ _ _ _ => True.intro
  | writeProgramCounter reg_val =>
      obtain ⟨fb, hr⟩ := h
      cases hr
      exact hc
  | setGPRByIndex gpr_index val =>
      obtain ⟨fb, hr⟩ := h
      rw [RV64Core.setGPRByIndex, EStateM.run_bind, run_cassert] at hr
      by_cases hlt : gpr_index < 32
      · rw [if_pos hlt] at hr
        dsimp only at hr
        split at hr
        · cases hr
          exact hc
        · cases hr
          have hne : ¬(0 : BitVec 5) = gpr_index.setWidth 5 := by bv_omega
          exact (if_neg hne).trans hc
      · rw [if_neg hlt] at hr
        cases hr
  | writeAllRegister regs =>
      obtain ⟨fb, hr⟩ := h
      rw [RV64Core.writeAllRegister] at hr
      split at hr
      · cases hr
        exact hc
      · cases hr
        exact hcall (not_not.mp ‹_›)

/-- In a run whose calls do not write another value to it, `x0` is always 0. -/
theorem x0_hardwired {c : RV64Core} (h : CallReach (CoreCall.LeavesX0 (β := β)) c) :
    c.GPR 0 = 0 := by
  induction h with
  | construct c => rfl
  | call hc call hP h ih => exact h.x0 hP ih

end Run

/-- `addi x0, x0, 1`. -/
def addiX0 : List Byte := [0x13, 0x00, 0x10, 0x00]

/-- That instruction, and then a debugger that writes every other register, and `x0` by its
index. -/
theorem x0_hardwired_addi :
    ∃ c, CallReach (CoreCall.LeavesX0 (β := MEmuMMIOBus MMIOMem)) c ∧ c.minstret = 1 ∧
      c.GPR 1 = 1 ∧ c.GPR 0 = 0 := by
  have h : stepCoreAPI.run (runFrom addiX0 0)
      = .ok .ok (Run.final (stepCoreAPI.run (runFrom addiX0 0))) := by rfl
  have hr : CallReach (CoreCall.LeavesX0 (β := MEmuMMIOBus MMIOMem)) _ :=
    .call (.construct default) (.step default (runFrom addiX0 0).mem) True.intro
      ⟨.ok, _, rfl, h⟩
  have hr₁ := hr.call (.writeAllRegister (0 :: List.replicate 32 1)) (fun _ => rfl) ⟨.ok, rfl⟩
  have hr₂ := hr₁.call (.setGPRByIndex 0 1) True.intro ⟨_, rfl⟩
  exact ⟨_, hr₂, by decide, by decide, x0_hardwired hr₂⟩

/-- A `G` command that sends 1 for every register. -/
theorem x0_written :
    ¬∀ c, CallReach (fun _ : CoreCall (MEmuMMIOBus MMIOMem) => True) c → c.GPR 0 = 0 := by
  intro hall
  have hr : CallReach (fun _ : CoreCall (MEmuMMIOBus MMIOMem) => True) _ :=
    .call (.construct default) (.writeAllRegister (List.replicate 33 1)) True.intro ⟨.ok, rfl⟩
  exact absurd (hall _ hr) (by decide)

end MEmu
