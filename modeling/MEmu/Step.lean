import MEmu.Rvc

/-!
# One step of the core

`Step_CoreAPI`: interrupts, the fetch, one of the two switches, and the common
exit.  The two logs are cleared at its start, so that after a step they hold what
that step did.
-/

namespace MEmu

open Machine (onCore onMem)

namespace RV64Core

/-- The PC after the exit path, by the flags of the step. -/
def exitPC (is_compressed_inst : Bool) (flags : ExecFlags) (c : RV64Core) : Word :=
  if c.needTrap then c.trapProgramCounter
  else if flags.is_new_pc_set then c.currentProgramCounter
  else c.currentProgramCounter + if is_compressed_inst then 2 else 4

/-- The exit path between the trap for an illegal instruction and the assertions. -/
def retire (is_compressed_inst : Bool) (flags : ExecFlags) (c : RV64Core) : RV64Core :=
  { c with
    currentProgramCounter := exitPC is_compressed_inst flags c
    minstret := if c.needTrap then c.minstret else c.minstret + 1
    needTrap := false }

/-- The reserved fields of the status word that the exit path asserts to be zero. -/
def statusBlank (status : Word) : Bool :=
  !MStatus.blank0 status && !MStatus.blank1 status && !MStatus.blank2 status &&
    MStatus.blank3 status == 0 && MStatus.blank4 status == 0

end RV64Core

/-- The labels `exception` and `post_exec`. -/
def stepExit (inst : BitVec 32) (is_compressed_inst : Bool) (flags : ExecFlags) :
    CoreM FuncReturnFeedback := do
  if flags.is_instr_illegal then
    raiseTrap (Cause.exception .illegalInstr) (inst.setWidth 64)
  modify (RV64Core.retire is_compressed_inst flags)
  let c ← get
  cassert (RV64Core.statusBlank c.status = true) .statusBlank
  pure .ok

/-- The cause of a failed fetch, 0 for what the source has no name for. -/
def fetchCause (feedback : VAddrRWFeedback) : BitVec 63 :=
  if feedback = .pageFault then ExecFeedbackCode.instrPgfault.val
  else if feedback = .accessFault then ExecFeedbackCode.instrAccFault.val
  else 0

/-- The instruction is a compressed one. -/
def isCompressedInst (inst : BitVec 32) : Bool := RVInst.opcode inst &&& 0b11 != 0b11

namespace Machine

/-- The logs emptied. -/
def clearLogs {β : Type} (m : Machine β) : Machine β :=
  { core := { m.core with trapLog := [] }, mem := { m.mem with busLog := [] } }

/-- A core on a bus with one RAM device at address 0. -/
def ofBytes (core : RV64Core) (bytes : List Byte) : Machine (MEmuMMIOBus MMIOMem) :=
  { core := core
    mem :=
      { mmu := RV64SV39MMU.construct default
        sysBus := MMIOMem.busOfBytes bytes
        busLog := [] } }

end Machine

section Step

variable {β : Type} [MMIOBus β]

/-- `Step_CoreAPI` up to the decode: the instruction, or `none` where a trap was
raised and the step goes to `exception`. -/
def fetchInst : Exec β (Option (BitVec 32)) := do
  modify Machine.clearLogs
  onCore preExec
  let c := (← get).core
  let pc := c.currentProgramCounter
  if c.needTrap then pure none
  else if pc % RV64Core.PC_ALIGN ≠ 0 then
    raiseException .instrMisalign pc
    pure none
  else
    let (feedback, buf) ← onMem fun env => MMUSys.vaddrInstFetch env pc 4 (Bytes.ofWord 4 0)
    if feedback ≠ .accessOk then
      cassert (fetchCause feedback ≠ 0) .fetchCause
      onCore (raiseTrap (Cause.mk (fetchCause feedback) false) pc)
      pure none
    else pure (some ((Bytes.toWord buf).setWidth 32))

/-- The decode and execute part of `Step_CoreAPI`. -/
def execute (inst : BitVec 32) : Exec β ExecFlags :=
  if isCompressedInst inst then exec16 inst else exec32 inst

/-- `Step_CoreAPI` from the decode on. -/
def execAndExit (inst : BitVec 32) : Exec β FuncReturnFeedback := do
  let flags ← execute inst
  onCore (stepExit inst (isCompressedInst inst) flags)

/-- `Step_CoreAPI`. -/
def stepCoreAPI : Exec β FuncReturnFeedback := do
  match ← fetchInst with
  | some inst => execAndExit inst
  -- no case ran, so the exit path sees the flags as they were set up
  | none => onCore (stepExit 0 false .plain)

end Step

end MEmu
