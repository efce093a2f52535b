import MEmu.Mmu
import MEmu.Inst

/-!
# The core

The fields of `RV64Core` with their reset values, and the functions of
`RV64Core.h`, `rv64_common.hpp` and `rv64_common.cpp` that need no memory.

`CoreM` is a computation on the fields of the core, `Exec` one on the core with
its MMU and the bus.  `trapLog` is a record kept for the theorems, one entry for
each entry of `raiseTrap` in the step.  No function reads it.
-/

namespace MEmu

/-- The fields of `RV64Core`, and the interrupt lines it points at. -/
structure RV64Core where
  GPR : BitVec 5 → Word
  csrMCycleNum : Word
  csrMIntDelegation : Word
  csrMExceptionDelegation : Word
  csrMachineTrapVal : Word
  csrMachineCause : Word
  csrMExceptionPC : Word
  csrMTrapVecBaseAddr : Word
  csrMCounterEN : Word
  csrMachineISA : Word
  csrMscratch : Word
  csrSupervisorTrapVal : Word
  csrSupervisorCause : Word
  csrSExceptionPC : Word
  csrSTrapVecBaseAddr : Word
  csrSCounterEN : Word
  csrSscratch : Word
  minstret : Word
  status : Word
  rvHartID : Word
  satp : Word
  csrIntPending : Word
  csrIntEnable : Word
  trapProgramCounter : Word
  currentProgramCounter : Word
  needTrap : Bool
  currentPrivMode : PrivMode
  nextPrivMode : PrivMode
  intStatus : IntStatus
  /-- What an uninitialised local variable holds. -/
  indeterminate : Word
  /-- The cause and trap value of each entry of `raiseTrap` in this step. -/
  trapLog : List (Word × Word)
deriving Inhabited

/-- A computation on the core alone. -/
abbrev CoreM := EStateM Abort RV64Core

/-- A core, its MMU and the bus. -/
structure Machine (β : Type) where
  core : RV64Core
  mem : MMUSys β

/-- A computation on the core, its MMU and the bus. -/
abbrev Exec (β : Type) := EStateM Abort (Machine β)

namespace RV64Core

/-! ## Constants -/

def bit (i : Nat) : Word := 1 <<< i

def S_MODE_INT_MASK : Word :=
  bit IntType.sExt.val ||| bit IntType.sSw.val ||| bit IntType.sTimer.val

def COUNTER_MASK : Word := bit 0 ||| bit 2

def S_MODE_EXC_MASK : Word := bit 16 - 1 - bit 11

def M_MODE_INT_MASK : Word :=
  S_MODE_INT_MASK ||| bit IntType.mExt.val ||| bit IntType.mSw.val ||| bit IntType.mTimer.val

def PC_ALIGN : Word := 2

/-- The extensions i, m, a, c, s and u, with `mxl` 2. -/
def misaReset : Word :=
  (bit 8 ||| bit 12 ||| bit 0 ||| bit 2 ||| bit 18 ||| bit 20) ||| ((2 : Word) <<< 62)

/-! ## Reset and registers -/

/-- `reset`.  The PC, the hart id and the interrupt lines are left as they are. -/
def reset (c : RV64Core) : RV64Core :=
  { c with
    trapProgramCounter := 0
    needTrap := false
    currentPrivMode := .mMode
    nextPrivMode := .mMode
    status := MStatus.setUxl 2 (MStatus.setSxl 2 0)
    csrMachineISA := misaReset
    csrMExceptionDelegation := 0
    csrMIntDelegation := 0
    csrIntEnable := 0
    csrMTrapVecBaseAddr := 0
    csrMscratch := 0
    csrMExceptionPC := 0
    csrMachineCause := 0
    csrMachineTrapVal := 0
    csrMCounterEN := 0
    csrIntPending := 0
    csrMCycleNum := 0
    minstret := 0
    csrSTrapVecBaseAddr := 0
    csrSscratch := 0
    csrSExceptionPC := 0
    csrSupervisorCause := 0
    csrSupervisorTrapVal := 0
    satp := 0
    csrSCounterEN := 0
    GPR := fun _ => 0 }

/-- `setGPR`. -/
def setGPR (rd : BitVec 5) (value : Word) (c : RV64Core) : RV64Core :=
  if rd = 0 then c else { c with GPR := fun r => if r = rd then value else c.GPR r }

/-- The program counter replaced. -/
def setPC (npc : Word) (c : RV64Core) : RV64Core := { c with currentProgramCounter := npc }

/-- What the MMU sees of the core. -/
def mmuEnv (c : RV64Core) : MMUEnv :=
  { currentPrivMode := c.currentPrivMode
    satp := c.satp
    status := c.status
    rvHartID := c.rvHartID
    indeterminate := c.indeterminate }

end RV64Core

/-! ## Arithmetic -/

/-- `ALU_Op_enum`. -/
inductive ALUOp where
  | add
  | sub
  | sll
  | slt
  | sltu
  | xor
  | srl
  | sra
  | or
  | and
  | mul
  | mulh
  | mulhu
  | mulhsu
  | div
  | divu
  | rem
  | remu
deriving DecidableEq

/-- The cast `(int32_t)v`, as a 64-bit integer. -/
def int32 (v : Word) : Word := (v.setWidth 32).signExtend 64

/-- The cast `(uint32_t)v`, as a 64-bit integer. -/
def uint32 (v : Word) : Word := (v.setWidth 32).setWidth 64

/-- `LONG_MIN`. -/
def LONG_MIN : Word := 1 <<< 63

/-- The switch of `alu_exec`. -/
def aluSwitch (a b : Word) (op : ALUOp) (op_32 : Bool) : Word :=
  let shamt := (b &&& if op_32 then 0x1f else 0x3f).toNat
  match op with
  | .add => a + b
  | .sub => a - b
  | .sll => a <<< shamt
  | .slt => if a.slt b then 1 else 0
  | .sltu => if a < b then 1 else 0
  | .xor => a ^^^ b
  | .srl => (if op_32 then a &&& 0xffffffff else a) >>> shamt
  | .sra => a.sshiftRight shamt
  | .or => a ||| b
  | .and => a &&& b
  | .mul => a * b
  | .mulh => ((a.signExtend 128 * b.signExtend 128) >>> 64).setWidth 64
  | .mulhu => ((a.setWidth 128 * b.setWidth 128) >>> 64).setWidth 64
  | .mulhsu => ((a.signExtend 128 * b.setWidth 128) >>> 64).setWidth 64
  | .div =>
      if b = 0 then -1
      else if a = LONG_MIN ∧ b = -1 then LONG_MIN
      else a.sdiv b
  | .divu =>
      if b = 0 then -1
      else if op_32 then uint32 a / uint32 b
      else a / b
  | .rem =>
      if b = 0 then a
      else if a = LONG_MIN ∧ b = -1 then 0
      else a.srem b
  | .remu =>
      if b = 0 then a
      else if op_32 then uint32 a % uint32 b
      else a % b

/-- `alu_exec`. -/
def aluExec (a b : Word) (op : ALUOp) (op_32 : Bool) : Word :=
  let a := if op_32 then int32 a else a
  let b := if op_32 then int32 b else b
  let result := aluSwitch a b op op_32
  if op_32 then int32 result else result

/-! ## Parts of the machine -/

namespace Machine

variable {β : Type}

/-- A computation on the core alone. -/
def onCore {α : Type} (x : CoreM α) : Exec β α := fun m =>
  match x.run m.core with
  | .ok a c => .ok a { m with core := c }
  | .error e c => .error e { m with core := c }

/-- A call of the MMU. -/
def onMem {α : Type} (x : MMUEnv → MMUM β α) : Exec β α := fun m =>
  match (x m.core.mmuEnv).run m.mem with
  | .ok a s => .ok a { m with mem := s }
  | .error e s => .error e { m with mem := s }

theorem run_onMem {α : Type} (x : MMUEnv → MMUM β α) (m : Machine β) :
    (onMem x).run m = match (x m.core.mmuEnv).run m.mem with
      | .ok a s => .ok a { m with mem := s }
      | .error e s => .error e { m with mem := s } := rfl

theorem run_onCore {α : Type} (x : CoreM α) (m : Machine β) :
    (onCore x).run m = match x.run m.core with
      | .ok a c => .ok a { m with core := c }
      | .error e c => .error e { m with core := c } := rfl

end Machine

end MEmu
