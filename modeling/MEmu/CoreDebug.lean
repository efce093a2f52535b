import MEmu.Registers
import Mathlib.Data.Finset.Insert
import Mathlib.Data.Finset.Erase

/-!
# The core under a debugger

The part of `ProcessorCore_I` that a debugger uses, with the watch points that every core has,
and `rv64_debug.cpp`, which is that part for the core of this repository.  `disp_name` is left out
of `RegisterItem_t`, as the debugger does not read it.
-/

namespace MEmu

/-- `RegisterItem_t`. -/
structure RegisterItem where
  reg_id : BitVec 16
  size : Byte
  val : Word
deriving DecidableEq

/-- The functions of `ProcessorCore_I` that a debugger calls on the core itself. -/
class ProcessorCoreI (γ : Type) where
  /-- `DumpRegister_CoreAPI`. -/
  dumpRegister : γ → List RegisterItem
  /-- `DumpProgramCounter_CoreAPI`. -/
  dumpProgramCounter : γ → Word
  /-- `Step_CoreAPI`. -/
  step : EStateM Abort γ FuncReturnFeedback
  /-- `MemRead_CoreDebugAPI`. -/
  memRead (start_addr size : Word) (buffer : List Byte) :
    EStateM Abort γ (FuncReturnFeedback × List Byte)
  /-- `MemWrite_CoreDebugAPI`. -/
  memWrite (start_addr size : Word) (buffer : List Byte) : EStateM Abort γ FuncReturnFeedback
  /-- `WriteAllRegister_CoreAPI`. -/
  writeAllRegister (regs : List RegisterItem) : EStateM Abort γ FuncReturnFeedback

/-- `ProcessorCore_I`: a core and its watch points. -/
structure ProcessorCore (γ : Type) where
  core : γ
  watchPointPCs : Finset Word

namespace ProcessorCore

variable {γ : Type}

/-- `GetISABitLen`. -/
def isaBitLen : Nat := 64

/-- A function of the core itself. -/
def onCore {α : Type} (x : EStateM Abort γ α) : EStateM Abort (ProcessorCore γ) α := fun c =>
  match x.run c.core with
  | .ok a core => .ok a { c with core := core }
  | .error e core => .error e { c with core := core }

theorem run_onCore {α : Type} (x : EStateM Abort γ α) (c : ProcessorCore γ) :
    (onCore x).run c = match x.run c.core with
      | .ok a core => .ok a { c with core := core }
      | .error e core => .error e { c with core := core } := rfl

/-- `InsertWatchPoint_CoreDebug`. -/
def insertWatchPoint (pc : Word) (c : ProcessorCore γ) : ProcessorCore γ :=
  { c with watchPointPCs := insert pc c.watchPointPCs }

/-- `RemoveWatchPoint_CoreDebug`. -/
def removeWatchPoint (pc : Word) (c : ProcessorCore γ) : ProcessorCore γ :=
  { c with watchPointPCs := c.watchPointPCs.erase pc }

variable [ProcessorCoreI γ]

/-- `IsCurrentPCAtWatchPoint_CoreDebug`. -/
def isCurrentPCAtWatchPoint (c : ProcessorCore γ) : Bool :=
  decide (ProcessorCoreI.dumpProgramCounter c.core ∈ c.watchPointPCs)

end ProcessorCore

/-! ## The RV64 core -/

namespace Machine

section

variable {β : Type} [MMIOBus β]

/-- A call of the bus that the MMU leads to.  It is no access of the guest. -/
def onBus {α : Type} (call : EStateM Abort β α) : Exec β α := fun m =>
  match call.run m.mem.sysBus with
  | .ok a b => .ok a { m with mem := { m.mem with sysBus := b } }
  | .error e b => .error e { m with mem := { m.mem with sysBus := b } }

/-- A debugger uses the address as it is. -/
def bareDebug (c : RV64Core) : Bool := c.currentPrivMode == .mMode || Satp.mode c.satp == 0

/-- The loop of `MemRead_CoreDebugAPI`, which ends at the first byte that cannot be read. -/
def readBytes (start_addr : Word) : List Byte → Exec β (FuncReturnFeedback × List Byte)
  | [] => pure (.ok, [])
  | b :: rest => do
      let (feedback, read) ← onMem fun env => MMUSys.vaddrReadBuffer env start_addr 1 [b]
      if feedback ≠ .accessOk then pure (.notAccessible, read ++ rest)
      else
        let (fb, bytes) ← readBytes (start_addr + 1) rest
        pure (fb, read ++ bytes)

/-- The loop of `MemWrite_CoreDebugAPI`. -/
def writeBytes (start_addr : Word) : List Byte → Exec β FuncReturnFeedback
  | [] => pure .ok
  | b :: rest => do
      let feedback ← onMem fun env => MMUSys.vaddrWriteBuffer env start_addr 1 [b]
      if feedback ≠ .accessOk then pure .notAccessible
      else writeBytes (start_addr + 1) rest

/-- `MemRead_CoreDebugAPI`. -/
def memRead (start_addr size : Word) (buffer : List Byte) :
    Exec β (FuncReturnFeedback × List Byte) := do
  if bareDebug (← get).core then onBus (MMIOBus.paddrReadBuffer start_addr size buffer)
  else readBytes start_addr buffer

/-- `MemWrite_CoreDebugAPI`. -/
def memWrite (start_addr size : Word) (buffer : List Byte) : Exec β FuncReturnFeedback := do
  if bareDebug (← get).core then onBus (MMIOBus.paddrWriteBuffer start_addr size buffer)
  else writeBytes start_addr buffer

/-- `DumpRegister_CoreAPI`. -/
def dumpRegister (m : Machine β) : List RegisterItem :=
  (List.ofFn fun i : Fin 32 => ⟨BitVec.ofNat 16 i, 8, m.core.GPR (BitVec.ofFin i)⟩) ++
    [⟨32, 8, m.core.currentProgramCounter⟩]

/-- `WriteAllRegister_CoreAPI`. -/
def writeAllRegister (regs : List RegisterItem) : Exec β FuncReturnFeedback :=
  onCore (RV64Core.writeAllRegister (regs.map RegisterItem.val))

omit [MMIOBus β] in
/-- It takes 33 registers and nothing else. -/
theorem run_writeAllRegister (regs : List RegisterItem) (m : Machine β) : ∃ m',
    (writeAllRegister regs).run m = .ok (if regs.length ≠ 33 then .invalidParam else .ok) m' := by
  rw [writeAllRegister, run_onCore, RV64Core.writeAllRegister, List.length_map]
  by_cases hlen : regs.length ≠ 33
  · rw [if_pos hlen, if_pos hlen]
    exact ⟨_, rfl⟩
  · rw [if_neg hlen, if_neg hlen]
    exact ⟨_, rfl⟩

instance : ProcessorCoreI (Machine β) where
  dumpRegister := dumpRegister
  dumpProgramCounter m := m.core.currentProgramCounter
  step := stepCoreAPI
  memRead := memRead
  memWrite := memWrite
  writeAllRegister := writeAllRegister

end

end Machine

end MEmu
