import MEmu.Core

/-!
# Traps, privilege modes and CSRs

The functions of `rv64_privilege.hpp`: trap entry and return, the sampling of
interrupts before an instruction, and the CSR accesses.
-/

namespace MEmu

namespace RV64Core

/-! ## Trap entry -/

/-- The destination of a trap is S-mode. -/
def trapToSMode (c : RV64Core) (cause : Word) : Bool :=
  c.currentPrivMode != .mMode &&
    if Cause.interrupt cause then c.csrMIntDelegation.getLsbD (Cause.cause cause).toNat
    else c.csrMExceptionDelegation.getLsbD (Cause.cause cause).toNat

/-- The PC that a trap vector register sends a trap to. -/
def vectorPC (tvec cause : Word) : Word :=
  (TrapVector.base tvec <<< 2) +
    if TrapVector.mode tvec = 1 then (Cause.cause cause).setWidth 64 * 4 else 0

/-- The trap procedure to S-mode. -/
def enterSMode (cause tval : Word) (c : RV64Core) : RV64Core :=
  { c with
    csrSupervisorTrapVal := tval
    csrSupervisorCause := cause
    csrSExceptionPC := c.currentProgramCounter
    status := SStatus.setSpp (c.currentPrivMode.val.getLsbD 0)
      (SStatus.setSie false (SStatus.setSpie (SStatus.sie c.status) c.status))
    trapProgramCounter := vectorPC c.csrSTrapVecBaseAddr cause
    nextPrivMode := .sMode }

/-- The trap procedure to M-mode. -/
def enterMMode (cause tval : Word) (c : RV64Core) : RV64Core :=
  { c with
    csrMachineTrapVal := tval
    csrMachineCause := cause
    csrMExceptionPC := c.currentProgramCounter
    status := MStatus.setMpp c.currentPrivMode.val
      (MStatus.setMie false (MStatus.setMpie (MStatus.mie c.status) c.status))
    trapProgramCounter := vectorPC c.csrMTrapVecBaseAddr cause
    nextPrivMode := .mMode }

/-- The part of `raiseTrap` between its assertions. -/
def takeTrap (cause tval : Word) (c : RV64Core) : RV64Core :=
  if c.trapToSMode cause then enterSMode cause tval { c with needTrap := true }
  else enterMMode cause tval { c with needTrap := true }

end RV64Core

/-- `raiseTrap`. -/
def raiseTrap (cause tval : Word) : CoreM Unit := do
  modify fun c => { c with trapLog := c.trapLog ++ [(cause, tval)] }
  let c ← get
  cassert (c.needTrap = false) .needTrap
  cassert (Cause.cause cause ≠ ExecFeedbackCode.ok.val) .causeOk
  modify (RV64Core.takeTrap cause tval)
  let c ← get
  cassert (¬(Cause.cause cause = ExecFeedbackCode.instrPgfault.val ∧ tval = c.trapProgramCounter))
    .fetchFaultAtTrapVector

/-- `ecall`. -/
def ecall : CoreM Unit := do
  let c ← get
  raiseTrap (Cause.mk (c.currentPrivMode.val.setWidth 63 + 8) false) 0

/-- `ebreak`. -/
def ebreak : CoreM Unit := raiseTrap (Cause.exception .breakpoint) 0

/-! ## Trap return -/

namespace RV64Core

/-- What `mret` does in M-mode. -/
def returnM (c : RV64Core) : RV64Core :=
  let status := MStatus.setMie (MStatus.mpie c.status) c.status
  let mpp := MStatus.mpp status
  let status := MStatus.setMpie true status
  let status := if mpp ≠ PrivMode.mMode.val then MStatus.setMprv false status else status
  { c with
    status := MStatus.setMpp PrivMode.uMode.val status
    nextPrivMode := PrivMode.ofVal mpp
    needTrap := true
    trapProgramCounter := c.csrMExceptionPC }

/-- What `sret` does where it is permitted.  The comparison of the one-bit `spp`
with M-mode never holds. -/
def returnS (c : RV64Core) : RV64Core :=
  let status := SStatus.setSie (SStatus.spie c.status) c.status
  let spp := (BitVec.ofBool (SStatus.spp status)).setWidth 2
  let status := SStatus.setSpie true status
  let status := if spp ≠ PrivMode.mMode.val then MStatus.setMprv false status else status
  { c with
    status := SStatus.setSpp false status
    nextPrivMode := PrivMode.ofVal spp
    needTrap := true
    trapProgramCounter := c.csrSExceptionPC }

/-- `sret` is permitted. -/
def sretPermitted (c : RV64Core) : Bool :=
  !decide (c.currentPrivMode.val < PrivMode.sMode.val) && !MStatus.tsr c.status

/-- `sfence.vma` is permitted. -/
def sfencePermitted (c : RV64Core) : Bool :=
  !(decide (c.currentPrivMode.val < PrivMode.sMode.val) ||
    (c.currentPrivMode == .sMode && MStatus.tvm c.status))

end RV64Core

/-- `mret`. -/
def mret : CoreM Bool := do
  let c ← get
  if c.currentPrivMode ≠ .mMode then pure false
  else
    set c.returnM
    pure true

/-- `sret`. -/
def sret : CoreM Bool := do
  let c ← get
  if c.sretPermitted then
    set c.returnS
    pure true
  else pure false

/-- `sfence_vma`. -/
def sfenceVma {β : Type} (vaddr asid : Word) : Exec β Bool := do
  let m ← get
  if m.core.sfencePermitted then
    Machine.onMem fun _ => MMUSys.onMMU (modify (RV64SV39MMU.flushTLBSfenceVma vaddr asid))
    pure true
  else pure false

/-! ## Interrupts -/

namespace RV64Core

/-- The interrupt lines copied into `mip`. -/
def sampleInt (lines : IntStatus) (pending : Word) : Word :=
  IntPending.setSEIp lines.seip (IntPending.setMTIp lines.mtip
    (IntPending.setMSIp lines.msip (IntPending.setMEIp lines.meip pending)))

/-- The part of `preExec` before the interrupt bits are checked. -/
def beginStep (c : RV64Core) : RV64Core :=
  { c with
    csrMCycleNum := c.csrMCycleNum + 1
    csrIntPending := sampleInt c.intStatus c.csrIntPending
    needTrap := false
    currentPrivMode := c.nextPrivMode }

end RV64Core

/-- `preExec`. -/
def preExec : CoreM Unit := do
  modify RV64Core.beginStep
  let c ← get
  let int_bits := c.csrIntPending &&& c.csrIntEnable
  if bitsToIntType int_bits = .noInt then pure ()
  else if c.currentPrivMode = .mMode then
    let m_mode_int_bits := int_bits &&& ~~~c.csrMIntDelegation
    if MStatus.mie c.status = true ∧ m_mode_int_bits ≠ 0 then
      raiseTrap (Cause.int (bitsToIntType m_mode_int_bits)) 0
    else pure ()
  else
    let int_type := bitsToIntType int_bits
    if int_bits &&& c.csrMIntDelegation ≠ 0 then
      if c.currentPrivMode.val < PrivMode.sMode.val then raiseTrap (Cause.int int_type) 0
      else if MStatus.sie c.status then raiseTrap (Cause.int int_type) 0
      else pure ()
    else
      if c.currentPrivMode.val < PrivMode.mMode.val then raiseTrap (Cause.int int_type) 0
      else if MStatus.mie c.status then raiseTrap (Cause.int int_type) 0
      else pure ()

/-! ## CSRs -/

namespace RV64Core

/-- The value of `sstatus`, built field by field from the status word. -/
def sstatusView (status : Word) : Word :=
  SStatus.setSd (status.getLsbD 63) <|
  SStatus.setUxl (BitField.get 32 2 status) <|
  SStatus.setMxr (MStatus.mxr status) <|
  SStatus.setSum (MStatus.sum status) <|
  SStatus.setXs (BitField.get 15 2 status) <|
  SStatus.setFs (BitField.get 13 2 status) <|
  SStatus.setVs (BitField.get 9 2 status) <|
  SStatus.setSpp (MStatus.spp status) <|
  SStatus.setUbe (status.getLsbD 6) <|
  SStatus.setSpie (MStatus.spie status) <|
  SStatus.setSie (MStatus.sie status) 0

/-- The status word after `v` is written to `mstatus`. -/
def writeMStatus (v status : Word) : Word :=
  MStatus.setTsr (MStatus.tsr v) <|
  MStatus.setTw (MStatus.tw v) <|
  MStatus.setTvm (MStatus.tvm v) <|
  MStatus.setMxr (MStatus.mxr v) <|
  MStatus.setSum (MStatus.sum v) <|
  MStatus.setMprv (MStatus.mprv v) <|
  MStatus.setMpp (MStatus.mpp v) <|
  MStatus.setSpp (MStatus.spp v) <|
  MStatus.setMpie (MStatus.mpie v) <|
  MStatus.setSpie (MStatus.spie v) <|
  MStatus.setMie (MStatus.mie v) <|
  MStatus.setSie (MStatus.sie v) status

/-- The status word after `v` is written to `sstatus`. -/
def writeSStatus (v status : Word) : Word :=
  SStatus.setMxr (SStatus.mxr v) <|
  SStatus.setSum (SStatus.sum v) <|
  SStatus.setSpp (SStatus.spp v) <|
  SStatus.setSpie (SStatus.spie v) <|
  SStatus.setSie (SStatus.sie v) status

/-- `satp` and `sfence.vma` trap in S-mode. -/
def tvmTraps (c : RV64Core) : Bool := c.currentPrivMode == .sMode && MStatus.tvm c.status

/-- The cases of `csr_read`, `none` where it returns false. -/
def csrReadCase (c : RV64Core) : CSRAddr → Option Word
  | .mvendorid => some 0
  | .marchid => some 0
  | .mimpid => some 0
  | .mhartid => some c.rvHartID
  | .mconfigptr => some 0
  | .mstatus => some c.status
  | .misa => some c.csrMachineISA
  | .medeleg => some c.csrMExceptionDelegation
  | .mideleg => some c.csrMIntDelegation
  | .mie => some c.csrIntEnable
  | .mtvec => some c.csrMTrapVecBaseAddr
  | .mcounteren => some c.csrMCounterEN
  | .mscratch => some c.csrMscratch
  | .mepc => some c.csrMExceptionPC
  | .mcause => some c.csrMachineCause
  | .mtval => some c.csrMachineTrapVal
  | .mip => some c.csrIntPending
  | .mcycle => some c.csrMCycleNum
  | .minstret => some c.minstret
  | .sstatus => some (sstatusView c.status)
  | .sie => some (c.csrIntEnable &&& S_MODE_INT_MASK)
  | .stvec => some c.csrSTrapVecBaseAddr
  | .scounteren => some c.csrSCounterEN
  | .sscratch => some c.csrSscratch
  | .sepc => some c.csrSExceptionPC
  | .scause => some c.csrSupervisorCause
  | .stval => some c.csrSupervisorTrapVal
  | .sip => some (c.csrIntPending &&& S_MODE_INT_MASK)
  | .satp => if c.tvmTraps then none else some c.satp
  | .cycle =>
      if c.currentPrivMode.val ≤ PrivMode.sMode.val ∧
          (CounterEN.cycle c.csrMCounterEN = false ∨ CounterEN.cycle c.csrSCounterEN = false) then
        none
      else some c.csrMCycleNum
  | .tselect => some 1
  | .tdata1 => some 0

/-- `csr_read`. -/
def csrRead (csr_index : BitVec 12) (c : RV64Core) : Option Word :=
  (CSRAddr.ofVal csr_index).bind c.csrReadCase

/-- A trap vector with a reserved mode taken as direct. -/
def legalTvec (v : Word) : Word :=
  if 1 < TrapVector.mode v then TrapVector.setMode 0 v else v

/-- A `satp` value with an unsupported mode taken as bare. -/
def legalSatp (v : Word) : Word :=
  if Satp.mode v ≠ 0 ∧ Satp.mode v ≠ 8 then Satp.setMode 0 v else v

/-- The cases of `csr_write` that cannot fail: the core after the write, `none`
for the registers that `csr_write` has no case for. -/
def csrWriteCase (v : Word) (c : RV64Core) : CSRAddr → Option RV64Core
  | .mstatus => some { c with status := writeMStatus v c.status }
  | .misa => some c
  | .medeleg => some { c with csrMExceptionDelegation := v &&& S_MODE_EXC_MASK }
  | .mideleg => some { c with csrMIntDelegation := v &&& S_MODE_INT_MASK }
  | .mie => some { c with csrIntEnable := v &&& M_MODE_INT_MASK }
  | .mtvec => some { c with csrMTrapVecBaseAddr := v }
  | .mcounteren => some { c with csrMCounterEN := v &&& COUNTER_MASK }
  | .mscratch => some { c with csrMscratch := v }
  | .mepc => some { c with csrMExceptionPC := v }
  | .mcause => some { c with csrMachineCause := v }
  | .mtval => some { c with csrMachineTrapVal := v }
  | .mip => some { c with csrIntPending := v &&& M_MODE_INT_MASK }
  | .mcycle => some { c with csrMCycleNum := v }
  | .sstatus => some { c with status := writeSStatus v c.status }
  | .sie =>
      some { c with
        csrIntEnable := (c.csrIntEnable &&& ~~~S_MODE_INT_MASK) ||| (v &&& S_MODE_INT_MASK) }
  | .stvec => some { c with csrSTrapVecBaseAddr := legalTvec v }
  | .scounteren => some { c with csrSCounterEN := v &&& COUNTER_MASK }
  | .sscratch => some { c with csrSscratch := v }
  | .sepc => some { c with csrSExceptionPC := v }
  | .scause => some { c with csrSupervisorCause := v }
  | .stval => some { c with csrSupervisorTrapVal := v }
  | .sip =>
      some { c with
        csrIntPending := (c.csrIntPending &&& ~~~S_MODE_INT_MASK) ||| (v &&& S_MODE_INT_MASK) }
  | .satp => if c.tvmTraps then none else some { c with satp := legalSatp v }
  | .tselect => some c
  | .tdata1 => some c
  | .mvendorid => none
  | .marchid => none
  | .mimpid => none
  | .mhartid => none
  | .mconfigptr => none
  | .minstret => none
  | .cycle => none

/-- `csr_op_permission_check`. -/
def csrOpPermissionCheck (csr_index : BitVec 12) (write : Bool) (c : RV64Core) : Bool :=
  if c.currentPrivMode.val < BitField.get 8 2 csr_index then false
  else if BitField.get 10 2 csr_index = 3 ∧ write = true then false
  else true

end RV64Core

/-- `csr_write`. -/
def csrWrite (csr_index : BitVec 12) (csr_data : Word) : CoreM Bool := do
  let c ← get
  cassert (CSRAddr.ofVal csr_index = some .mtvec → TrapVector.mode csr_data ≤ 1) .mtvecMode
  match (CSRAddr.ofVal csr_index).bind (RV64Core.csrWriteCase csr_data c) with
  | some c' =>
      set c'
      pure true
  | none => pure false

end MEmu
