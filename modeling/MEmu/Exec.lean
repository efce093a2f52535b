import MEmu.Privilege

/-!
# Instruction execution

The two switches of `Step_CoreAPI`, on a 32-bit word and on a compressed one.
The cases share their tails: a register is set, a jump is taken, an access is
made and its result stored or its fault raised.  Each tail is one definition with
the register, the address and the size as arguments, and a case applies it to the
values it decodes.
-/

namespace MEmu

open Machine (onCore onMem)

/-- The two flags that the cases of `Step_CoreAPI` set. -/
structure ExecFlags where
  is_new_pc_set : Bool
  is_instr_illegal : Bool
deriving DecidableEq

namespace ExecFlags

def plain : ExecFlags := ⟨false, false⟩
def newPC : ExecFlags := ⟨true, false⟩
def illegal : ExecFlags := ⟨false, true⟩

end ExecFlags

section Exec

variable {β : Type} [MMIOBus β]

/-! ## Shared tails -/

/-- `raiseTrap` with an exception for its cause. -/
def raiseException (cause : ExecFeedbackCode) (tval : Word) : Exec β Unit :=
  onCore (raiseTrap (Cause.exception cause) tval)

/-- A case that sets one register. -/
def setInto (rd : BitVec 5) (value : Word) : Exec β ExecFlags := do
  onCore (modify (RV64Core.setGPR rd value))
  pure .plain

/-- A case that sets the PC without a check. -/
def jumpTo (npc : Word) : Exec β ExecFlags := do
  onCore (modify (RV64Core.setPC npc))
  pure .newPC

/-- A jump that leaves a link, where its target is aligned. -/
def jumpAndLink (rd : BitVec 5) (link npc : Word) : Exec β ExecFlags := do
  if npc % RV64Core.PC_ALIGN ≠ 0 then
    raiseException .instrMisalign npc
    pure .plain
  else
    onCore (modify (RV64Core.setGPR rd link))
    jumpTo npc

/-- The cause of a failed data access, `ok` for none. -/
def VAddrRWFeedback.cause (acc_fault misalign pgfault : ExecFeedbackCode) :
    VAddrRWFeedback → ExecFeedbackCode
  | accessFault => acc_fault
  | misAlign => misalign
  | pageFault => pgfault
  | accessOk => .ok

/-- `memRead`: whether the access went through, and the buffer. -/
def memRead (start_addr size : Word) (buffer : List Byte) : Exec β (Bool × List Byte) := do
  if start_addr % size ≠ 0 then
    raiseException .loadMisalign start_addr
    pure (false, buffer)
  else
    let (va_err, buffer) ← onMem fun env => MMUSys.vaddrReadBuffer env start_addr size buffer
    if va_err = .accessOk then pure (true, buffer)
    else
      raiseException (va_err.cause .loadAccFault .loadMisalign .loadPgfault) start_addr
      pure (false, buffer)

/-- `memWrite`. -/
def memWrite (start_addr size : Word) (buffer : List Byte) : Exec β Bool := do
  if start_addr % size ≠ 0 then
    raiseException .storeMisalign start_addr
    pure false
  else
    let va_err ← onMem fun env => MMUSys.vaddrWriteBuffer env start_addr size buffer
    if va_err = .accessOk then pure true
    else
      raiseException (va_err.cause .storeAccFault .storeMisalign .storePgfault) start_addr
      pure false

/-- A load of `size` bytes into a register. -/
def loadInto (rd : BitVec 5) (mem_addr size : Word) (signed : Bool) : Exec β ExecFlags := do
  let m ← get
  let (ok, buf) ← memRead mem_addr size (m.core.mmuEnv.uninit size.toNat)
  if ok then setInto rd (Bytes.extend signed size.toNat buf)
  else pure .plain

/-- A store of the low `size` bytes of a register. -/
def storeFrom (rs2 : BitVec 5) (mem_addr size : Word) : Exec β ExecFlags := do
  let m ← get
  let _ ← memWrite mem_addr size (Bytes.ofWord size.toNat (m.core.GPR rs2))
  pure .plain

/-! ## Integer cases of the 32-bit switch -/

/-- `OPCODE_BRANCH`: whether the branch is taken, `none` for the default case. -/
def branchTaken (a b : Word) : BitVec 3 → Option Bool
  | Funct3.beq => some (a == b)
  | Funct3.bne => some (a != b)
  | Funct3.blt => some (a.slt b)
  | Funct3.bge => some (!a.slt b)
  | Funct3.bltu => some (decide (a < b))
  | Funct3.bgeu => some (decide (b ≤ a))
  | _ => none

/-- `OPCODE_BRANCH`. -/
def execBranch (inst : BitVec 32) : Exec β ExecFlags := do
  let c := (← get).core
  match branchTaken (c.GPR (RVInst.rs1 inst)) (c.GPR (RVInst.rs2 inst)) (RVInst.funct3 inst) with
  | none => pure .illegal
  | some false => pure .plain
  | some true =>
      let npc := c.currentProgramCounter + RVInst.immB inst
      if npc % RV64Core.PC_ALIGN ≠ 0 then
        raiseException .instrMisalign npc
        -- the flag stays set beside the trap
        pure .newPC
      else jumpTo npc

/-- `OPCODE_LOAD`: the size and the sign, `none` for the default case. -/
def loadCase : BitVec 3 → Option (Word × Bool)
  | Funct3.lb => some (1, true)
  | Funct3.lh => some (2, true)
  | Funct3.lw => some (4, true)
  | Funct3.ld => some (8, true)
  | Funct3.lbu => some (1, false)
  | Funct3.lhu => some (2, false)
  | Funct3.lwu => some (4, false)
  | _ => none

/-- `OPCODE_LOAD`. -/
def execLoad (inst : BitVec 32) : Exec β ExecFlags := do
  let c := (← get).core
  match loadCase (RVInst.funct3 inst) with
  | some (size, signed) =>
      loadInto (RVInst.rd inst) (c.GPR (RVInst.rs1 inst) + RVInst.imm12 inst) size signed
  | none => pure .illegal

/-- `OPCODE_STORE`: the size, `none` for the default case. -/
def storeCase : BitVec 3 → Option Word
  | Funct3.sb => some 1
  | Funct3.sh => some 2
  | Funct3.sw => some 4
  | Funct3.sd => some 8
  | _ => none

/-- `OPCODE_STORE`. -/
def execStore (inst : BitVec 32) : Exec β ExecFlags := do
  let c := (← get).core
  match storeCase (RVInst.funct3 inst) with
  | some size =>
      storeFrom (RVInst.rs2 inst) (c.GPR (RVInst.rs1 inst) + RVInst.immS inst) size
  | none => pure .illegal

/-- `OPCODE_OPIMM`: the operation and its immediate operand, `none` where the
case sets `is_instr_illegal`. -/
def opimmCase (inst : BitVec 32) : Option (ALUOp × Word) :=
  let imm := RVInst.imm12 inst
  let fun6 : BitVec 6 := BitField.get 1 6 (RVInst.funct7 inst)
  match RVInst.funct3 inst with
  | Funct3.addSub => some (.add, imm)
  | Funct3.slt => some (.slt, imm)
  | Funct3.sltu => some (.sltu, imm)
  | Funct3.xor => some (.xor, imm)
  | Funct3.or => some (.or, imm)
  | Funct3.and => some (.and, imm)
  -- a negative immediate passes the comparison
  | Funct3.sll => if (64 : Word).sle imm then none else some (.sll, imm)
  | Funct3.srlSra =>
      if fun6 ≠ Funct6.normal ∧ fun6 ≠ Funct6.sra then none
      else some (if fun6 = Funct6.sra then .sra else .srl, imm &&& 0x3f)
  -- every value is named above, and the default is `assert(false)`
  | _ => none

/-- `OPCODE_OPIMM32`, likewise. -/
def opimm32Case (inst : BitVec 32) : Option (ALUOp × Word) :=
  let imm := RVInst.imm12 inst
  let fun7 := RVInst.funct7 inst
  match RVInst.funct3 inst with
  | Funct3.addSub => some (.add, imm)
  | Funct3.sll =>
      if (64 : Word).sle imm ∨ fun7 ≠ Funct7.normal then none else some (.sll, imm)
  | Funct3.srlSra =>
      if fun7 ≠ Funct7.normal ∧ fun7 ≠ Funct7.subSra then none
      else some (if fun7 = Funct7.subSra then .sra else .srl, imm &&& 0x3f)
  | _ => none

/-- `OPCODE_OP`: the operation, `none` where the case sets `is_instr_illegal`. -/
def opCase (inst : BitVec 32) : Option ALUOp :=
  match RVInst.funct7 inst with
  | Funct7.normal =>
      match RVInst.funct3 inst with
      | Funct3.addSub => some .add
      | Funct3.sll => some .sll
      | Funct3.slt => some .slt
      | Funct3.sltu => some .sltu
      | Funct3.xor => some .xor
      | Funct3.srlSra => some .srl
      | Funct3.or => some .or
      | Funct3.and => some .and
      | _ => none
  | Funct7.subSra =>
      match RVInst.funct3 inst with
      | Funct3.addSub => some .sub
      | Funct3.srlSra => some .sra
      | _ => none
  | Funct7.mul =>
      match RVInst.funct3 inst with
      | Funct3.mul => some .mul
      | Funct3.mulh => some .mulh
      | Funct3.mulhsu => some .mulhsu
      | Funct3.mulhu => some .mulhu
      | Funct3.div => some .div
      | Funct3.divu => some .divu
      | Funct3.rem => some .rem
      | Funct3.remu => some .remu
      | _ => none
  | _ => none

/-- `OPCODE_OP32`, likewise. -/
def op32Case (inst : BitVec 32) : Option ALUOp :=
  match RVInst.funct7 inst with
  | Funct7.normal =>
      match RVInst.funct3 inst with
      | Funct3.addSub => some .add
      | Funct3.sll => some .sll
      | Funct3.srlSra => some .srl
      | _ => none
  | Funct7.subSra =>
      match RVInst.funct3 inst with
      | Funct3.addSub => some .sub
      | Funct3.srlSra => some .sra
      | _ => none
  | Funct7.mul =>
      match RVInst.funct3 inst with
      | Funct3.mul => some .mul
      | Funct3.div => some .div
      | Funct3.divu => some .divu
      | Funct3.rem => some .rem
      | Funct3.remu => some .remu
      | _ => none
  | _ => none

/-- The end of `OPCODE_OPIMM` and `OPCODE_OPIMM32`. -/
def execOpImm (inst : BitVec 32) (op_32 : Bool) : Option (ALUOp × Word) → Exec β ExecFlags
  | none => pure .illegal
  | some (op, imm) => do
      let c := (← get).core
      setInto (RVInst.rd inst) (aluExec (c.GPR (RVInst.rs1 inst)) imm op op_32)

/-- The end of `OPCODE_OP` and `OPCODE_OP32`. -/
def execOp (inst : BitVec 32) (op_32 : Bool) : Option ALUOp → Exec β ExecFlags
  | none => pure .illegal
  | some op => do
      let c := (← get).core
      setInto (RVInst.rd inst)
        (aluExec (c.GPR (RVInst.rs1 inst)) (c.GPR (RVInst.rs2 inst)) op op_32)

/-! ## Atomic cases -/

/-- The case of the `funct5` switch that a value takes, `none` for its default. -/
def AMOFunct.ofVal (v : BitVec 5) : Option AMOFunct :=
  [lr, sc, swap, add, xor, and, or, min, max, minu, maxu].find? fun f => f.val == v

/-- `AMOLR`. -/
def loadReservedInto (rd : BitVec 5) (addr size : Word) : Exec β ExecFlags := do
  let m ← get
  let (exc, result) ←
    onMem fun env => MMUSys.vaddrLoadReserved env addr size (m.core.mmuEnv.uninit size.toNat)
  if exc = .ok then setInto rd (Bytes.extend true size.toNat result)
  else
    raiseException exc addr
    pure .plain

/-- `AMOSC`. -/
def storeConditionalInto (rd rs2 : BitVec 5) (addr size : Word) : Exec β ExecFlags := do
  let m ← get
  let (exc, result) ← onMem fun env =>
    MMUSys.vaddrStoreConditional env addr size (Bytes.ofWord size.toNat (m.core.GPR rs2))
  if exc = .ok then setInto rd (if result then 1 else 0)
  else
    raiseException exc addr
    pure .plain

/-- `AMOSWAP` to `AMOMAXU`. -/
def atomicInto (rd rs2 : BitVec 5) (addr size : Word) (op : AMOFunct) : Exec β ExecFlags := do
  let m ← get
  let (exc, result) ←
    onMem fun env => MMUSys.vaddrAtomicMemOperation env addr size op (m.core.GPR rs2)
  if exc = .ok then setInto rd result
  else
    raiseException exc addr
    pure .plain

/-- `OPCODE_AMO`. -/
def execAmo (inst : BitVec 32) : Exec β ExecFlags := do
  if RVInst.funct3 inst ≠ 0b010 ∧ RVInst.funct3 inst ≠ 0b011 then pure .illegal
  else
    let addr := (← get).core.GPR (RVInst.rs1 inst)
    let size : Word := 1 <<< (RVInst.funct3 inst).toNat
    match AMOFunct.ofVal (BitField.get 2 5 (RVInst.funct7 inst)) with
    | none => pure .illegal
    | some .lr =>
        if RVInst.rs2 inst ≠ 0 then pure .illegal
        else loadReservedInto (RVInst.rd inst) addr size
    | some .sc => storeConditionalInto (RVInst.rd inst) (RVInst.rs2 inst) addr size
    | some op => atomicInto (RVInst.rd inst) (RVInst.rs2 inst) addr size op

/-! ## System cases -/

/-- The CSR cases of `OPCODE_SYSTEM`: whether the instruction writes, and the
value it writes over the old one.  `none` for the default case. -/
def csrCase (inst : BitVec 32) (c : RV64Core) : Option (Bool × (Word → Word)) :=
  let rs1 := RVInst.rs1 inst
  let uimm : Word := rs1.setWidth 64
  match RVInst.funct3 inst with
  | Funct3.csrrw => some (true, fun _ => c.GPR rs1)
  | Funct3.csrrs => some (rs1 != 0, fun csr_result => csr_result ||| c.GPR rs1)
  | Funct3.csrrc => some (rs1 != 0, fun csr_result => csr_result &&& ~~~c.GPR rs1)
  | Funct3.csrrwi => some (true, fun _ => uimm)
  | Funct3.csrrsi => some (rs1 != 0, fun csr_result => csr_result ||| uimm)
  | Funct3.csrrci => some (rs1 != 0, fun csr_result => csr_result &&& ~~~uimm)
  | _ => none

/-- The six CSR cases.  They test `rd` before `setGPR`, which tests it again. -/
def execCsr (inst : BitVec 32) (write : Bool) (newValue : Word → Word) : Exec β ExecFlags := do
  let c := (← get).core
  let csr_index := RVInst.csrIndex inst
  if !c.csrOpPermissionCheck csr_index write then pure .illegal
  else
    match c.csrRead csr_index with
    | none => pure .illegal
    | some csr_result =>
        let ok ← if write then onCore (csrWrite csr_index (newValue csr_result)) else pure true
        if ok then setInto (RVInst.rd inst) csr_result else pure .illegal

/-- A case that is illegal where the call it makes returns false. -/
def illegalUnless (call : Exec β Bool) : Exec β ExecFlags := do
  if ← call then pure .plain else pure .illegal

/-- `inst.r_type.rs1 == 0 && inst.r_type.rd == 0`. -/
def noRegs (inst : BitVec 32) : Bool := RVInst.rs1 inst == 0 && RVInst.rd inst == 0

/-- `FUNCT7_ECALL_EBREAK`. -/
def execEcallEbreak (inst : BitVec 32) : Exec β ExecFlags := do
  if noRegs inst then
    if RVInst.rs2 inst = 0 then
      onCore ecall
      pure .plain
    else if RVInst.rs2 inst = 1 then
      onCore ebreak
      pure .plain
    else pure .illegal
  else pure .illegal

/-- `FUNCT7_SRET_WFI`.  With a register named, the case does nothing. -/
def execSretWfi (inst : BitVec 32) : Exec β ExecFlags := do
  if noRegs inst then
    if RVInst.rs2 inst = 0b00010 then illegalUnless (onCore sret)
    else if RVInst.rs2 inst = 0b00101 then pure .plain
    else pure .illegal
  else pure .plain

/-- `FUNCT7_MRET`. -/
def execMret (inst : BitVec 32) : Exec β ExecFlags := do
  if RVInst.rs2 inst = 0b00010 ∧ noRegs inst = true then illegalUnless (onCore mret)
  else pure .illegal

/-- `FUNCT7_SFENCE_VMA`. -/
def execSfenceVma (inst : BitVec 32) : Exec β ExecFlags := do
  let c := (← get).core
  illegalUnless (sfenceVma (c.GPR (RVInst.rs1 inst)) (c.GPR (RVInst.rs2 inst) &&& 0xffff))

/-- `FUNCT3_PRIV`. -/
def execPriv (inst : BitVec 32) : Exec β ExecFlags :=
  let funct7 := RVInst.funct7 inst
  if funct7 = Funct7.ecallEbreak then execEcallEbreak inst
  else if funct7 = Funct7.sretWfi then execSretWfi inst
  else if funct7 = Funct7.mret then execMret inst
  else if funct7 = Funct7.sfenceVma then execSfenceVma inst
  else pure .illegal

/-- `OPCODE_SYSTEM`. -/
def execSystem (inst : BitVec 32) : Exec β ExecFlags := do
  if RVInst.funct3 inst = Funct3.priv then execPriv inst
  else
    match csrCase inst (← get).core with
    | some (write, newValue) => execCsr inst write newValue
    | none => pure .illegal

/-! ## The 32-bit switch -/

/-- The switch on the major opcode. -/
def exec32 (inst : BitVec 32) : Exec β ExecFlags := do
  let c := (← get).core
  match RV64IOpCode.ofVal (RVInst.opcode inst) with
  | none => pure .illegal
  | some .lui => setInto (RVInst.rd inst) (RVInst.immU inst)
  | some .auipc => setInto (RVInst.rd inst) (RVInst.immU inst + c.currentProgramCounter)
  | some .jal =>
      jumpAndLink (RVInst.rd inst) (c.currentProgramCounter + 4)
        (c.currentProgramCounter + RVInst.immJ inst)
  | some .jalr =>
      jumpAndLink (RVInst.rd inst) (c.currentProgramCounter + 4)
        (c.GPR (RVInst.rs1 inst) + (RVInst.imm12 inst &&& ~~~1))
  | some .branch => execBranch inst
  | some .load => execLoad inst
  | some .store => execStore inst
  | some .opimm => execOpImm inst false (opimmCase inst)
  | some .opimm32 => execOpImm inst true (opimm32Case inst)
  | some .op => execOp inst false (opCase inst)
  | some .op32 => execOp inst true (op32Case inst)
  | some .amo => execAmo inst
  | some .fence => pure .plain
  | some .system => execSystem inst

end Exec

end MEmu
