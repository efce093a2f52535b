import MEmu.Lib.RiscV
import MEmu.MemOp

/-!
# What an instruction asks for

The two switches of `Step_CoreAPI` read the instruction word and the core, and
then do one thing: set a register, jump, make an access, enter or leave a trap.
`action` is the reading alone, with every check that needs no memory decided.
`Action.exec` is the doing, and `run_execute` says that the execute part of a
step is the one after the other.
-/

namespace MEmu

open Machine (onCore onMem)

/-! ## The data access of an instruction -/

/-- The data access of `OPCODE_LOAD`, with the register it goes to. -/
def loadOp (inst : BitVec 32) (c : RV64Core) : Option (MemOp × BitVec 5) :=
  (loadCase (RVInst.funct3 inst)).map fun p =>
    (.load (c.GPR (RVInst.rs1 inst) + RVInst.imm12 inst) p.1 p.2, RVInst.rd inst)

/-- The data access of `OPCODE_STORE`.  Its value goes nowhere. -/
def storeOp (inst : BitVec 32) (c : RV64Core) : Option (MemOp × BitVec 5) :=
  (storeCase (RVInst.funct3 inst)).map fun size =>
    (.store (c.GPR (RVInst.rs1 inst) + RVInst.immS inst) size (c.GPR (RVInst.rs2 inst)), 0)

/-- The data access of `OPCODE_AMO`. -/
def amoOp (inst : BitVec 32) (c : RV64Core) : Option (MemOp × BitVec 5) :=
  if RVInst.funct3 inst ≠ 0b010 ∧ RVInst.funct3 inst ≠ 0b011 then none
  else
    let addr := c.GPR (RVInst.rs1 inst)
    let size : Word := 1 <<< (RVInst.funct3 inst).toNat
    match AMOFunct.ofVal (BitField.get 2 5 (RVInst.funct7 inst)) with
    | none => none
    | some .lr =>
        if RVInst.rs2 inst ≠ 0 then none else some (.loadReserved addr size, RVInst.rd inst)
    | some .sc => some (.storeConditional addr size (c.GPR (RVInst.rs2 inst)), RVInst.rd inst)
    | some op => some (.amo op addr size (c.GPR (RVInst.rs2 inst)), RVInst.rd inst)

/-- The data access of a 32-bit instruction. -/
def memOp32 (inst : BitVec 32) (c : RV64Core) : Option (MemOp × BitVec 5) :=
  match RV64IOpCode.ofVal (RVInst.opcode inst) with
  | some .load => loadOp inst c
  | some .store => storeOp inst c
  | some .amo => amoOp inst c
  | _ => none

/-- The data access of a compressed instruction. -/
def memOp16 (inst : BitVec 32) (c : RV64Core) : Option (MemOp × BitVec 5) :=
  let base := c.GPR (RVC.regC inst 9 7)
  match RV64COpCode.ofVal (RVC.opcode inst) with
  | some .lw => some (.load (base + RVC.immLW inst) 4 true, RVC.regC inst 4 2)
  | some .ld => some (.load (base + RVC.immLD inst) 8 true, RVC.regC inst 4 2)
  | some .sw => some (.store (base + RVC.immLW inst) 4 (c.GPR (RVC.regC inst 4 2)), 0)
  | some .sd => some (.store (base + RVC.immLD inst) 8 (c.GPR (RVC.regC inst 4 2)), 0)
  | some .lwsp => some (.load (c.GPR 2 + RVC.immLWSP inst) 4 true, RVC.reg inst 11 7)
  | some .ldsp => some (.load (c.GPR 2 + RVC.immLDSP inst) 8 true, RVC.reg inst 11 7)
  | some .swsp => some (.store (c.GPR 2 + RVC.immSWSP inst) 4 (c.GPR (RVC.reg inst 6 2)), 0)
  | some .sdsp => some (.store (c.GPR 2 + RVC.immSDSP inst) 8 (c.GPR (RVC.reg inst 6 2)), 0)
  | _ => none

/-- The data access of an instruction, with the register that its value goes to. -/
def memOpOf (inst : BitVec 32) (c : RV64Core) : Option (MemOp × BitVec 5) :=
  if isCompressedInst inst then memOp16 inst c else memOp32 inst c

/-- The CSR and the value that an instruction writes if it gets as far as
`csr_write`. -/
def csrWriteOf (inst : BitVec 32) (c : RV64Core) : Option (BitVec 12 × Word) :=
  if isCompressedInst inst = false ∧ RV64IOpCode.ofVal (RVInst.opcode inst) = some .system then
    match csrCase inst c with
    | some (true, newValue) =>
        if c.csrOpPermissionCheck (RVInst.csrIndex inst) true then
          (c.csrRead (RVInst.csrIndex inst)).map fun csr_result =>
            (RVInst.csrIndex inst, newValue csr_result)
        else none
    | _ => none
  else none

/-! ## Actions -/

/-- What an instruction asks of the core. -/
inductive Action where
  | illegal
  | set (rd : BitVec 5) (value : Word)
  /-- The PC is set without a check. -/
  | jump (npc : Word)
  /-- A jump to a target that is checked, with a link where it is taken. -/
  | link (rd : BitVec 5) (link npc : Word)
  /-- A taken branch, whose target is checked. -/
  | branch (npc : Word)
  | access (op : MemOp) (rd : BitVec 5)
  /-- `csr_write` of `value`, and the old value into a register. -/
  | csr (a : CSRAddr) (value old : Word) (rd : BitVec 5)
  | ecall
  | ebreak
  | mret
  | sret
  | sfence (vaddr asid : Word)

namespace Action

def nop : Action := set 0 0

def setUnlessZero (imm : Word) (rd : BitVec 5) (value : Word) : Action :=
  if imm ≠ 0 then set rd value else nop

def jumpIf (taken : Bool) (npc : Word) : Action := if taken then jump npc else nop

def permitted (allowed : Bool) (a : Action) : Action := if allowed then a else illegal

def ofAccess : Option (MemOp × BitVec 5) → Action
  | none => illegal
  | some (op, rd) => access op rd

def ofOpImm (inst : BitVec 32) (op_32 : Bool) (c : RV64Core) : Option (ALUOp × Word) → Action
  | none => illegal
  | some (op, imm) =>
      set (RVInst.rd inst) (aluExec (c.GPR (RVInst.rs1 inst)) imm op op_32)

def ofOp (inst : BitVec 32) (op_32 : Bool) (c : RV64Core) : Option ALUOp → Action
  | none => illegal
  | some op =>
      set (RVInst.rd inst) (aluExec (c.GPR (RVInst.rs1 inst)) (c.GPR (RVInst.rs2 inst)) op op_32)

/-- `OPCODE_BRANCH`. -/
def ofBranch (inst : BitVec 32) (c : RV64Core) : Action :=
  match branchTaken (c.GPR (RVInst.rs1 inst)) (c.GPR (RVInst.rs2 inst)) (RVInst.funct3 inst) with
  | none => illegal
  | some false => nop
  | some true => branch (c.currentProgramCounter + RVInst.immB inst)

/-- The write of a CSR case, where `csr_write` has a case for the number. -/
def ofCsrWrite (inst : BitVec 32) (c : RV64Core) (value old : Word) : Action :=
  match CSRAddr.ofVal (RVInst.csrIndex inst) with
  | none => illegal
  | some a => permitted (c.csrWriteCase value a).isSome (csr a value old (RVInst.rd inst))

/-- The six CSR cases. -/
def ofCsr (inst : BitVec 32) (c : RV64Core) (write : Bool) (newValue : Word → Word) : Action :=
  if !c.csrOpPermissionCheck (RVInst.csrIndex inst) write then illegal
  else
    match c.csrRead (RVInst.csrIndex inst) with
    | none => illegal
    | some old =>
        if write then ofCsrWrite inst c (newValue old) old else set (RVInst.rd inst) old

/-- `FUNCT3_PRIV`. -/
def ofPriv (inst : BitVec 32) (c : RV64Core) : Action :=
  let funct7 := RVInst.funct7 inst
  let rs2 := RVInst.rs2 inst
  if funct7 = Funct7.ecallEbreak then
    if noRegs inst then
      if rs2 = 0 then ecall else if rs2 = 1 then ebreak else illegal
    else illegal
  else if funct7 = Funct7.sretWfi then
    if noRegs inst then
      if rs2 = 0b00010 then permitted c.sretPermitted sret
      else if rs2 = 0b00101 then nop else illegal
    else nop
  else if funct7 = Funct7.mret then
    if rs2 = 0b00010 ∧ noRegs inst = true then permitted (c.currentPrivMode == .mMode) mret
    else illegal
  else if funct7 = Funct7.sfenceVma then
    permitted c.sfencePermitted (sfence (c.GPR (RVInst.rs1 inst)) (c.GPR rs2 &&& 0xffff))
  else illegal

/-- `OPCODE_SYSTEM`. -/
def ofSystem (inst : BitVec 32) (c : RV64Core) : Action :=
  if RVInst.funct3 inst = Funct3.priv then ofPriv inst c
  else
    match csrCase inst c with
    | some (write, newValue) => ofCsr inst c write newValue
    | none => illegal

/-- `OPCODE_C_ADDI16SPN_LUI`. -/
def ofAddi16spnLui (inst : BitVec 32) (c : RV64Core) : Action :=
  let rd := RVC.reg inst 11 7
  if rd = 2 then setUnlessZero (RVC.immADDI16SP inst) rd (c.GPR rd + RVC.immADDI16SP inst)
  else setUnlessZero (RVC.immLUI inst) rd (RVC.immLUI inst)

/-- `OPCODE_C_ALU`. -/
def ofCAlu (inst : BitVec 32) (c : RV64Core) : Action :=
  let rs1 := RVC.regC inst 9 7
  if binaryConcat inst 11 11 0 = 0 then
    let imm : Word := (RVC.imm6 inst).setWidth 64
    if binaryConcat inst 10 10 0 ≠ 0 then
      setUnlessZero imm rs1 (aluExec (c.GPR rs1) imm .sra false)
    else setUnlessZero imm rs1 (aluExec (c.GPR rs1) imm .srl false)
  else if binaryConcat inst 10 10 0 = 0 then
    set rs1 (aluExec (c.GPR rs1) (RVC.immADDI inst) .and false)
  else
    let rs2 := RVC.regC inst 4 2
    let instr_12 := binaryConcat inst 12 12 0 != 0
    let funct2 : BitVec 2 := (binaryConcat inst 6 5 0).setWidth 2
    if funct2 = Funct2.sub then set rs1 (aluExec (c.GPR rs1) (c.GPR rs2) .sub instr_12)
    else if funct2 = Funct2.xorAddw then
      set rs1 (aluExec (c.GPR rs1) (c.GPR rs2) (if instr_12 then .add else .xor) instr_12)
    else if instr_12 then illegal
    else if funct2 = Funct2.or then set rs1 (aluExec (c.GPR rs1) (c.GPR rs2) .or false)
    else set rs1 (aluExec (c.GPR rs1) (c.GPR rs2) .and false)

/-- `OPCODE_C_JR_MV_EB_JALR_ADD`.  `C.JR` is a checked jump whose link goes nowhere. -/
def ofJrMvEbJalrAdd (inst : BitVec 32) (c : RV64Core) : Action :=
  let rs2 := RVC.reg inst 6 2
  let rs1 := RVC.reg inst 11 7
  if binaryConcat inst 12 12 0 ≠ 0 then
    if rs2 = 0 then
      if rs1 = 0 then ebreak
      else link 1 (c.currentProgramCounter + 2) (clearBit0 (c.GPR rs1))
    else set rs1 (aluExec (c.GPR rs1) (c.GPR rs2) .add false)
  else if rs2 = 0 then
    if rs1 = 0 then illegal else link 0 0 (clearBit0 (c.GPR rs1))
  else set rs1 (c.GPR rs2)

/-- The switch on the major opcode, read. -/
def of32 (inst : BitVec 32) (c : RV64Core) : Action :=
  let pc := c.currentProgramCounter
  match RV64IOpCode.ofVal (RVInst.opcode inst) with
  | none => illegal
  | some .lui => set (RVInst.rd inst) (RVInst.immU inst)
  | some .auipc => set (RVInst.rd inst) (RVInst.immU inst + pc)
  | some .jal => link (RVInst.rd inst) (pc + 4) (pc + RVInst.immJ inst)
  | some .jalr =>
      link (RVInst.rd inst) (pc + 4)
        (c.GPR (RVInst.rs1 inst) + (RVInst.imm12 inst &&& ~~~1))
  | some .branch => ofBranch inst c
  | some .load => ofAccess (loadOp inst c)
  | some .store => ofAccess (storeOp inst c)
  | some .opimm => ofOpImm inst false c (opimmCase inst)
  | some .opimm32 => ofOpImm inst true c (opimm32Case inst)
  | some .op => ofOp inst false c (opCase inst)
  | some .op32 => ofOp inst true c (op32Case inst)
  | some .amo => ofAccess (amoOp inst c)
  | some .fence => nop
  | some .system => ofSystem inst c

/-- The switch on `rvc_opcode`, read. -/
def of16 (inst : BitVec 32) (c : RV64Core) : Action :=
  let pc := c.currentProgramCounter
  let rd := RVC.reg inst 11 7
  match RV64COpCode.ofVal (RVC.opcode inst) with
  | none => illegal
  | some .addi4spn =>
      let imm := RVC.immADDI4SPN inst
      if imm ≠ 0 then set (RVC.regC inst 4 2) (c.GPR 2 + imm) else illegal
  | some .addi =>
      let imm := RVC.immADDI inst
      setUnlessZero imm rd (aluExec (c.GPR rd) imm .add false)
  | some .addiw => set rd (aluExec (c.GPR rd) (RVC.immADDI inst) .add true)
  | some .li => set rd (RVC.immADDI inst)
  | some .addi16spnLui => ofAddi16spnLui inst c
  | some .alu => ofCAlu inst c
  | some .j => jump (pc + RVC.immJ inst)
  | some .beqz => jumpIf (c.GPR (RVC.regC inst 9 7) == 0) (pc + RVC.immB inst)
  | some .bnez => jumpIf (c.GPR (RVC.regC inst 9 7) != 0) (pc + RVC.immB inst)
  | some .slli =>
      let imm : Word := (RVC.imm6 inst).setWidth 64
      setUnlessZero imm rd (aluExec (c.GPR rd) imm .sll false)
  | some .jrMvEbJalrAdd => ofJrMvEbJalrAdd inst c
  -- the other eight are the accesses
  | some _ => ofAccess (memOp16 inst c)

end Action

/-- What an instruction asks for. -/
def action (inst : BitVec 32) (c : RV64Core) : Action :=
  if isCompressedInst inst then .of16 inst c else .of32 inst c

/-- The action of a word whose major opcode is known. -/
theorem action_of_opcode {inst : BitVec 32} {c : RV64Core} {code : RV64IOpCode}
    (hop : RVInst.opcode inst = code.val) :
    action inst c = .of32 inst c ∧ RV64IOpCode.ofVal (RVInst.opcode inst) = some code := by
  refine ⟨if_neg ?_, hop ▸ RV64IOpCode.ofVal_val code⟩
  rw [isCompressedInst, hop]
  cases code <;> decide

/-! ## What is known of an action -/

/-- The actions of `inst`, with what the decode has checked for each. -/
inductive Decodes (inst : BitVec 32) (c : RV64Core) : Action → Prop where
  | illegal : Decodes inst c .illegal
  | set (rd : BitVec 5) (value : Word) : Decodes inst c (.set rd value)
  | jump (imm : Word) (himm : imm = RVC.immJ inst ∨ imm = RVC.immB inst) :
      Decodes inst c (.jump (c.currentProgramCounter + imm))
  | link (rd : BitVec 5) (ret npc : Word) : Decodes inst c (.link rd ret npc)
  | branch (npc : Word) : Decodes inst c (.branch npc)
  | access (op : MemOp) (rd : BitVec 5) (hop : memOpOf inst c = some (op, rd)) :
      Decodes inst c (.access op rd)
  | csr (a : CSRAddr) (value old : Word) (rd : BitVec 5) (c' : RV64Core)
      (hperm : c.csrOpPermissionCheck a.val true = true)
      (hwrite : csrWriteOf inst c = some (a.val, value))
      (h : c.csrWriteCase value a = some c') : Decodes inst c (.csr a value old rd)
  | ecall : Decodes inst c .ecall
  | ebreak : Decodes inst c .ebreak
  | mret (hinst : inst = RiscV.mret) (h : c.currentPrivMode = .mMode) : Decodes inst c .mret
  | sret (hinst : inst = RiscV.sret) (h : c.sretPermitted = true) : Decodes inst c .sret
  | sfence (vaddr asid : Word) (h : c.sfencePermitted = true) :
      Decodes inst c (.sfence vaddr asid)

namespace Decodes

variable {inst : BitVec 32} {c : RV64Core}

/-- What does nothing sets `x0` to zero. -/
theorem nop : Decodes inst c .nop := .set 0 0

/-- An instruction that is illegal where it is not permitted. -/
theorem permitted {allowed : Bool} {a : Action} (h : allowed = true → Decodes inst c a) :
    Decodes inst c (.permitted allowed a) := by
  cases allowed with
  | true => exact h rfl
  | false => exact .illegal

/-- An access, or an illegal instruction where there is none. -/
theorem ofAccess {ops : Option (MemOp × BitVec 5)} (h : memOpOf inst c = ops) :
    Decodes inst c (.ofAccess ops) := by
  cases ops with
  | none => exact .illegal
  | some p => exact .access p.1 p.2 h

/-- The instructions that are illegal with a zero immediate. -/
theorem setUnlessZero (imm : Word) (rd : BitVec 5) (value : Word) :
    Decodes inst c (.setUnlessZero imm rd value) := by
  unfold Action.setUnlessZero
  split
  · exact .set rd value
  · exact nop

/-- The two compressed branches. -/
theorem jumpIf (taken : Bool) {imm : Word} (himm : imm = RVC.immJ inst ∨ imm = RVC.immB inst) :
    Decodes inst c (.jumpIf taken (c.currentProgramCounter + imm)) := by
  cases taken with
  | true => exact .jump imm himm
  | false => exact nop

/-- The branches of 32 bits. -/
theorem ofBranch : Decodes inst c (.ofBranch inst c) := by
  unfold Action.ofBranch
  split
  · exact .illegal
  · exact nop
  · exact .branch _

/-- The computations with an immediate. -/
theorem ofOpImm (op_32 : Bool) (r : Option (ALUOp × Word)) :
    Decodes inst c (.ofOpImm inst op_32 c r) := by
  cases r with
  | none => exact .illegal
  | some p => exact .set _ _

/-- The computations between two registers. -/
theorem ofOp (op_32 : Bool) (r : Option ALUOp) : Decodes inst c (.ofOp inst op_32 c r) := by
  cases r with
  | none => exact .illegal
  | some op => exact .set _ _

/-- A word without registers is known from the rest of its fields. -/
theorem privileged_eq {funct7 : BitVec 7} {rs2 : BitVec 5}
    (hop : RVInst.opcode inst = RV64IOpCode.system.val) (h3 : RVInst.funct3 inst = 0)
    (h7 : RVInst.funct7 inst = funct7) (h2 : RVInst.rs2 inst = rs2) (hregs : noRegs inst = true) :
    inst = RiscV.rType funct7 rs2 0 0 0 0b1110011 := by
  simp only [noRegs, Bool.and_eq_true, beq_iff_eq] at hregs
  have hfields := RiscV.rType_get inst
  rw [show BitField.get 25 7 inst = funct7 from h7, show BitField.get 20 5 inst = rs2 from h2,
    show BitField.get 15 5 inst = 0 from hregs.1, show BitField.get 12 3 inst = 0 from h3,
    show BitField.get 7 5 inst = 0 from hregs.2,
    show BitField.get 0 7 inst = RV64IOpCode.system.val from hop] at hfields
  exact hfields.symm

/-- The row of `ecall`, `ebreak`, the returns and the fence. -/
theorem ofPriv (hop : RVInst.opcode inst = RV64IOpCode.system.val)
    (h3 : RVInst.funct3 inst = 0) : Decodes inst c (.ofPriv inst c) := by
  unfold Action.ofPriv
  dsimp only
  split
  · split
    · split
      · exact .ecall
      split
      · exact .ebreak
      · exact .illegal
    · exact .illegal
  split
  · split
    · split
      · refine permitted fun hperm => .sret ?_ hperm
        exact privileged_eq hop h3 ‹_› ‹_› ‹_›
      split
      · exact nop
      · exact .illegal
    · exact nop
  split
  · split
    · rename_i h
      refine permitted fun hmode => .mret ?_ (beq_iff_eq.mp hmode)
      exact privileged_eq hop h3 ‹_› h.1 h.2
    · exact .illegal
  split
  · exact permitted fun hperm => .sfence _ _ hperm
  · exact .illegal

/-- The accesses of the control registers. -/
theorem ofCsr (hinst : isCompressedInst inst = false ∧
      RV64IOpCode.ofVal (RVInst.opcode inst) = some .system)
    {write : Bool} {newValue : Word → Word} (hcase : csrCase inst c = some (write, newValue)) :
    Decodes inst c (.ofCsr inst c write newValue) := by
  unfold Action.ofCsr
  split
  · exact .illegal
  rename_i hperm
  have hperm : c.csrOpPermissionCheck (RVInst.csrIndex inst) write = true := by
    simpa using hperm
  split
  · exact .illegal
  rename_i old hread
  cases write with
  | false => exact .set _ _
  | true =>
      have hwrite : csrWriteOf inst c = some (RVInst.csrIndex inst, newValue old) := by
        simp only [csrWriteOf, if_pos hinst, hcase, if_pos hperm, hread, Option.map_some]
      rw [if_pos rfl, Action.ofCsrWrite]
      split
      · exact .illegal
      rename_i a ha
      refine permitted fun hsome => ?_
      obtain ⟨c', hc⟩ := Option.isSome_iff_exists.mp hsome
      rw [CSRAddr.val_of_ofVal ha] at hperm hwrite
      exact .csr a _ old _ c' hperm hwrite hc

/-- The opcode `SYSTEM`. -/
theorem ofSystem (hcomp : isCompressedInst inst = false)
    (hop : RV64IOpCode.ofVal (RVInst.opcode inst) = some .system) :
    Decodes inst c (.ofSystem inst c) := by
  unfold Action.ofSystem
  split
  · exact ofPriv (RV64IOpCode.val_of_ofVal hop) ‹_›
  split
  · exact ofCsr ⟨hcomp, hop⟩ ‹_›
  · exact .illegal

/-- Every instruction of 32 bits. -/
theorem of32 (hcomp : isCompressedInst inst = false) : Decodes inst c (.of32 inst c) := by
  have hmem : memOpOf inst c = memOp32 inst c := if_neg (by simp [hcomp])
  unfold Action.of32
  cases hop : RV64IOpCode.ofVal (RVInst.opcode inst) with
  | none => exact .illegal
  | some code =>
      rw [memOp32, hop] at hmem
      cases code with
      | lui | auipc => exact .set _ _
      | jal | jalr => exact .link _ _ _
      | branch => exact ofBranch
      | load | store | amo => exact ofAccess hmem
      | opimm | opimm32 => exact ofOpImm _ _
      | op | op32 => exact ofOp _ _
      | fence => exact nop
      | system => exact ofSystem hcomp hop

/-- The compressed row `MISC-ALU`. -/
theorem ofCAlu : Decodes inst c (.ofCAlu inst c) := by
  unfold Action.ofCAlu
  dsimp only
  split
  · split <;> exact setUnlessZero _ _ _
  split
  · exact .set _ _
  split
  · exact .set _ _
  split
  · exact .set _ _
  split
  · exact .illegal
  split <;> exact .set _ _

/-- The compressed row of `c.jr`. -/
theorem ofJrMvEbJalrAdd : Decodes inst c (.ofJrMvEbJalrAdd inst c) := by
  unfold Action.ofJrMvEbJalrAdd
  dsimp only
  split
  · split
    · split
      · exact .ebreak
      · exact .link _ _ _
    · exact .set _ _
  split
  · split
    · exact .illegal
    · exact .link _ _ _
  · exact .set _ _

/-- Every compressed instruction. -/
theorem of16 (hcomp : isCompressedInst inst = true) : Decodes inst c (.of16 inst c) := by
  have hmem : memOpOf inst c = memOp16 inst c := if_pos hcomp
  unfold Action.of16
  cases RV64COpCode.ofVal (RVC.opcode inst) with
  | none => exact .illegal
  | some code =>
      cases code with
      | addi4spn =>
          dsimp only
          split
          · exact .set _ _
          · exact .illegal
      | lw | ld | sw | sd | lwsp | ldsp | swsp | sdsp => exact ofAccess hmem
      | addi | slli => exact setUnlessZero _ _ _
      | addiw | li => exact .set _ _
      | addi16spnLui =>
          dsimp only [Action.ofAddi16spnLui]
          split <;> exact setUnlessZero _ _ _
      | alu => exact ofCAlu
      | j => exact .jump _ (.inl rfl)
      | beqz | bnez => exact jumpIf _ (.inr rfl)
      | jrMvEbJalrAdd => exact ofJrMvEbJalrAdd

end Decodes

/-- Every instruction decodes to its action. -/
theorem action_decodes (inst : BitVec 32) (c : RV64Core) : Decodes inst c (action inst c) := by
  unfold action
  split
  · exact .of16 ‹_›
  · exact .of32 (by simpa using ‹¬isCompressedInst inst = true›)

/-- An instruction with a data access asks for that access. -/
theorem action_of_memOp {inst : BitVec 32} {c : RV64Core} {p : MemOp × BitVec 5}
    (h : memOpOf inst c = some p) : action inst c = .access p.1 p.2 := by
  unfold memOpOf at h
  unfold action
  split
  · rw [if_pos ‹_›] at h
    unfold Action.of16
    cases hop : RV64COpCode.ofVal (RVC.opcode inst) with
    | none =>
        rw [memOp16, hop] at h
        cases h
    | some code =>
        cases code with
        | lw | ld | sw | sd | lwsp | ldsp | swsp | sdsp =>
            dsimp only
            rw [h]
            rfl
        | _ =>
            rw [memOp16, hop] at h
            cases h
  · rw [if_neg ‹_›] at h
    unfold Action.of32
    cases hop : RV64IOpCode.ofVal (RVInst.opcode inst) with
    | none =>
        rw [memOp32, hop] at h
        cases h
    | some code =>
        rw [memOp32, hop] at h
        cases code with
        | load | store | amo =>
            dsimp only at h ⊢
            rw [h]
            rfl
        | _ => cases h

/-- An instruction that gets as far as `csr_write` asks for it. -/
theorem action_of_csrWrite {inst : BitVec 32} {c c' : RV64Core} {a : CSRAddr} {value : Word}
    (h : csrWriteOf inst c = some (a.val, value)) (hw : c.csrWriteCase value a = some c') :
    ∃ old, action inst c = .csr a value old (RVInst.rd inst) := by
  unfold csrWriteOf at h
  split at h
  · rename_i hinst
    split at h
    · rename_i newValue hcase
      split at h
      · rename_i hperm
        obtain ⟨old, hread, hpair⟩ := Option.map_eq_some_iff.mp h
        obtain ⟨hindex, rfl⟩ := Prod.mk.inj hpair
        have hpriv : RVInst.funct3 inst ≠ Funct3.priv := by
          intro hp
          rw [csrCase, hp] at hcase
          cases hcase
        have hcsr : action inst c = .ofCsr inst c true newValue := by
          simp only [action, hinst.1, Bool.false_eq_true, if_false, Action.of32, hinst.2,
            Action.ofSystem, if_neg hpriv, hcase]
        rw [hindex] at hperm hread
        refine ⟨old, ?_⟩
        simp only [hcsr, Action.ofCsr, hindex, hperm, Bool.not_true, Bool.false_eq_true, if_false,
          hread, if_true, Action.ofCsrWrite, CSRAddr.ofVal_val, hw, Option.isSome_some,
          Action.permitted]
      · cases h
    · cases h
  · cases h

/-! ## Execution -/

/-- An assertion, as a run. -/
theorem run_cassert {σ : Type} {c : Prop} [Decidable c] (site : Abort) (s : σ) :
    (cassert c site).run s = if c then .ok () s else .error site s := by
  unfold cassert
  split <;> rfl

/-- `csrWrite` asserts the mode of `mtvec` and then has one case for each register. -/
theorem run_csrWrite (csr_index : BitVec 12) (csr_data : Word) (c : RV64Core) :
    (csrWrite csr_index csr_data).run c
      = if CSRAddr.ofVal csr_index = some .mtvec → TrapVector.mode csr_data ≤ 1 then
          match (CSRAddr.ofVal csr_index).bind (RV64Core.csrWriteCase csr_data c) with
          | some c' => .ok true c'
          | none => .ok false c
        else .error .mtvecMode c := by
  simp only [csrWrite, EStateM.run_bind, EStateM.run_get, run_cassert]
  by_cases hmode : CSRAddr.ofVal csr_index = some .mtvec → TrapVector.mode csr_data ≤ 1
  · simp only [if_pos hmode]
    cases (CSRAddr.ofVal csr_index).bind (RV64Core.csrWriteCase csr_data c) <;> rfl
  · simp only [if_neg hmode]

/-- A jump to an aligned target. -/
theorem run_jumpAndLink_aligned {β : Type} (m : Machine β) (rd : BitVec 5) (link : Word)
    {npc : Word} (h : npc % RV64Core.PC_ALIGN = 0) :
    (jumpAndLink rd link npc).run m
      = .ok .newPC { m with core := (m.core.setGPR rd link).setPC npc } := by
  rw [jumpAndLink, if_neg (not_not.mpr h)]
  rfl

section Exec

variable {β : Type} [MMIOBus β]

namespace Action

/-- What the core does of an action. -/
def exec : Action → Exec β ExecFlags
  | illegal => pure .illegal
  | set rd value => setInto rd value
  | jump npc => jumpTo npc
  | link rd ret npc => jumpAndLink rd ret npc
  | branch npc => do
      if npc % RV64Core.PC_ALIGN ≠ 0 then
        raiseException .instrMisalign npc
        pure .newPC
      else jumpTo npc
  | access op rd => op.exec rd
  | csr a value old rd => do
      if ← onCore (csrWrite a.val value) then setInto rd old else pure .illegal
  | ecall => do
      onCore MEmu.ecall
      pure .plain
  | ebreak => do
      onCore MEmu.ebreak
      pure .plain
  | mret => illegalUnless (onCore MEmu.mret)
  | sret => illegalUnless (onCore MEmu.sret)
  | sfence vaddr asid => illegalUnless (sfenceVma vaddr asid)

variable {m : Machine β}

/-- A test of permission before an action. -/
theorem run_permitted (allowed : Bool) (a : Action) :
    ((permitted allowed a).exec (β := β)).run m
      = if allowed then a.exec.run m else .ok .illegal m := by
  cases allowed <;> rfl

/-- The test of the immediate before a register write. -/
theorem run_setUnlessZero (imm : Word) (rd : BitVec 5) (value : Word) :
    (MEmu.setUnlessZero imm rd value).run m = ((setUnlessZero imm rd value).exec).run m := by
  unfold MEmu.setUnlessZero setUnlessZero
  split <;> rfl

/-- A jump under a condition. -/
theorem run_jumpIf (taken : Bool) (npc : Word) :
    (MEmu.jumpIf taken npc).run m = ((jumpIf taken npc).exec).run m := by
  cases taken <;> rfl

/-! ### The 32-bit switch -/

variable (inst : BitVec 32)

/-- A load into a register. -/
theorem run_loadInto (rd : BitVec 5) (addr size : Word) (signed : Bool) :
    (loadInto rd addr size signed).run m
      = ((access (.load addr size signed) rd).exec).run m := by
  rw [MemOp.loadInto_eq]
  rfl

/-- A store from a register. -/
theorem run_storeFrom (rs2 : BitVec 5) (addr size : Word) :
    (storeFrom rs2 addr size).run m
      = ((access (.store addr size (m.core.GPR rs2)) 0).exec).run m :=
  MemOp.storeFrom_eq rs2 addr size m

/-- The source decodes branches as `ofBranch` does. -/
theorem run_execBranch :
    (execBranch inst).run m = ((ofBranch inst m.core).exec).run m := by
  simp only [execBranch, ofBranch, EStateM.run_bind, EStateM.run_get]
  rcases branchTaken (m.core.GPR (RVInst.rs1 inst)) (m.core.GPR (RVInst.rs2 inst))
    (RVInst.funct3 inst) with _ | _ | _ <;> rfl

/-- It decodes loads as `loadOp` does, -/
theorem run_execLoad :
    (execLoad inst).run m = ((ofAccess (loadOp inst m.core)).exec).run m := by
  rw [execLoad, loadOp, EStateM.run_bind, EStateM.run_get]
  cases loadCase (RVInst.funct3 inst) with
  | none => rfl
  | some p => exact run_loadInto _ _ p.1 p.2

/-- stores as `storeOp` does, -/
theorem run_execStore :
    (execStore inst).run m = ((ofAccess (storeOp inst m.core)).exec).run m := by
  rw [execStore, storeOp, EStateM.run_bind, EStateM.run_get]
  cases storeCase (RVInst.funct3 inst) with
  | none => rfl
  | some size => exact run_storeFrom _ _ size

/-- and the atomic accesses as `amoOp` does. -/
theorem run_execAmo : (execAmo inst).run m = ((ofAccess (amoOp inst m.core)).exec).run m := by
  unfold execAmo amoOp
  split
  · rfl
  simp only [EStateM.run_bind, EStateM.run_get]
  cases AMOFunct.ofVal (BitField.get 2 5 (RVInst.funct7 inst)) with
  | none => rfl
  | some op =>
      cases op with
      | lr =>
          by_cases hrs2 : RVInst.rs2 inst ≠ 0
          · simp only [if_pos hrs2]
            rfl
          · simp only [if_neg hrs2, MemOp.loadReservedInto_eq]
            rfl
      | sc => exact MemOp.storeConditionalInto_eq _ _ _ _ m
      | swap | add | xor | and | or | min | max | minu | maxu =>
          exact MemOp.atomicInto_eq _ _ _ _ _ m

/-- The computations with an immediate. -/
theorem run_execOpImm (op_32 : Bool) (r : Option (ALUOp × Word)) :
    (execOpImm inst op_32 r).run m = ((ofOpImm inst op_32 m.core r).exec).run m := by
  cases r <;> rfl

/-- The computations between two registers. -/
theorem run_execOp (op_32 : Bool) (r : Option ALUOp) :
    (execOp inst op_32 r).run m = ((ofOp inst op_32 m.core r).exec).run m := by
  cases r <;> rfl

/-- A case that calls a function which is refused. -/
theorem run_illegalUnless {call : Exec β Bool} {allowed : Bool} {a : Action}
    (hexec : a.exec = illegalUnless call) (h : allowed = false → call.run m = .ok false m) :
    (illegalUnless call).run m = ((permitted allowed a).exec).run m := by
  rw [run_permitted, hexec]
  cases allowed with
  | true => rfl
  | false =>
      rw [illegalUnless, EStateM.run_bind, h rfl]
      rfl

/-- `sret`, behind its test. -/
theorem run_sret :
    (illegalUnless (onCore MEmu.sret)).run m
      = ((permitted m.core.sretPermitted sret).exec).run m := by
  refine run_illegalUnless rfl fun h => ?_
  simp only [Machine.run_onCore, MEmu.sret, EStateM.run_bind, EStateM.run_get, h]
  rfl

/-- `mret`, behind its test. -/
theorem run_mret :
    (illegalUnless (onCore MEmu.mret)).run m
      = ((permitted (m.core.currentPrivMode == .mMode) mret).exec).run m := by
  refine run_illegalUnless rfl fun h => ?_
  have h : m.core.currentPrivMode ≠ .mMode := by simpa using h
  simp only [Machine.run_onCore, MEmu.mret, EStateM.run_bind, EStateM.run_get, if_pos h]
  rfl

/-- `sfence.vma`, behind its test. -/
theorem run_sfenceVma (vaddr asid : Word) :
    (illegalUnless (sfenceVma vaddr asid)).run m
      = ((permitted m.core.sfencePermitted (sfence vaddr asid)).exec).run m := by
  refine run_illegalUnless rfl fun h => ?_
  simp only [sfenceVma, EStateM.run_bind, EStateM.run_get, h]
  rfl

/-- The row of these three, `ecall` and `ebreak`. -/
theorem run_execPriv : (execPriv inst).run m = ((ofPriv inst m.core).exec).run m := by
  unfold execPriv ofPriv
  dsimp only
  split
  · unfold execEcallEbreak
    split
    · split
      · rfl
      split <;> rfl
    · rfl
  split
  · unfold execSretWfi
    split
    · split
      · exact run_sret
      split <;> rfl
    · rfl
  split
  · unfold execMret
    split
    · exact run_mret
    · rfl
  split
  · rw [execSfenceVma, EStateM.run_bind, EStateM.run_get]
    exact run_sfenceVma (m.core.GPR (RVInst.rs1 inst)) (m.core.GPR (RVInst.rs2 inst) &&& 0xffff)
  · rfl

/-- A write of a control register, and then `rd`. -/
theorem run_execCsrWrite (value old : Word) :
    (do
      let ok ← onCore (csrWrite (RVInst.csrIndex inst) value)
      if ok then setInto (RVInst.rd inst) old else pure .illegal : Exec β ExecFlags).run m
      = ((ofCsrWrite inst m.core value old).exec).run m := by
  cases ha : CSRAddr.ofVal (RVInst.csrIndex inst) with
  | none =>
      simp only [ofCsrWrite, ha, EStateM.run_bind, Machine.run_onCore, run_csrWrite,
        reduceCtorEq, false_implies, if_true, Option.bind_none]
      rfl
  | some a =>
      rw [ofCsrWrite, ha]
      dsimp only
      rw [run_permitted, CSRAddr.val_of_ofVal ha]
      cases hw : m.core.csrWriteCase value a with
      | some c => rfl
      | none =>
          have hmode : some a = some .mtvec → TrapVector.mode value ≤ 1 := by
            intro h
            obtain rfl := Option.some.inj h
            cases hw
          simp only [EStateM.run_bind, Machine.run_onCore, run_csrWrite, CSRAddr.ofVal_val,
            if_pos hmode, Option.bind_some, hw]
          rfl

/-- A read of a control register before it. -/
theorem run_execCsr (write : Bool) (newValue : Word → Word) :
    (execCsr inst write newValue).run m = ((ofCsr inst m.core write newValue).exec).run m := by
  simp only [execCsr, ofCsr, EStateM.run_bind, EStateM.run_get]
  by_cases hperm : !m.core.csrOpPermissionCheck (RVInst.csrIndex inst) write
  · simp only [if_pos hperm]
    rfl
  simp only [if_neg hperm]
  cases m.core.csrRead (RVInst.csrIndex inst) with
  | none => rfl
  | some old =>
      cases write with
      | false => rfl
      | true => exact run_execCsrWrite inst (newValue old) old

/-- The opcode `SYSTEM`. -/
theorem run_execSystem : (execSystem inst).run m = ((ofSystem inst m.core).exec).run m := by
  unfold execSystem ofSystem
  split
  · exact run_execPriv inst
  simp only [EStateM.run_bind, EStateM.run_get]
  cases csrCase inst m.core with
  | none => rfl
  | some p => exact run_execCsr inst p.1 p.2

/-- The switch of 32 bits does what `of32` says. -/
theorem run_exec32 : (exec32 inst).run m = ((of32 inst m.core).exec).run m := by
  simp only [exec32, of32, EStateM.run_bind, EStateM.run_get]
  cases RV64IOpCode.ofVal (RVInst.opcode inst) with
  | none => rfl
  | some code =>
      cases code with
      | lui | auipc | jal | jalr | fence => rfl
      | branch => exact run_execBranch inst
      | load => exact run_execLoad inst
      | store => exact run_execStore inst
      | opimm | opimm32 => exact run_execOpImm inst _ _
      | op | op32 => exact run_execOp inst _ _
      | amo => exact run_execAmo inst
      | system => exact run_execSystem inst

/-! ### The compressed switch -/

/-- The two instructions of one compressed opcode. -/
theorem run_execAddi16spnLui :
    (execAddi16spnLui inst).run m = ((ofAddi16spnLui inst m.core).exec).run m := by
  simp only [execAddi16spnLui, ofAddi16spnLui, EStateM.run_bind, EStateM.run_get]
  split <;> exact run_setUnlessZero _ _ _

/-- The row `MISC-ALU`. -/
theorem run_execCAlu : (execCAlu inst).run m = ((ofCAlu inst m.core).exec).run m := by
  simp only [execCAlu, ofCAlu, EStateM.run_bind, EStateM.run_get]
  split
  · split <;> exact run_setUnlessZero _ _ _
  split
  · rfl
  split
  · rfl
  split
  · rfl
  split
  · rfl
  split <;> rfl

/-- `C.JR` links into `x0`, which stays as it is. -/
theorem run_execJr (npc : Word) : (execJr npc).run m = ((link 0 0 npc).exec).run m := by
  simp only [execJr, exec, jumpAndLink]
  split <;> rfl

/-- The row of `c.jr`. -/
theorem run_execJrMvEbJalrAdd :
    (execJrMvEbJalrAdd inst).run m = ((ofJrMvEbJalrAdd inst m.core).exec).run m := by
  simp only [execJrMvEbJalrAdd, ofJrMvEbJalrAdd, EStateM.run_bind, EStateM.run_get]
  split
  · split
    · split <;> rfl
    · rfl
  · split
    · split
      · rfl
      · exact run_execJr _
    · rfl

/-- The switch of 16 bits does what `of16` says. -/
theorem run_exec16 : (exec16 inst).run m = ((of16 inst m.core).exec).run m := by
  simp only [exec16, of16, EStateM.run_bind, EStateM.run_get]
  cases hop : RV64COpCode.ofVal (RVC.opcode inst) with
  | none => rfl
  | some code =>
      cases code with
      | addi4spn =>
          dsimp only
          split <;> rfl
      | lw | ld | lwsp | ldsp =>
          simp only [memOp16, hop, ofAccess]
          exact run_loadInto _ _ _ _
      | sw | sd | swsp | sdsp =>
          simp only [memOp16, hop, ofAccess]
          exact run_storeFrom _ _ _
      | addi | slli => exact run_setUnlessZero _ _ _
      | addiw | li | j => rfl
      | addi16spnLui => exact run_execAddi16spnLui inst
      | alu => exact run_execCAlu inst
      | beqz | bnez => exact run_jumpIf _ _
      | jrMvEbJalrAdd => exact run_execJrMvEbJalrAdd inst

end Action

/-- The execute part of a step is the action of its instruction. -/
theorem run_execute (inst : BitVec 32) (m : Machine β) :
    (execute inst).run m = ((action inst m.core).exec).run m := by
  unfold execute action
  split
  · exact Action.run_exec16 inst
  · exact Action.run_exec32 inst

end Exec

end MEmu
