import MEmu.Exec

/-!
# Compressed instructions

The switch of `Step_CoreAPI` on a 16-bit instruction.  The immediates are joined
by `binary_concat` from the instruction word as it was fetched, so the upper half
of the word is whatever follows the instruction in memory.
-/

namespace MEmu

open Machine (onCore)

namespace RVC

/-! ## Fields -/

/-- `rvc_opcode`. -/
def opcode (inst : BitVec 32) : BitVec 5 :=
  (((inst &&& 0b11) <<< 3) ||| ((inst >>> 13) &&& 0b111)).setWidth 5

/-- A register number of five bits. -/
def reg (inst : BitVec 32) (r l : Nat) : BitVec 5 := (binaryConcat inst r l 0).setWidth 5

/-- One of the registers `x8` to `x15`, named by three bits. -/
def regC (inst : BitVec 32) (r l : Nat) : BitVec 5 := 8 + (binaryConcat inst r l 0).setWidth 5

/-- `if (imm >> sign) imm |= fill`. -/
def signFill (sign : Nat) (fill : Word) (imm : BitVec 32) : Word :=
  let imm : Word := imm.setWidth 64
  if imm >>> sign ≠ 0 then imm ||| fill else imm

/-- `imm` of `C.ADDI4SPN`. -/
def immADDI4SPN (inst : BitVec 32) : Word :=
  (binaryConcat inst 12 11 4 ||| binaryConcat inst 10 7 6 ||| binaryConcat inst 6 6 2 |||
    binaryConcat inst 5 5 3).setWidth 64

/-- `imm` of `C.LW` and `C.SW`. -/
def immLW (inst : BitVec 32) : Word :=
  (binaryConcat inst 6 6 2 ||| binaryConcat inst 5 5 6 ||| binaryConcat inst 12 10 3).setWidth 64

/-- `imm` of `C.LD` and `C.SD`. -/
def immLD (inst : BitVec 32) : Word :=
  (binaryConcat inst 6 5 6 ||| binaryConcat inst 12 10 3).setWidth 64

/-- `imm` of `C.SRLI`, `C.SRAI` and `C.SLLI`, and of the six-bit immediates before
their sign is extended. -/
def imm6 (inst : BitVec 32) : BitVec 32 := binaryConcat inst 12 12 5 ||| binaryConcat inst 6 2 0

/-- `imm` of `C.ADDI`, `C.ADDIW`, `C.LI` and `C.ANDI`. -/
def immADDI (inst : BitVec 32) : Word := signFill 5 0xffffffffffffffc0 (imm6 inst)

/-- `imm` of `C.ADDI16SP`. -/
def immADDI16SP (inst : BitVec 32) : Word :=
  signFill 9 0xfffffffffffffc00 <|
    binaryConcat inst 12 12 9 ||| binaryConcat inst 6 6 4 ||| binaryConcat inst 5 5 6 |||
      binaryConcat inst 4 3 7 ||| binaryConcat inst 2 2 5

/-- `imm` of `C.LUI`. -/
def immLUI (inst : BitVec 32) : Word :=
  signFill 17 0xfffffffffffc0000 (binaryConcat inst 12 12 17 ||| binaryConcat inst 6 2 12)

/-- `imm` of `C.J`. -/
def immJ (inst : BitVec 32) : Word :=
  signFill 11 0xfffffffffffff000 <|
    binaryConcat inst 12 12 11 ||| binaryConcat inst 11 11 4 ||| binaryConcat inst 10 9 8 |||
      binaryConcat inst 8 8 10 ||| binaryConcat inst 7 7 6 ||| binaryConcat inst 6 6 7 |||
      binaryConcat inst 5 3 1 ||| binaryConcat inst 2 2 5

/-- `imm` of `C.BEQZ` and `C.BNEZ`. -/
def immB (inst : BitVec 32) : Word :=
  signFill 8 0xfffffffffffffe00 <|
    binaryConcat inst 12 12 8 ||| binaryConcat inst 11 10 3 ||| binaryConcat inst 6 5 6 |||
      binaryConcat inst 4 3 1 ||| binaryConcat inst 2 2 5

/-- `imm` of `C.LWSP`. -/
def immLWSP (inst : BitVec 32) : Word :=
  (binaryConcat inst 6 4 2 ||| binaryConcat inst 3 2 6 ||| binaryConcat inst 12 12 5).setWidth 64

/-- `imm` of `C.LDSP`. -/
def immLDSP (inst : BitVec 32) : Word :=
  (binaryConcat inst 6 5 3 ||| binaryConcat inst 4 2 6 ||| binaryConcat inst 12 12 5).setWidth 64

/-- `imm` of `C.SWSP`. -/
def immSWSP (inst : BitVec 32) : Word :=
  (binaryConcat inst 12 9 2 ||| binaryConcat inst 8 7 6).setWidth 64

/-- `imm` of `C.SDSP`. -/
def immSDSP (inst : BitVec 32) : Word :=
  (binaryConcat inst 12 10 3 ||| binaryConcat inst 9 7 6).setWidth 64

end RVC

section Exec

variable {β : Type} [MMIOBus β]

/-! ## Cases -/

/-- A case that does nothing with a zero immediate. -/
def setUnlessZero (imm : Word) (rd : BitVec 5) (value : Word) : Exec β ExecFlags :=
  if imm ≠ 0 then setInto rd value else pure .plain

/-- A case that jumps under a condition. -/
def jumpIf (taken : Bool) (npc : Word) : Exec β ExecFlags :=
  if taken then jumpTo npc else pure .plain

/-- `OPCODE_C_ADDI16SPN_LUI`. -/
def execAddi16spnLui (inst : BitVec 32) : Exec β ExecFlags := do
  let c := (← get).core
  let rd := RVC.reg inst 11 7
  if rd = 2 then
    setUnlessZero (RVC.immADDI16SP inst) rd (c.GPR rd + RVC.immADDI16SP inst)
  else setUnlessZero (RVC.immLUI inst) rd (RVC.immLUI inst)

/-- `OPCODE_C_ALU`. -/
def execCAlu (inst : BitVec 32) : Exec β ExecFlags := do
  let c := (← get).core
  let rs1 := RVC.regC inst 9 7
  if binaryConcat inst 11 11 0 = 0 then
    let imm : Word := (RVC.imm6 inst).setWidth 64
    if binaryConcat inst 10 10 0 ≠ 0 then
      setUnlessZero imm rs1 (aluExec (c.GPR rs1) imm .sra false)
    else setUnlessZero imm rs1 (aluExec (c.GPR rs1) imm .srl false)
  else if binaryConcat inst 10 10 0 = 0 then
    setInto rs1 (aluExec (c.GPR rs1) (RVC.immADDI inst) .and false)
  else
    let rs2 := RVC.regC inst 4 2
    let instr_12 := binaryConcat inst 12 12 0 != 0
    let funct2 : BitVec 2 := (binaryConcat inst 6 5 0).setWidth 2
    if funct2 = Funct2.sub then
      setInto rs1 (aluExec (c.GPR rs1) (c.GPR rs2) .sub instr_12)
    else if funct2 = Funct2.xorAddw then
      setInto rs1 (aluExec (c.GPR rs1) (c.GPR rs2) (if instr_12 then .add else .xor) instr_12)
    else if instr_12 then pure .illegal
    else if funct2 = Funct2.or then
      setInto rs1 (aluExec (c.GPR rs1) (c.GPR rs2) .or false)
    else setInto rs1 (aluExec (c.GPR rs1) (c.GPR rs2) .and false)

/-- `npc & 1` cleared, as `C.JR` and `C.JALR` do it. -/
def clearBit0 (npc : Word) : Word := if npc &&& 1 ≠ 0 then npc ^^^ 1 else npc

/-- `C.JR`. -/
def execJr (npc : Word) : Exec β ExecFlags := do
  if npc % RV64Core.PC_ALIGN ≠ 0 then
    raiseException .instrMisalign npc
    pure .plain
  else jumpTo npc

/-- `OPCODE_C_JR_MV_EB_JALR_ADD`. -/
def execJrMvEbJalrAdd (inst : BitVec 32) : Exec β ExecFlags := do
  let c := (← get).core
  let rs2 := RVC.reg inst 6 2
  let rs1 := RVC.reg inst 11 7
  if binaryConcat inst 12 12 0 ≠ 0 then
    if rs2 = 0 then
      if rs1 = 0 then
        onCore ebreak
        pure .plain
      else jumpAndLink 1 (c.currentProgramCounter + 2) (clearBit0 (c.GPR rs1))
    else setInto rs1 (aluExec (c.GPR rs1) (c.GPR rs2) .add false)
  else if rs2 = 0 then
    if rs1 = 0 then pure .illegal
    else execJr (clearBit0 (c.GPR rs1))
  else setInto rs1 (c.GPR rs2)

/-! ## The compressed switch -/

/-- The switch on `rvc_opcode`. -/
def exec16 (inst : BitVec 32) : Exec β ExecFlags := do
  let c := (← get).core
  let pc := c.currentProgramCounter
  let rd := RVC.reg inst 11 7
  match RV64COpCode.ofVal (RVC.opcode inst) with
  | none => pure .illegal
  | some .addi4spn =>
      let imm := RVC.immADDI4SPN inst
      if imm ≠ 0 then setInto (RVC.regC inst 4 2) (c.GPR 2 + imm) else pure .illegal
  | some .lw =>
      loadInto (RVC.regC inst 4 2) (c.GPR (RVC.regC inst 9 7) + RVC.immLW inst) 4 true
  | some .ld =>
      loadInto (RVC.regC inst 4 2) (c.GPR (RVC.regC inst 9 7) + RVC.immLD inst) 8 true
  | some .sw => storeFrom (RVC.regC inst 4 2) (c.GPR (RVC.regC inst 9 7) + RVC.immLW inst) 4
  | some .sd => storeFrom (RVC.regC inst 4 2) (c.GPR (RVC.regC inst 9 7) + RVC.immLD inst) 8
  | some .addi =>
      let imm := RVC.immADDI inst
      setUnlessZero imm rd (aluExec (c.GPR rd) imm .add false)
  | some .addiw => setInto rd (aluExec (c.GPR rd) (RVC.immADDI inst) .add true)
  | some .li => setInto rd (RVC.immADDI inst)
  | some .addi16spnLui => execAddi16spnLui inst
  | some .alu => execCAlu inst
  | some .j => jumpTo (pc + RVC.immJ inst)
  | some .beqz => jumpIf (c.GPR (RVC.regC inst 9 7) == 0) (pc + RVC.immB inst)
  | some .bnez => jumpIf (c.GPR (RVC.regC inst 9 7) != 0) (pc + RVC.immB inst)
  | some .slli =>
      let imm : Word := (RVC.imm6 inst).setWidth 64
      setUnlessZero imm rd (aluExec (c.GPR rd) imm .sll false)
  | some .lwsp => loadInto rd (c.GPR 2 + RVC.immLWSP inst) 4 true
  | some .ldsp => loadInto rd (c.GPR 2 + RVC.immLDSP inst) 8 true
  | some .jrMvEbJalrAdd => execJrMvEbJalrAdd inst
  | some .swsp => storeFrom (RVC.reg inst 6 2) (c.GPR 2 + RVC.immSWSP inst) 4
  | some .sdsp => storeFrom (RVC.reg inst 6 2) (c.GPR 2 + RVC.immSDSP inst) 8

end Exec

end MEmu
