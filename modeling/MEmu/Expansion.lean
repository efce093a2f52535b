import MEmu.RvcFields
import MEmu.StepEffect

/-!
# A compressed instruction means its expansion

Every row of `RiscV.Compressed.expand` is one `Agree`: the compressed switch on the
instruction and the 32-bit switch on its expansion run the same micro-operation.
Two runs of one micro-operation differ in the link alone, and the two exits differ
in the PC of an instruction that falls through, which `Matches` states for the step
from the decode on.

The zero register and the alignment of the PC are used where an expansion reads
`x0` or checks a target that the compressed case does not check.
-/

namespace MEmu

open Machine (onCore)
open RiscV (Reg)
open RiscV.Compressed

/-! ## Offsets and targets -/

/-- An aligned target stays as it is. -/
theorem clearBit0_aligned {npc : Word} (h : npc % RV64Core.PC_ALIGN = 0) : clearBit0 npc = npc := by
  have hbit : npc &&& 1 = 0 := by
    apply BitVec.eq_of_toNat_eq
    rw [BitVec.toNat_and]
    show npc.toNat &&& 1 = 0
    rw [Nat.and_one_is_mod]
    exact (aligned_iff npc).mp h
  rw [clearBit0, if_neg (not_not.mpr hbit)]

/-- Extending an offset before the zero is put below it changes nothing. -/
theorem extend_offset {n m : Nat} (off : BitVec n) (h0 : 0 < n) (h : n ≤ m) :
    (off.signExtend m ++ 0#1).signExtend 64 = (off ++ 0#1).signExtend 64 := by
  rw [BitField.signExtend_append 64 _ _ h0, BitField.signExtend_append 64 _ _ (by omega),
    BitField.signExtend_signExtend 64 _ h]

/-! ## Both switches run one micro-operation -/

section Agree

variable {β : Type} [MMIOBus β]

/-- The switches run `op`, on a compressed instruction and on a 32-bit one. -/
structure Agree (m : Machine β) (inst i : BitVec 32) (op : MicroOp) : Prop where
  short : (exec16 inst).run m = (op.exec 2).run m
  long : (exec32 i).run m = (op.exec 4).run m

variable (m : Machine β) (hi w : BitVec 16)

omit [MMIOBus β] in
/-- A register that gets its own value. -/
theorem setGPR_self (rd : Reg) (c : RV64Core) : c.setGPR rd (c.GPR rd) = c := by
  rw [RV64Core.setGPR]
  split
  · rfl
  · have h : (fun r => if r = rd then c.GPR rd else c.GPR r) = c.GPR := by
      funext r
      split
      · rw [‹r = rd›]
      · rfl
    rw [h]

omit [MMIOBus β] in
/-- A case that skips a zero immediate, where setting the register would keep its value. -/
theorem run_setUnlessZero {imm : Word} {rd : Reg} {value : Word}
    (h : imm = 0 → value = m.core.GPR rd) :
    (setUnlessZero imm rd value).run m = (setInto rd value).run m := by
  rw [setUnlessZero]
  split
  · rfl
  · rw [h (not_not.mp ‹_›), run_setInto, setGPR_self]
    rfl

/-- A conditional jump is the branch of either length. -/
theorem run_jumpIf (len : Word) (taken : Bool) (npc : Word) :
    (jumpIf taken npc).run m = ((MicroOp.branch taken npc).exec len).run m := by
  cases taken <;> rfl

/-- An addition or a shift by zero. -/
theorem aluExec_zero (a : Word) {op : ALUOp} (h : op ∈ [ALUOp.add, .sll, .srl, .sra]) :
    aluExec a 0 op false = a := by
  simp only [List.mem_cons, List.not_mem_nil, or_false] at h
  obtain rfl | rfl | rfl | rfl := h
  · exact BitVec.add_zero a
  · exact BitVec.shiftLeft_zero a
  · exact BitVec.ushiftRight_zero a
  · exact BitVec.sshiftRight_zero

/-! ### Loads and stores -/

/-- `c.lw` is `lw` with a scaled unsigned offset. -/
theorem agree_lw (h : quadrant w ++ funct3 w = RV64COpCode.lw.val) :
    Agree m (hi ++ w) (RiscV.lw (rdC w) (rs1C w) ((uimmLW w).setWidth 12))
      (.load (rdC w) (m.core.GPR (rs1C w) + (uimmLW w).setWidth 64) 4) := by
  constructor
  · simp only [exec16, rvc_ofVal hi w h, RVC.immLW_append, RVC.regC_rdC, RVC.regC_rs1C,
      run_get_bind, MicroOp.exec]
  · rw [RiscV.lw, run_exec32_load m _ _ _ rfl, BitField.signExtend_setWidth 64 _ (by decide)]

/-- `c.ld` is `ld` with a scaled unsigned offset. -/
theorem agree_ld (h : quadrant w ++ funct3 w = RV64COpCode.ld.val) :
    Agree m (hi ++ w) (RiscV.ld (rdC w) (rs1C w) ((uimmLD w).setWidth 12))
      (.load (rdC w) (m.core.GPR (rs1C w) + (uimmLD w).setWidth 64) 8) := by
  constructor
  · simp only [exec16, rvc_ofVal hi w h, RVC.immLD_append, RVC.regC_rdC, RVC.regC_rs1C,
      run_get_bind, MicroOp.exec]
  · rw [RiscV.ld, run_exec32_load m _ _ _ rfl, BitField.signExtend_setWidth 64 _ (by decide)]

/-- `c.lwsp` is `lw` from the stack. -/
theorem agree_lwsp (h : quadrant w ++ funct3 w = RV64COpCode.lwsp.val) :
    Agree m (hi ++ w) (RiscV.lw (rd w) 2 ((uimmLWSP w).setWidth 12))
      (.load (rd w) (m.core.GPR 2 + (uimmLWSP w).setWidth 64) 4) := by
  constructor
  · simp only [exec16, rvc_ofVal hi w h, RVC.immLWSP_append, RVC.reg_rd, run_get_bind,
      MicroOp.exec]
  · rw [RiscV.lw, run_exec32_load m _ _ _ rfl, BitField.signExtend_setWidth 64 _ (by decide)]

/-- `c.ldsp` is `ld` from the stack. -/
theorem agree_ldsp (h : quadrant w ++ funct3 w = RV64COpCode.ldsp.val) :
    Agree m (hi ++ w) (RiscV.ld (rd w) 2 ((uimmLDSP w).setWidth 12))
      (.load (rd w) (m.core.GPR 2 + (uimmLDSP w).setWidth 64) 8) := by
  constructor
  · simp only [exec16, rvc_ofVal hi w h, RVC.immLDSP_append, RVC.reg_rd, run_get_bind,
      MicroOp.exec]
  · rw [RiscV.ld, run_exec32_load m _ _ _ rfl, BitField.signExtend_setWidth 64 _ (by decide)]

/-- `c.sw` is `sw` with a scaled unsigned offset. -/
theorem agree_sw (h : quadrant w ++ funct3 w = RV64COpCode.sw.val) :
    Agree m (hi ++ w) (RiscV.sw (rdC w) (rs1C w) ((uimmLW w).setWidth 12))
      (.store (rdC w) (m.core.GPR (rs1C w) + (uimmLW w).setWidth 64) 4) := by
  constructor
  · simp only [exec16, rvc_ofVal hi w h, RVC.immLW_append, RVC.regC_rdC, RVC.regC_rs1C,
      run_get_bind, MicroOp.exec]
  · rw [RiscV.sw, run_exec32_store m _ _ _ rfl, BitField.signExtend_setWidth 64 _ (by decide)]

/-- `c.sd` is `sd` with a scaled unsigned offset. -/
theorem agree_sd (h : quadrant w ++ funct3 w = RV64COpCode.sd.val) :
    Agree m (hi ++ w) (RiscV.sd (rdC w) (rs1C w) ((uimmLD w).setWidth 12))
      (.store (rdC w) (m.core.GPR (rs1C w) + (uimmLD w).setWidth 64) 8) := by
  constructor
  · simp only [exec16, rvc_ofVal hi w h, RVC.immLD_append, RVC.regC_rdC, RVC.regC_rs1C,
      run_get_bind, MicroOp.exec]
  · rw [RiscV.sd, run_exec32_store m _ _ _ rfl, BitField.signExtend_setWidth 64 _ (by decide)]

/-- `c.swsp` is `sw` to the stack. -/
theorem agree_swsp (h : quadrant w ++ funct3 w = RV64COpCode.swsp.val) :
    Agree m (hi ++ w) (RiscV.sw (rs2 w) 2 ((uimmSWSP w).setWidth 12))
      (.store (rs2 w) (m.core.GPR 2 + (uimmSWSP w).setWidth 64) 4) := by
  constructor
  · simp only [exec16, rvc_ofVal hi w h, RVC.immSWSP_append, RVC.reg_rs2, run_get_bind,
      MicroOp.exec]
  · rw [RiscV.sw, run_exec32_store m _ _ _ rfl, BitField.signExtend_setWidth 64 _ (by decide)]

/-- `c.sdsp` is `sd` to the stack. -/
theorem agree_sdsp (h : quadrant w ++ funct3 w = RV64COpCode.sdsp.val) :
    Agree m (hi ++ w) (RiscV.sd (rs2 w) 2 ((uimmSDSP w).setWidth 12))
      (.store (rs2 w) (m.core.GPR 2 + (uimmSDSP w).setWidth 64) 8) := by
  constructor
  · simp only [exec16, rvc_ofVal hi w h, RVC.immSDSP_append, RVC.reg_rs2, run_get_bind,
      MicroOp.exec]
  · rw [RiscV.sd, run_exec32_store m _ _ _ rfl, BitField.signExtend_setWidth 64 _ (by decide)]

/-! ### Immediates -/

/-- `c.addi4spn` is `addi` of the stack pointer, if the immediate is not zero. -/
theorem agree_addi4spn (h : quadrant w ++ funct3 w = RV64COpCode.addi4spn.val)
    (hnz : uimmADDI4SPN w ≠ 0) :
    Agree m (hi ++ w) (RiscV.addi (rdC w) 2 ((uimmADDI4SPN w).setWidth 12))
      (.set (rdC w) (m.core.GPR 2 + (uimmADDI4SPN w).setWidth 64)) := by
  have himm : (uimmADDI4SPN w).setWidth 64 ≠ 0 := by
    intro hz
    exact hnz (BitField.setWidth_eq_zero (by decide) hz)
  constructor
  · simp only [exec16, rvc_ofVal hi w h, RVC.immADDI4SPN_append, RVC.regC_rdC, run_get_bind,
      if_pos himm, MicroOp.exec]
  · rw [run_exec32_addi, BitField.signExtend_setWidth 64 _ (by decide)]
    rfl

/-- `c.addi` is `addi` of a register to itself. -/
theorem agree_addi (h : quadrant w ++ funct3 w = RV64COpCode.addi.val) :
    Agree m (hi ++ w) (RiscV.addi (rd w) (rd w) ((imm6 w).signExtend 12))
      (.set (rd w) (aluExec (m.core.GPR (rd w)) ((imm6 w).signExtend 64) .add false)) := by
  constructor
  · simp only [exec16, rvc_ofVal hi w h, RVC.immADDI_append, RVC.reg_rd, run_get_bind]
    refine run_setUnlessZero m fun hz => ?_
    rw [hz, aluExec_zero _ (by decide)]
  · rw [run_exec32_addi, BitField.signExtend_signExtend 64 _ (by decide)]

/-- `c.addiw` is `addiw` of a register to itself. -/
theorem agree_addiw (h : quadrant w ++ funct3 w = RV64COpCode.addiw.val) :
    Agree m (hi ++ w) (RiscV.addiw (rd w) (rd w) ((imm6 w).signExtend 12))
      (.set (rd w) (aluExec (m.core.GPR (rd w)) ((imm6 w).signExtend 64) .add true)) := by
  constructor
  · simp only [exec16, rvc_ofVal hi w h, RVC.immADDI_append, RVC.reg_rd, run_get_bind,
      MicroOp.exec]
  · rw [run_exec32_addiw, BitField.signExtend_signExtend 64 _ (by decide)]

/-- `c.li` is `addi` of `x0`. -/
theorem agree_li (h : quadrant w ++ funct3 w = RV64COpCode.li.val) (hx0 : m.core.GPR 0 = 0) :
    Agree m (hi ++ w) (RiscV.addi (rd w) 0 ((imm6 w).signExtend 12))
      (.set (rd w) ((imm6 w).signExtend 64)) := by
  constructor
  · simp only [exec16, rvc_ofVal hi w h, RVC.immADDI_append, RVC.reg_rd, run_get_bind,
      MicroOp.exec]
  · have hadd : aluExec 0 ((imm6 w).signExtend 64) .add false = (imm6 w).signExtend 64 :=
      BitVec.zero_add _
    rw [run_exec32_addi, BitField.signExtend_signExtend 64 _ (by decide), hx0, hadd]

/-- `c.addi16sp` is `addi` of the stack pointer to itself, if the immediate is not zero. -/
theorem agree_addi16sp (h : quadrant w ++ funct3 w = RV64COpCode.addi16spnLui.val)
    (hrd : rd w = 2) (hnz : immADDI16SP w ≠ 0) :
    Agree m (hi ++ w) (RiscV.addi 2 2 ((immADDI16SP w).signExtend 12))
      (.set 2 (m.core.GPR 2 + (immADDI16SP w).signExtend 64)) := by
  have himm : (immADDI16SP w).signExtend 64 ≠ 0 := by
    intro hz
    exact hnz (BitField.signExtend_eq_zero (by decide) hz)
  constructor
  · simp only [exec16, rvc_ofVal hi w h, execAddi16spnLui, RVC.immADDI16SP_append, RVC.reg_rd, hrd,
      run_get_bind, if_true, setUnlessZero, if_pos himm, MicroOp.exec]
  · rw [run_exec32_addi, BitField.signExtend_signExtend 64 _ (by decide)]
    rfl

/-- `c.lui` is `lui`, if the immediate is not zero. -/
theorem agree_lui (h : quadrant w ++ funct3 w = RV64COpCode.addi16spnLui.val)
    (hrd : rd w ≠ 2) (hnz : imm6 w ≠ 0) :
    Agree m (hi ++ w) (RiscV.lui (rd w) ((imm6 w).signExtend 20))
      (.set (rd w) ((imm6 w ++ 0#12).signExtend 64)) := by
  have himm : (imm6 w ++ 0#12).signExtend 64 ≠ 0 := by
    intro hz
    have happ : imm6 w ++ 0#12 = 0 := BitField.signExtend_eq_zero (by decide) hz
    exact hnz (BitVec.append_left_inj 0#12 |>.mp happ)
  have hshift : (imm6 w ++ 0#12).signExtend 64 = (imm6 w).signExtend 64 <<< 12 := by
    rw [BitField.signExtend_append 64 _ _ (by decide)]
    exact BitVec.or_zero
  constructor
  · simp only [exec16, rvc_ofVal hi w h, execAddi16spnLui, RVC.immLUI_append, RVC.reg_rd, hrd,
      run_get_bind, if_false, setUnlessZero, if_pos himm, MicroOp.exec]
  · rw [run_exec32_lui, BitField.signExtend_signExtend 64 _ (by decide), hshift]

/-- `c.slli` is `slli` of a register by itself. -/
theorem agree_slli (h : quadrant w ++ funct3 w = RV64COpCode.slli.val) :
    Agree m (hi ++ w) (RiscV.slli (rd w) (rd w) (imm6 w))
      (.set (rd w) (aluExec (m.core.GPR (rd w)) ((imm6 w).setWidth 64) .sll false)) := by
  constructor
  · simp only [exec16, rvc_ofVal hi w h, RVC.imm6_word, RVC.reg_rd, run_get_bind]
    refine run_setUnlessZero m fun hz => ?_
    rw [hz, aluExec_zero _ (by decide)]
  · rw [run_exec32_slli]

/-! ### Jumps and branches -/

section Jumps

variable (hpc : m.core.currentProgramCounter % RV64Core.PC_ALIGN = 0)

include hpc in
/-- `c.j` is `jal` without a link. -/
theorem agree_j (h : quadrant w ++ funct3 w = RV64COpCode.j.val) :
    Agree m (hi ++ w) (RiscV.jal 0 ((offJ w).signExtend 20))
      (.jump (m.core.currentProgramCounter + (offJ w ++ 0#1).signExtend 64)) := by
  have hal := aligned_add hpc (aligned_offset (offJ w) (by decide))
  have hext := extend_offset (m := 20) (offJ w) (by decide) (by decide)
  constructor
  · simp only [exec16, rvc_ofVal hi w h, RVC.immJ_append, run_get_bind, MicroOp.exec]
  · rw [← hext] at hal ⊢
    exact run_exec32_jal m _ hal

include hpc in
/-- `c.beqz` is `beq` with `x0`. -/
theorem agree_beqz (h : quadrant w ++ funct3 w = RV64COpCode.beqz.val)
    (hx0 : m.core.GPR 0 = 0) :
    Agree m (hi ++ w) (RiscV.beq (rs1C w) 0 ((offB w).signExtend 12))
      (.branch (m.core.GPR (rs1C w) == 0)
        (m.core.currentProgramCounter + (offB w ++ 0#1).signExtend 64)) := by
  have hal := aligned_add hpc (aligned_offset (offB w) (by decide))
  have hext := extend_offset (m := 12) (offB w) (by decide) (by decide)
  constructor
  · simp only [exec16, rvc_ofVal hi w h, RVC.immB_append, RVC.regC_rs1C, run_get_bind]
    exact run_jumpIf m 2 _ _
  · rw [← hext] at hal ⊢
    refine run_exec32_branch m _ _ _ ?_ hal
    rw [hx0]
    rfl

include hpc in
/-- `c.bnez` is `bne` with `x0`. -/
theorem agree_bnez (h : quadrant w ++ funct3 w = RV64COpCode.bnez.val)
    (hx0 : m.core.GPR 0 = 0) :
    Agree m (hi ++ w) (RiscV.bne (rs1C w) 0 ((offB w).signExtend 12))
      (.branch (m.core.GPR (rs1C w) != 0)
        (m.core.currentProgramCounter + (offB w ++ 0#1).signExtend 64)) := by
  have hal := aligned_add hpc (aligned_offset (offB w) (by decide))
  have hext := extend_offset (m := 12) (offB w) (by decide) (by decide)
  constructor
  · simp only [exec16, rvc_ofVal hi w h, RVC.immB_append, RVC.regC_rs1C, run_get_bind]
    exact run_jumpIf m 2 _ _
  · rw [← hext] at hal ⊢
    refine run_exec32_branch m _ _ _ ?_ hal
    rw [hx0]
    rfl

end Jumps

/-! ### Register operations -/

section Alu

variable (h : quadrant w ++ funct3 w = RV64COpCode.alu.val)

include h in
/-- The row of `MISC-ALU` in the switch on the opcode. -/
theorem run_exec16_alu : (exec16 (hi ++ w)).run m = (execCAlu (hi ++ w)).run m := by
  simp only [exec16, rvc_ofVal hi w h, run_get_bind]

include h in
/-- `c.srli` is `srli` of a register by itself. -/
theorem agree_srli (h11 : w.getLsbD 11 = false) (h10 : w.getLsbD 10 = false) :
    Agree m (hi ++ w) (RiscV.srli (rs1C w) (rs1C w) (imm6 w))
      (.set (rs1C w) (aluExec (m.core.GPR (rs1C w)) ((imm6 w).setWidth 64) .srl false)) := by
  constructor
  · rw [run_exec16_alu m hi w h]
    simp (disch := decide) only [execCAlu, RVC.bit_eq_zero, h10, h11, RVC.imm6_word, RVC.regC_rs1C,
      run_get_bind, ne_eq, not_true, if_true, if_false]
    refine run_setUnlessZero m fun hz => ?_
    rw [hz, aluExec_zero _ (by decide)]
  · rw [run_exec32_srli]

include h in
/-- `c.srai` is `srai` of a register by itself. -/
theorem agree_srai (h11 : w.getLsbD 11 = false) (h10 : w.getLsbD 10 = true) :
    Agree m (hi ++ w) (RiscV.srai (rs1C w) (rs1C w) (imm6 w))
      (.set (rs1C w) (aluExec (m.core.GPR (rs1C w)) ((imm6 w).setWidth 64) .sra false)) := by
  constructor
  · rw [run_exec16_alu m hi w h]
    simp (disch := decide) only [execCAlu, RVC.bit_eq_zero, h10, h11, RVC.imm6_word, RVC.regC_rs1C,
      run_get_bind, ne_eq, Bool.true_eq_false, not_false_eq_true, if_true]
    refine run_setUnlessZero m fun hz => ?_
    rw [hz, aluExec_zero _ (by decide)]
  · rw [run_exec32_srai]

include h in
/-- `c.andi` is `andi` of a register by itself. -/
theorem agree_andi (h11 : w.getLsbD 11 = true) (h10 : w.getLsbD 10 = false) :
    Agree m (hi ++ w) (RiscV.andi (rs1C w) (rs1C w) ((imm6 w).signExtend 12))
      (.set (rs1C w) (aluExec (m.core.GPR (rs1C w)) ((imm6 w).signExtend 64) .and false)) := by
  constructor
  · rw [run_exec16_alu m hi w h]
    simp (disch := decide) only [execCAlu, RVC.bit_eq_zero, h10, h11, RVC.immADDI_append,
      RVC.regC_rs1C, run_get_bind, Bool.true_eq_false, if_true, if_false, MicroOp.exec]
  · rw [run_exec32_andi, BitField.signExtend_signExtend 64 _ (by decide)]

/-- The operation of a row of two registers, and whether it is one on words. -/
def aluRow (instr_12 : Bool) (funct2 : BitVec 2) : Option (ALUOp × Bool) :=
  if funct2 = Funct2.sub then some (.sub, instr_12)
  else if funct2 = Funct2.xorAddw then some (if instr_12 then .add else .xor, instr_12)
  else if instr_12 then none
  else if funct2 = Funct2.or then some (.or, false)
  else some (.and, false)

include h in
/-- The rows between two registers set the first. -/
theorem run_exec16_aluRow (h11 : w.getLsbD 11 = true) (h10 : w.getLsbD 10 = true) {op : ALUOp}
    {op_32 : Bool} (hrow : aluRow (w.getLsbD 12) (w.extractLsb 6 5) = some (op, op_32)) :
    (exec16 (hi ++ w)).run m
      = ((MicroOp.set (rs1C w)
          (aluExec (m.core.GPR (rs1C w)) (m.core.GPR (rdC w)) op op_32)).exec 2).run m := by
  rw [run_exec16_alu m hi w h]
  simp (disch := decide) only [execCAlu, RVC.bit_eq_zero, RVC.bit_bne_zero, h10, h11,
    RVC.funct2_append, RVC.regC_rs1C, RVC.regC_rdC, run_get_bind, Bool.true_eq_false, if_false,
    MicroOp.exec]
  unfold aluRow at hrow
  split at hrow
  · cases hrow
    rw [if_pos ‹_›]
  rw [if_neg ‹_›]
  split at hrow
  · cases hrow
    rw [if_pos ‹_›]
  rw [if_neg ‹_›]
  split at hrow
  · cases hrow
  rw [if_neg ‹_›]
  split at hrow
  · cases hrow
    rw [if_pos ‹_›]
  · cases hrow
    rw [if_neg ‹_›]

end Alu

/-! ### Jumps through a register, and the rows beside them -/

section Jr

variable (h : quadrant w ++ funct3 w = RV64COpCode.jrMvEbJalrAdd.val)

include h in
/-- The row of `c.jr`, `c.mv`, `c.ebreak`, `c.jalr` and `c.add`. -/
theorem run_exec16_jr : (exec16 (hi ++ w)).run m = (execJrMvEbJalrAdd (hi ++ w)).run m := by
  simp only [exec16, rvc_ofVal hi w h, run_get_bind]

include h in
/-- `c.jr` is `jalr` without a link, to an aligned register. -/
theorem agree_jr (h12 : w.getLsbD 12 = false) (hrs2 : rs2 w = 0) (hrd : rd w ≠ 0)
    (hal : m.core.GPR (rd w) % RV64Core.PC_ALIGN = 0) :
    Agree m (hi ++ w) (RiscV.jalr 0 (rd w) 0) (.jump (m.core.GPR (rd w))) := by
  constructor
  · rw [run_exec16_jr m hi w h]
    simp (disch := decide) only [execJrMvEbJalrAdd, RVC.bit_eq_zero, h12, RVC.reg_rs2, RVC.reg_rd,
      hrs2, hrd, run_get_bind, ne_eq, not_true, if_true, if_false, clearBit0_aligned hal, execJr,
      hal, MicroOp.exec]
  · rw [run_exec32_jalr]
    exact run_jumpAndLink_zero m (m.core.currentProgramCounter + 4) hal

include h in
/-- `c.jalr` is `jalr` with a link in `x1`, to an aligned register. -/
theorem agree_jalr (h12 : w.getLsbD 12 = true) (hrs2 : rs2 w = 0) (hrd : rd w ≠ 0)
    (hal : m.core.GPR (rd w) % RV64Core.PC_ALIGN = 0) :
    Agree m (hi ++ w) (RiscV.jalr 1 (rd w) 0) (.link 1 (m.core.GPR (rd w))) := by
  constructor
  · rw [run_exec16_jr m hi w h]
    simp (disch := decide) only [execJrMvEbJalrAdd, RVC.bit_eq_zero, h12, RVC.reg_rs2, RVC.reg_rd,
      hrs2, hrd, run_get_bind, ne_eq, Bool.true_eq_false, not_false_eq_true, if_true, if_false,
      clearBit0_aligned hal, MicroOp.exec]
  · exact run_exec32_jalr m 1 (rd w)

include h in
/-- `c.mv` is `add` of `x0`. -/
theorem agree_mv (h12 : w.getLsbD 12 = false) (hrs2 : rs2 w ≠ 0) (hx0 : m.core.GPR 0 = 0) :
    Agree m (hi ++ w) (RiscV.add (rd w) 0 (rs2 w)) (.set (rd w) (m.core.GPR (rs2 w))) := by
  constructor
  · rw [run_exec16_jr m hi w h]
    simp (disch := decide) only [execJrMvEbJalrAdd, RVC.bit_eq_zero, h12, RVC.reg_rs2, RVC.reg_rd,
      hrs2, run_get_bind, ne_eq, not_true, if_false, MicroOp.exec]
  · have hadd : aluExec 0 (m.core.GPR (rs2 w)) .add false = m.core.GPR (rs2 w) :=
      BitVec.zero_add _
    rw [RiscV.add, run_exec32_op m 0b0000000 _ _ 0b000 _ rfl, hx0, hadd]

include h in
/-- `c.add` is `add` of a register to itself. -/
theorem agree_add (h12 : w.getLsbD 12 = true) (hrs2 : rs2 w ≠ 0) :
    Agree m (hi ++ w) (RiscV.add (rd w) (rd w) (rs2 w))
      (.set (rd w) (aluExec (m.core.GPR (rd w)) (m.core.GPR (rs2 w)) .add false)) := by
  constructor
  · rw [run_exec16_jr m hi w h]
    simp (disch := decide) only [execJrMvEbJalrAdd, RVC.bit_eq_zero, h12, RVC.reg_rs2, RVC.reg_rd,
      hrs2, run_get_bind, ne_eq, Bool.true_eq_false, not_false_eq_true, if_true, if_false,
      MicroOp.exec]
  · exact run_exec32_op m 0b0000000 _ _ 0b000 _ rfl

include h in
/-- `c.ebreak` is `ebreak`. -/
theorem agree_ebreak (h12 : w.getLsbD 12 = true) (hrs2 : rs2 w = 0) (hrd : rd w = 0) :
    Agree m (hi ++ w) RiscV.ebreak .ebreak := by
  constructor
  · rw [run_exec16_jr m hi w h]
    simp (disch := decide) only [execJrMvEbJalrAdd, RVC.bit_eq_zero, h12, RVC.reg_rs2, RVC.reg_rd,
      hrs2, hrd, run_get_bind, ne_eq, Bool.true_eq_false, not_false_eq_true, if_true,
      MicroOp.exec]
  · exact run_exec32_ebreak m

end Jr

/-! ### Every row -/

/-- Bits 11 and 10 tell the rows of `MISC-ALU` apart. -/
theorem bits_of_select {v : BitVec 2} (h : w.extractLsb 11 10 = v) :
    w.getLsbD 11 = v.getLsbD 1 ∧ w.getLsbD 10 = v.getLsbD 0 := by
  subst h
  simp

theorem select_or : ∀ v : BitVec 2, v ≠ 0b00#2 → v ≠ 0b01#2 → v ≠ 0b10#2 → v = 0b11#2 := by decide

/-- Every instruction of the row `MISC-ALU` that has an expansion agrees with it. -/
theorem agree_expandAlu {i : BitVec 32} (h : quadrant w ++ funct3 w = RV64COpCode.alu.val)
    (hexp : expandAlu w = some i) : ∃ op : MicroOp, op.links = false ∧ Agree m (hi ++ w) i op := by
  unfold expandAlu at hexp
  split at hexp
  · cases hexp
    obtain ⟨h11, h10⟩ := bits_of_select w ‹_›
    exact ⟨_, rfl, agree_srli m hi w h h11 h10⟩
  split at hexp
  · cases hexp
    obtain ⟨h11, h10⟩ := bits_of_select w ‹_›
    exact ⟨_, rfl, agree_srai m hi w h h11 h10⟩
  split at hexp
  · cases hexp
    obtain ⟨h11, h10⟩ := bits_of_select w ‹_›
    exact ⟨_, rfl, agree_andi m hi w h h11 h10⟩
  obtain ⟨h11, h10⟩ := bits_of_select w (select_or _ ‹_› ‹_› ‹_›)
  have row {op : ALUOp} {op_32 : Bool}
      (hrow : aluRow (w.getLsbD 12) (w.extractLsb 6 5) = some (op, op_32)) :=
    run_exec16_aluRow m hi w h h11 h10 hrow
  split at hexp
  · have h12 := bit12_of_zero w ‹_›
    rw [h12] at row
    split at hexp
    · cases hexp
      exact ⟨_, rfl, row (by rw [‹w.extractLsb 6 5 = _›]; rfl), run_exec32_op m _ _ _ _ _ rfl⟩
    split at hexp
    · cases hexp
      exact ⟨_, rfl, row (by rw [‹w.extractLsb 6 5 = _›]; rfl), run_exec32_op m _ _ _ _ _ rfl⟩
    split at hexp
    · cases hexp
      exact ⟨_, rfl, row (by rw [‹w.extractLsb 6 5 = _›]; rfl), run_exec32_op m _ _ _ _ _ rfl⟩
    · cases hexp
      have h65 := select_or _ ‹¬ w.extractLsb 6 5 = 0b00#2› ‹_› ‹_›
      exact ⟨_, rfl, row (by rw [h65]; rfl), run_exec32_op m _ _ _ _ _ rfl⟩
  · have h12 := bit12_of_ne w ‹_›
    rw [h12] at row
    split at hexp
    · cases hexp
      exact ⟨_, rfl, row (by rw [‹w.extractLsb 6 5 = _›]; rfl), run_exec32_op32 m _ _ _ _ _ rfl⟩
    split at hexp
    · cases hexp
      exact ⟨_, rfl, row (by rw [‹w.extractLsb 6 5 = _›]; rfl), run_exec32_op32 m _ _ _ _ _ rfl⟩
    · cases hexp

/-- What the two switches do on a compressed instruction and its expansion: one
micro-operation, which links where the instruction is `C.JALR`. -/
inductive Expands (i : BitVec 32) : Prop where
  | plain (op : MicroOp) (hj : ¬IsJalr w) (hop : op.links = false)
      (h : Agree m (hi ++ w) i op)
  | jalr (hj : IsJalr w) (hal : m.core.GPR (rd w) % RV64Core.PC_ALIGN = 0)
      (h : Agree m (hi ++ w) i (.link 1 (m.core.GPR (rd w))))

/-- Every instruction of the row of `c.jr` and its expansion do one thing. -/
theorem expands_jr {i : BitVec 32} (hq : quadrant w = 0b10#2) (hf : funct3 w = 0b100#3)
    (hexp : expandJr w = some i) (hx0 : m.core.GPR 0 = 0)
    (heven : IsJr w ∨ IsJalr w → m.core.GPR (rd w) % RV64Core.PC_ALIGN = 0) :
    Expands m hi w i := by
  have h : quadrant w ++ funct3 w = RV64COpCode.jrMvEbJalrAdd.val := by rw [hq, hf]; rfl
  unfold expandJr at hexp
  split at hexp
  · have h12 := bit12_of_zero w ‹_›
    have hj : ¬IsJalr w := by
      rintro ⟨_, _, hone, _⟩
      rw [‹w.extractLsb 12 12 = 0#1›] at hone
      cases hone
    split at hexp
    · split at hexp
      · cases hexp
      · cases hexp
        have hjr : IsJr w := ⟨hq, hf, ‹_›, ‹_›, ‹_›⟩
        exact .plain _ hj rfl (agree_jr m hi w h h12 ‹_› ‹_› (heven (.inl hjr)))
    · cases hexp
      exact .plain _ hj rfl (agree_mv m hi w h h12 ‹_› hx0)
  · have h12 := bit12_of_ne w ‹_›
    split at hexp
    · split at hexp
      · cases hexp
        have hj : ¬IsJalr w := fun hj => hj.2.2.2.2 ‹_›
        exact .plain _ hj rfl (agree_ebreak m hi w h h12 ‹_› ‹_›)
      · cases hexp
        have hj : IsJalr w := ⟨hq, hf, one_of_ne_zero _ ‹_›, ‹_›, ‹_›⟩
        have hal := heven (.inr hj)
        exact .jalr hj hal (agree_jalr m hi w h h12 ‹_› ‹_› hal)
    · cases hexp
      have hj : ¬IsJalr w := fun hj => ‹rs2 w ≠ 0› hj.2.2.2.1
      exact .plain _ hj rfl (agree_add m hi w h h12 ‹_›)

/-- A branch has no link. -/
theorem branch_links (taken : Bool) (npc : Word) : (MicroOp.branch taken npc).links = false := by
  cases taken <;> rfl

/-- Every halfword that has an expansion does what the expansion does. -/
theorem expands_of_expand {i : BitVec 32} (hexp : expand w = some i) (hx0 : m.core.GPR 0 = 0)
    (hpc : m.core.currentProgramCounter % RV64Core.PC_ALIGN = 0)
    (heven : IsJr w ∨ IsJalr w → m.core.GPR (rd w) % RV64Core.PC_ALIGN = 0) :
    Expands m hi w i := by
  have hplain {q : BitVec 2} {f : BitVec 3} (hq : quadrant w = q) (hf : funct3 w = f)
      (hne : q ++ f ≠ 0b10100#5) : ¬IsJalr w := by
    rintro ⟨hq', hf', _⟩
    rw [← hq, ← hf, hq', hf'] at hne
    exact hne rfl
  have hrow {q : BitVec 2} {f : BitVec 3} (hq : quadrant w = q) (hf : funct3 w = f) :
      quadrant w ++ funct3 w = q ++ f := by rw [hq, hf]
  unfold expand at hexp
  split at hexp
  case h_17 hq hf => exact expands_jr m hi w hq hf hexp hx0 heven
  case h_1 hq hf =>
      split at hexp
      · cases hexp
      · cases hexp
        exact .plain _ (hplain hq hf (by decide)) rfl (agree_addi4spn m hi w (hrow hq hf) ‹_›)
  case h_2 hq hf =>
      cases hexp
      exact .plain _ (hplain hq hf (by decide)) rfl (agree_lw m hi w (hrow hq hf))
  case h_3 hq hf =>
      cases hexp
      exact .plain _ (hplain hq hf (by decide)) rfl (agree_ld m hi w (hrow hq hf))
  case h_4 hq hf =>
      cases hexp
      exact .plain _ (hplain hq hf (by decide)) rfl (agree_sw m hi w (hrow hq hf))
  case h_5 hq hf =>
      cases hexp
      exact .plain _ (hplain hq hf (by decide)) rfl (agree_sd m hi w (hrow hq hf))
  case h_6 hq hf =>
      cases hexp
      exact .plain _ (hplain hq hf (by decide)) rfl (agree_addi m hi w (hrow hq hf))
  case h_7 hq hf =>
      split at hexp
      · cases hexp
      · cases hexp
        exact .plain _ (hplain hq hf (by decide)) rfl (agree_addiw m hi w (hrow hq hf))
  case h_8 hq hf =>
      cases hexp
      exact .plain _ (hplain hq hf (by decide)) rfl (agree_li m hi w (hrow hq hf) hx0)
  case h_9 hq hf =>
      have hj := hplain hq hf (by decide)
      unfold expandLui at hexp
      split at hexp
      · split at hexp
        · cases hexp
        · cases hexp
          exact .plain _ hj rfl (agree_addi16sp m hi w (hrow hq hf) ‹_› ‹_›)
      · split at hexp
        · cases hexp
        · cases hexp
          exact .plain _ hj rfl (agree_lui m hi w (hrow hq hf) ‹_› ‹_›)
  case h_10 hq hf =>
      obtain ⟨op, hop, h⟩ := agree_expandAlu m hi w (hrow hq hf) hexp
      exact .plain op (hplain hq hf (by decide)) hop h
  case h_11 hq hf =>
      cases hexp
      exact .plain _ (hplain hq hf (by decide)) rfl (agree_j m hi w hpc (hrow hq hf))
  case h_12 hq hf =>
      cases hexp
      exact .plain _ (hplain hq hf (by decide)) (branch_links _ _)
        (agree_beqz m hi w hpc (hrow hq hf) hx0)
  case h_13 hq hf =>
      cases hexp
      exact .plain _ (hplain hq hf (by decide)) (branch_links _ _)
        (agree_bnez m hi w hpc (hrow hq hf) hx0)
  case h_14 hq hf =>
      cases hexp
      exact .plain _ (hplain hq hf (by decide)) rfl (agree_slli m hi w (hrow hq hf))
  case h_15 hq hf =>
      split at hexp
      · cases hexp
      · cases hexp
        exact .plain _ (hplain hq hf (by decide)) rfl (agree_lwsp m hi w (hrow hq hf))
  case h_16 hq hf =>
      split at hexp
      · cases hexp
      · cases hexp
        exact .plain _ (hplain hq hf (by decide)) rfl (agree_ldsp m hi w (hrow hq hf))
  case h_18 hq hf =>
      cases hexp
      exact .plain _ (hplain hq hf (by decide)) rfl (agree_swsp m hi w (hrow hq hf))
  case h_19 hq hf =>
      cases hexp
      exact .plain _ (hplain hq hf (by decide)) rfl (agree_sdsp m hi w (hrow hq hf))
  case h_20 => cases hexp

end Agree

/-! ## The PC of an instruction that falls through -/

/-- The PC of the two cores is the same. -/
def RV64Core.SamePC (c c' : RV64Core) : Prop := c'.currentProgramCounter = c.currentProgramCounter

instance : Std.Refl RV64Core.SamePC := ⟨fun _ => rfl⟩

instance : IsTrans RV64Core RV64Core.SamePC := ⟨fun _ _ _ h h' => Eq.trans h' h⟩

/-- A trap keeps the PC of the instruction. -/
theorem takeTrap_samePC (cause tval : Word) (c : RV64Core) :
    c.SamePC (c.takeTrap cause tval) := by
  unfold RV64Core.takeTrap
  split <;> rfl

/-- So does a write to a register. -/
theorem setGPR_samePC (rd : Reg) (value : Word) (c : RV64Core) :
    c.SamePC (c.setGPR rd value) := by
  unfold RV64Core.setGPR
  split <;> rfl

/-- `raiseTrap` keeps the PC, whether or not it aborts. -/
theorem raiseTrap_samePC (cause tval : Word) : Run.Keeps RV64Core.SamePC (raiseTrap cause tval) := by
  unfold raiseTrap
  refine .bind (fun c => ?_) fun _ => .bind .get fun _ => .bind (cassert_keeps _) fun _ =>
    .bind (cassert_keeps _) fun _ => .bind (takeTrap_samePC cause tval) fun _ =>
    .bind .get fun _ => cassert_keeps _
  exact Run.Sat.modify rfl

section Settles

variable {β : Type}

/-- The PC of the core of the two machines is the same. -/
def Machine.SamePC (m m' : Machine β) : Prop := m.core.SamePC m'.core

instance : Std.Refl (Machine.SamePC (β := β)) := ⟨fun _ => rfl⟩

instance : IsTrans (Machine β) Machine.SamePC := ⟨fun _ _ _ h h' => Eq.trans h' h⟩

/-- A computation on the core keeps the PC where it does so there. -/
theorem onCore_samePC {α : Type} {x : CoreM α} (h : Run.Keeps RV64Core.SamePC x) :
    Run.Keeps (Machine.SamePC (β := β)) (onCore x) := by
  intro m
  rw [Run.Sat, Machine.run_onCore]
  have hx := h m.core
  rw [Run.Sat] at hx
  cases hr : x.run m.core <;> rw [hr] at hx <;> exact hx

/-- A computation on memory keeps the PC. -/
theorem onMem_samePC {α : Type} (x : MMUEnv → MMUM β α) :
    Run.Keeps (Machine.SamePC (β := β)) (Machine.onMem x) := by
  intro m
  rw [Run.Sat, Machine.run_onMem]
  cases (x m.core.mmuEnv).run m.mem <;> rfl

/-- A case that stays legal, and leaves the PC as it was where it sets no flag. -/
def Settles [MMIOBus β] (m : Machine β) (x : Exec β ExecFlags) : Prop :=
  Run.Sat m x
    (fun flags m' => flags.is_instr_illegal = false ∧
      (flags.is_new_pc_set = false → m.core.SamePC m'.core))
    (fun _ _ => True)

variable [MMIOBus β]

/-- What keeps the PC and has no exit flags settles. -/
theorem settles_plain {α : Type} (m : Machine β) {x : Exec β α} (h : Run.Keeps Machine.SamePC x) :
    Settles m (do let _ ← x; pure .plain) :=
  .bind ((h m).mono (fun _ _ hs => .pure ⟨rfl, fun _ => hs⟩) fun _ _ _ => True.intro)

omit [MMIOBus β] in
/-- An exception keeps the PC. -/
theorem raiseException_samePC (cause : ExecFeedbackCode) (tval : Word) :
    Run.Keeps (Machine.SamePC (β := β)) (raiseException cause tval) :=
  onCore_samePC (raiseTrap_samePC _ tval)

/-- A register write settles. -/
theorem setInto_settles (m : Machine β) (rd : Reg) (value : Word) :
    Settles m (setInto rd value) :=
  settles_plain m (x := onCore (modify (RV64Core.setGPR rd value)))
    (onCore_samePC fun c => setGPR_samePC rd value c)

/-- A jump settles, whether it is taken or traps. -/
theorem jumpTo_settles (m : Machine β) (npc : Word) : Settles m (jumpTo npc) := by
  rw [Settles, Run.Sat, run_jumpTo]
  exact ⟨rfl, fun h => by cases h⟩

/-- A load keeps the PC. -/
theorem memRead_samePC (addr size : Word) (buffer : List Byte) :
    Run.Keeps (Machine.SamePC (β := β)) (memRead addr size buffer) := by
  refine .ite (.bind (raiseException_samePC _ _) fun _ => .pure _) ?_
  refine .bind (onMem_samePC _) fun r => ?_
  exact .ite (.pure _) (.bind (raiseException_samePC _ _) fun _ => .pure _)

/-- A store keeps the PC. -/
theorem memWrite_samePC (addr size : Word) (buffer : List Byte) :
    Run.Keeps (Machine.SamePC (β := β)) (memWrite addr size buffer) := by
  refine .ite (.bind (raiseException_samePC _ _) fun _ => .pure _) ?_
  refine .bind (onMem_samePC _) fun r => ?_
  exact .ite (.pure _) (.bind (raiseException_samePC _ _) fun _ => .pure _)

/-- Everything that a halfword or its expansion does settles. -/
theorem MicroOp.exec_settles (m : Machine β) (len : Word) (op : MicroOp) :
    Settles m (op.exec len) := by
  cases op with
  | skip => exact .pure ⟨rfl, fun _ => rfl⟩
  | set rd value => exact setInto_settles m rd value
  | load rd addr size =>
      refine .bind (.get (.bind ((memRead_samePC addr size _ m).mono (fun r m' h => ?_)
        fun _ _ _ => True.intro)))
      refine .ite (fun _ => ?_) fun _ => .pure ⟨rfl, fun _ => h⟩
      refine (setInto_settles m' rd _).mono (fun _ _ hs => ⟨hs.1, fun hf => ?_⟩) fun _ _ => id
      exact (hs.2 hf).trans h
  | store rs2 addr size =>
      exact .bind (.get (settles_plain m (memWrite_samePC addr size _)))
  | jump npc => exact jumpTo_settles m npc
  | link rd npc =>
      refine .bind (.get ?_)
      by_cases hal : npc % RV64Core.PC_ALIGN = 0
      · rw [Run.Sat, run_jumpAndLink_aligned m rd _ hal]
        exact ⟨rfl, fun h => by cases h⟩
      · rw [jumpAndLink, if_pos hal]
        exact settles_plain m (raiseException_samePC _ npc)
  | ebreak => exact settles_plain m (onCore_samePC (raiseTrap_samePC _ 0))

end Settles

/-! ## The two steps -/

section Steps

variable {β : Type}

/-- A run of a switch that neither traps nor sets the PC. -/
def FallsThrough : EStateM.Result Abort (Machine β) ExecFlags → Prop
  | .ok flags m => flags = .plain ∧ m.core.needTrap = false
  | .error _ _ => False

/-- What a step on a compressed instruction leaves, beside a step on its expansion from
the same state `m`. -/
structure Matches (w : BitVec 16) (falls : Prop) (m s s' : Machine β) : Prop where
  mem : s.mem = s'.mem
  core : s.core = { s'.core with
    GPR := s.core.GPR
    currentProgramCounter := s.core.currentProgramCounter }
  gpr : ∀ r, ¬(IsJalr w ∧ r = 1) → s.core.GPR r = s'.core.GPR r
  link : IsJalr w → s.core.GPR 1 = m.core.currentProgramCounter + 2 ∧
    s'.core.GPR 1 = m.core.currentProgramCounter + 4
  fall : falls → s.core.currentProgramCounter = m.core.currentProgramCounter + 2 ∧
    s'.core.currentProgramCounter = m.core.currentProgramCounter + 4
  pc : ¬falls → s.core.currentProgramCounter = s'.core.currentProgramCounter

/-- The exit path, after a case that is legal. -/
theorem run_exit_legal (inst : BitVec 32) (comp : Bool) {flags : ExecFlags} (m : Machine β)
    (h : flags.is_instr_illegal = false) :
    let c := m.core.retire comp flags
    (onCore (stepExit inst comp flags)).run m
      = if RV64Core.statusBlank m.core.status = true then .ok .ok { m with core := c }
        else .error .statusBlank { m with core := c } := by
  have hrun := run_stepExit (c := m.core) inst comp flags fun hill => by rw [h] at hill; cases hill
  rw [atExit_legal h] at hrun
  rw [Machine.run_onCore, hrun]
  intro c
  have hstatus : (m.core.retire comp flags).status = m.core.status := rfl
  rw [hstatus]
  by_cases hb : RV64Core.statusBlank m.core.status = true
  · rw [if_pos hb, if_pos hb]
  · rw [if_neg hb, if_neg hb]

/-- The exit paths of the two instructions, from one state and with one pair of flags. -/
theorem exit_matches {w : BitVec 16} (hj : ¬IsJalr w) (inst i : BitVec 32) (flags : ExecFlags)
    {m m' : Machine β} (h : flags.is_instr_illegal = false)
    (hpc : flags.is_new_pc_set = false → m.core.SamePC m'.core) :
    let r := (onCore (stepExit inst true flags)).run m'
    let r' := (onCore (stepExit i false flags)).run m'
    Run.result r = Run.result r' ∧
      Matches w (FallsThrough (.ok flags m')) m (Run.final r) (Run.final r') := by
  have hm : Matches w (FallsThrough (.ok flags m')) m
      { m' with core := m'.core.retire true flags }
      { m' with core := m'.core.retire false flags } := by
    refine ⟨rfl, rfl, fun _ _ => rfl, fun hj' => absurd hj' hj, fun hf => ?_, fun hf => ?_⟩
    · obtain ⟨rfl, htrap⟩ := hf
      have hsame : m'.core.currentProgramCounter = m.core.currentProgramCounter := hpc rfl
      simp only [RV64Core.retire, RV64Core.exitPC, htrap, hsame]
      exact ⟨rfl, rfl⟩
    · show RV64Core.exitPC true flags m'.core = RV64Core.exitPC false flags m'.core
      unfold RV64Core.exitPC
      split
      · rfl
      split
      · rfl
      · refine absurd ⟨?_, Bool.eq_false_of_not_eq_true ‹_›⟩ hf
        have hnew := Bool.eq_false_of_not_eq_true ‹¬flags.is_new_pc_set = true›
        obtain ⟨new, ill⟩ := flags
        obtain rfl : new = false := hnew
        obtain rfl : ill = false := h
        rfl
  rw [run_exit_legal inst true m' h, run_exit_legal i false m' h]
  by_cases hb : RV64Core.statusBlank m'.core.status = true
  · rw [if_pos hb, if_pos hb]
    exact ⟨rfl, hm⟩
  · rw [if_neg hb, if_neg hb]
    exact ⟨rfl, hm⟩

/-- The exit paths after the two jumps of a `C.JALR` and its expansion. -/
theorem exit_matches_jalr {w : BitVec 16} (hj : IsJalr w) (inst i : BitVec 32) (npc : Word)
    (m : Machine β) :
    let pc := m.core.currentProgramCounter
    let s := { m with core := (m.core.setGPR 1 (pc + 2)).setPC npc }
    let s' := { m with core := (m.core.setGPR 1 (pc + 4)).setPC npc }
    let r := (onCore (stepExit inst true .newPC)).run s
    let r' := (onCore (stepExit i false .newPC)).run s'
    Run.result r = Run.result r' ∧
      Matches w (FallsThrough (.ok .newPC s')) m (Run.final r) (Run.final r') := by
  intro pc s s' r r'
  have hm : Matches w (FallsThrough (.ok .newPC s')) m
      { s with core := s.core.retire true .newPC }
      { s' with core := s'.core.retire false .newPC } := by
    refine ⟨rfl, rfl, fun r hr => ?_, fun _ => ⟨rfl, rfl⟩, fun hf => ?_, fun _ => ?_⟩
    · have hne : r ≠ 1 := fun h => hr ⟨hj, h⟩
      show (if r = 1 then pc + 2 else m.core.GPR r) = if r = 1 then pc + 4 else m.core.GPR r
      rw [if_neg hne, if_neg hne]
    · cases hf.1
    · rfl
  have hr : r = _ := run_exit_legal inst true s rfl
  have hr' : r' = _ := run_exit_legal i false s' rfl
  rw [hr, hr']
  by_cases hb : RV64Core.statusBlank m.core.status = true
  · rw [if_pos (show RV64Core.statusBlank s.core.status = true from hb),
      if_pos (show RV64Core.statusBlank s'.core.status = true from hb)]
    exact ⟨rfl, hm⟩
  · rw [if_neg (show ¬RV64Core.statusBlank s.core.status = true from hb),
      if_neg (show ¬RV64Core.statusBlank s'.core.status = true from hb)]
    exact ⟨rfl, hm⟩

end Steps

section Expansion

variable {β : Type} [MMIOBus β]

/-- A compressed instruction means its expansion.  The PC that it falls through to and
the link of `C.JALR` are its own. -/
theorem compressed_means_expansion (m : Machine β) (hi w : BitVec 16) {i : BitVec 32}
    (hexp : expand w = some i) (hx0 : m.core.GPR 0 = 0)
    (hpc : m.core.currentProgramCounter % RV64Core.PC_ALIGN = 0)
    (heven : IsJr w ∨ IsJalr w → m.core.GPR (rd w) % RV64Core.PC_ALIGN = 0) :
    let r := (execAndExit (hi ++ w)).run m
    let r' := (execAndExit i).run m
    Run.result r = Run.result r' ∧
      Matches w (FallsThrough ((execute i).run m)) m (Run.final r) (Run.final r') := by
  have h16 : isCompressedInst (hi ++ w) = true :=
    isCompressedInst_append hi (quadrant_of_expand hexp)
  have h32 : isCompressedInst i = false := isCompressedInst_low (low_of_expand hexp)
  have hrun16 : execute (hi ++ w) = exec16 (β := β) (hi ++ w) := by rw [execute, if_pos h16]
  have hrun32 : execute i = exec32 (β := β) i := by rw [execute, h32]; rfl
  rw [run_execAndExit, run_execAndExit, h16, h32, hrun16, hrun32]
  obtain ⟨op, hj, hop, h⟩ | ⟨hj, hal, h⟩ := expands_of_expand m hi w hexp hx0 hpc heven
  · rw [h.short, h.long, MicroOp.exec_len hop 2 4]
    have hset := op.exec_settles m 4
    cases hr : (op.exec 4).run m with
    | ok flags m' =>
        obtain ⟨hill, hsame⟩ := hset.ok hr
        exact exit_matches hj _ _ flags hill hsame
    | error e m' =>
        exact ⟨rfl, rfl, rfl, fun _ _ => rfl, fun hj' => absurd hj' hj, False.elim, fun _ => rfl⟩
  · have hlink (len : Word) : ((MicroOp.link 1 (m.core.GPR (rd w))).exec len).run m = _ :=
      run_jumpAndLink_aligned m 1 (m.core.currentProgramCounter + len) hal
    rw [h.short, h.long, hlink, hlink]
    exact exit_matches_jalr hj _ _ _ m

/-- `c.jalr a5`, with any upper half, and `jalr ra,0(a5)`. -/
theorem compressed_means_expansion_jalr :
    let m := Machine.ofBytes (default : RV64Core) []
    let r := (execAndExit (0xffff#16 ++ 0x9782#16)).run m
    let r' := (execAndExit 0x000780e7).run m
    expand 0x9782 = some 0x000780e7 ∧ IsJalr 0x9782 ∧ Run.result r = Run.result r' ∧
      Matches 0x9782 (FallsThrough ((execute 0x000780e7).run m)) m (Run.final r) (Run.final r') :=
  ⟨by decide, by decide,
    compressed_means_expansion _ 0xffff 0x9782 (by decide) rfl rfl fun _ => rfl⟩

end Expansion

end MEmu
