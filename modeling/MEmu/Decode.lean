import MEmu.Action

/-!
# What an instruction word does

`MicroOp` is the part of an instruction that is left once its operands are read: a
register to set, an access to make, a PC to go to.  `MicroOp.exec` runs one with
the tails of the two switches, and takes the length of the instruction for the
link.

The first half says what the 32-bit switch does at each encoding of `RiscV` that
a compressed instruction stands for.  The second half reads the fields and
immediates of a compressed instruction out of the fetched word, whatever follows
the instruction in its upper half.
-/

namespace MEmu

open Machine (onCore)
open RiscV (Reg)

/-! ## The length of an instruction -/

/-- The test of the length looks at the two lowest bits. -/
theorem isCompressedInst_eq (inst : BitVec 32) :
    isCompressedInst inst = (BitField.get 0 2 inst != 0b11#2) := by
  have hmask : ∀ v : BitVec 7, (v &&& 0b11 != 0b11) = (BitField.get 0 2 v != 0b11#2) := by decide
  rw [isCompressedInst, RVInst.opcode, hmask, BitField.get_get 0 7 0 2 inst (by decide)]

/-- An instruction whose two lowest bits are set has four bytes. -/
theorem isCompressedInst_low {i : BitVec 32} (h : BitField.get 0 2 i = 0b11#2) :
    isCompressedInst i = false := by
  rw [isCompressedInst_eq, h]
  rfl

/-! ## Alignment -/

/-- `PC_ALIGN` is 2. -/
theorem aligned_iff (a : Word) : a % RV64Core.PC_ALIGN = 0 ↔ a.toNat % 2 = 0 := by
  have h : (a % RV64Core.PC_ALIGN).toNat = a.toNat % 2 := BitVec.toNat_umod
  constructor
  · intro ha
    rw [← h, ha]
    rfl
  · intro ha
    apply BitVec.eq_of_toNat_eq
    rw [h, ha]
    rfl

/-- Sums of aligned addresses are aligned. -/
theorem aligned_add {a b : Word} (ha : a % RV64Core.PC_ALIGN = 0) (hb : b % RV64Core.PC_ALIGN = 0) :
    (a + b) % RV64Core.PC_ALIGN = 0 := by
  rw [aligned_iff] at ha hb ⊢
  rw [BitVec.toNat_add]
  omega

/-- An offset without its bit 0 is even. -/
theorem aligned_offset {n : Nat} (off : BitVec n) (h : 0 < n) :
    (off ++ 0#1).signExtend 64 % RV64Core.PC_ALIGN = 0 := by
  have hshift : (off ++ 0#1).signExtend 64 = off.signExtend 64 <<< 1 := by
    rw [BitField.signExtend_append 64 _ _ h]
    exact BitVec.or_zero
  rw [hshift, aligned_iff, BitVec.toNat_shiftLeft, Nat.shiftLeft_eq]
  omega

/-! ## Micro-operations -/

/-- An instruction with its operands read. -/
inductive MicroOp where
  | skip
  | set (rd : Reg) (value : Word)
  | load (rd : Reg) (addr size : Word)
  | store (rs2 : Reg) (addr size : Word)
  | jump (npc : Word)
  | link (rd : Reg) (npc : Word)
  | ebreak

namespace MicroOp

/-- The micro-operation reads the length of its instruction. -/
def links : MicroOp → Bool
  | link _ _ => true
  | _ => false

/-- A jump that may not be taken. -/
def branch (taken : Bool) (npc : Word) : MicroOp := if taken then .jump npc else .skip

section Exec

variable {β : Type} [MMIOBus β]

/-- The run of a micro-operation of an instruction of `len` bytes. -/
def exec (len : Word) : MicroOp → Exec β ExecFlags
  | skip => pure .plain
  | set rd value => setInto rd value
  | load rd addr size => loadInto rd addr size true
  | store rs2 addr size => storeFrom rs2 addr size
  | jump npc => jumpTo npc
  | link rd npc => do
      let c := (← get).core
      jumpAndLink rd (c.currentProgramCounter + len) npc
  | ebreak => do
      onCore MEmu.ebreak
      pure .plain

/-- Only a link depends on the length of the instruction. -/
theorem exec_len {op : MicroOp} (h : op.links = false) (len len' : Word) :
    op.exec (β := β) len = op.exec len' := by
  cases op with
  | link => cases h
  | _ => rfl

end Exec

end MicroOp

section Tails

variable {β : Type} [MMIOBus β] (m : Machine β)

omit [MMIOBus β] in
/-- Reading the machine first. -/
theorem run_get_bind {α : Type} (f : Machine β → Exec β α) :
    (get >>= f).run m = (f m).run m := by
  rw [EStateM.run_bind]
  rfl

omit [MMIOBus β] in
/-- An aligned jump that links into `x0` is a jump. -/
theorem run_jumpAndLink_zero (link : Word) {npc : Word} (h : npc % RV64Core.PC_ALIGN = 0) :
    (jumpAndLink 0 link npc).run m = (jumpTo npc).run m :=
  run_jumpAndLink_aligned m 0 link h

/-- The execute part and then the exit. -/
theorem run_execAndExit (inst : BitVec 32) (m : Machine β) :
    (execAndExit inst).run m
      = match (execute inst).run m with
        | .ok flags m' => (onCore (stepExit inst (isCompressedInst inst) flags)).run m'
        | .error e m' => .error e m' := by
  rw [execAndExit, EStateM.run_bind]
  cases (execute inst).run m <;> rfl

end Tails

/-! ## The 32-bit switch -/

namespace RVInst

/-- The immediate of a store is decoded as it was encoded. -/
theorem immS_sType (imm : BitVec 12) (rs2 rs1 : Reg) (funct3 : BitVec 3) (opcode : BitVec 7) :
    immS (RiscV.sType imm rs2 rs1 funct3 opcode) = imm.signExtend 64 := by
  obtain ⟨_, hlo, _, _, _, hhi⟩ := RiscV.fields_sType rs2 rs1 funct3 opcode imm
  rw [immS, hlo, hhi]
  exact RiscV.join_sType imm

/-- The offset of a branch is decoded as it was encoded. -/
theorem immB_bType (off : BitVec 12) (rs2 rs1 : Reg) (funct3 : BitVec 3) (opcode : BitVec 7) :
    immB (RiscV.bType off rs2 rs1 funct3 opcode) = (off ++ 0#1).signExtend 64 := by
  obtain ⟨_, h11, hlo, _, _, _, hhi, h12⟩ := RiscV.fields_bType rs2 rs1 funct3 opcode off
  rw [immB, h11, hlo, hhi, h12]
  exact RiscV.join_bType off

/-- The offset of a jump is decoded as it was encoded. -/
theorem immJ_jType (off : BitVec 20) (rd : Reg) (opcode : BitVec 7) :
    immJ (RiscV.jType off rd opcode) = (off ++ 0#1).signExtend 64 := by
  obtain ⟨_, _, h19, h11, hlo, h20⟩ := RiscV.fields_jType rd opcode off
  rw [immJ, h19, h11, hlo, h20]
  exact RiscV.join_jType off

end RVInst

section Exec32

open RiscV

variable {β : Type} [MMIOBus β] (m : Machine β)

/-- The opcode switch, at a word whose major opcode is known. -/
theorem ofVal_opcode {inst : BitVec 32} {c : RV64IOpCode} (h : BitField.get 0 7 inst = c.val) :
    RV64IOpCode.ofVal (RVInst.opcode inst) = some c := by
  rw [RVInst.opcode, h, RV64IOpCode.ofVal_val]

/-- `lui` sets its register to the immediate. -/
theorem run_exec32_lui (rd : Reg) (imm : BitVec 20) :
    (exec32 (lui rd imm)).run m
      = ((MicroOp.set rd (imm.signExtend 64 <<< 12)).exec 4).run m := by
  obtain ⟨hop, hrd, himm⟩ := fields_uType rd 0b0110111 imm
  have hlui : RV64IOpCode.ofVal (RVInst.opcode _) = some .lui := ofVal_opcode hop
  simp only [lui, exec32, hlui, RVInst.rd, RVInst.immU, hrd, himm, run_get_bind, MicroOp.exec]

/-- A signed load adds the offset to its base. -/
theorem run_exec32_load (imm : BitVec 12) (rd rs1 : Reg) {funct3 : BitVec 3} {size : Word}
    (h : loadCase funct3 = some (size, true)) :
    (exec32 (iType imm rs1 funct3 rd 0b0000011)).run m
      = ((MicroOp.load rd (m.core.GPR rs1 + imm.signExtend 64) size).exec 4).run m := by
  obtain ⟨hop, hrd, hf3, hrs1, himm⟩ := fields_iType rs1 rd funct3 0b0000011 imm
  have hload : RV64IOpCode.ofVal (RVInst.opcode _) = some .load := ofVal_opcode hop
  simp only [exec32, hload, execLoad, RVInst.funct3, hf3, h, RVInst.rd, RVInst.rs1, RVInst.imm12,
    hrd, hrs1, himm, run_get_bind, MicroOp.exec]

/-- A store adds the offset to its base. -/
theorem run_exec32_store (imm : BitVec 12) (rs2 rs1 : Reg) {funct3 : BitVec 3} {size : Word}
    (h : storeCase funct3 = some size) :
    (exec32 (sType imm rs2 rs1 funct3 0b0100011)).run m
      = ((MicroOp.store rs2 (m.core.GPR rs1 + imm.signExtend 64) size).exec 4).run m := by
  obtain ⟨hop, _, hf3, hrs1, hrs2, _⟩ := fields_sType rs2 rs1 funct3 0b0100011 imm
  have hstore : RV64IOpCode.ofVal (RVInst.opcode _) = some .store := ofVal_opcode hop
  simp only [exec32, hstore, execStore, RVInst.funct3, hf3, h, RVInst.rs1, RVInst.rs2, hrs1, hrs2,
    RVInst.immS_sType, run_get_bind, MicroOp.exec]

/-- A branch with an aligned target. -/
theorem run_exec32_branch (off : BitVec 12) (rs2 rs1 : Reg) {funct3 : BitVec 3} {taken : Bool}
    (h : branchTaken (m.core.GPR rs1) (m.core.GPR rs2) funct3 = some taken)
    (hpc : (m.core.currentProgramCounter + (off ++ 0#1).signExtend 64) % RV64Core.PC_ALIGN = 0) :
    (exec32 (bType off rs2 rs1 funct3 0b1100011)).run m
      = ((MicroOp.branch taken
          (m.core.currentProgramCounter + (off ++ 0#1).signExtend 64)).exec 4).run m := by
  obtain ⟨hop, _, _, hf3, hrs1, hrs2, _, _⟩ := fields_bType rs2 rs1 funct3 0b1100011 off
  have hbranch : RV64IOpCode.ofVal (RVInst.opcode _) = some .branch := ofVal_opcode hop
  have hrun : (exec32 (bType off rs2 rs1 funct3 0b1100011)).run m
      = (execBranch (bType off rs2 rs1 funct3 0b1100011)).run m := by
    simp only [exec32, hbranch]
    rfl
  have htaken : branchTaken (m.core.GPR (RVInst.rs1 (bType off rs2 rs1 funct3 0b1100011)))
      (m.core.GPR (RVInst.rs2 (bType off rs2 rs1 funct3 0b1100011)))
      (RVInst.funct3 (bType off rs2 rs1 funct3 0b1100011)) = some taken := by
    rw [RVInst.rs1, RVInst.rs2, RVInst.funct3, hrs1, hrs2, hf3, h]
  rw [hrun, execBranch, EStateM.run_bind, EStateM.run_get]
  simp only [htaken]
  cases taken with
  | false => rfl
  | true =>
      simp only [RVInst.immB_bType]
      rw [if_neg (not_not.mpr hpc)]
      rfl

/-- A computation with an immediate. -/
theorem run_exec32_opimm (imm : BitVec 12) (rd rs1 : Reg) {funct3 : BitVec 3} {op : ALUOp}
    {v : Word} (h : opimmCase (iType imm rs1 funct3 rd 0b0010011) = some (op, v)) :
    (exec32 (iType imm rs1 funct3 rd 0b0010011)).run m
      = ((MicroOp.set rd (aluExec (m.core.GPR rs1) v op false)).exec 4).run m := by
  obtain ⟨hop, hrd, _, hrs1, _⟩ := fields_iType rs1 rd funct3 0b0010011 imm
  have hopimm : RV64IOpCode.ofVal (RVInst.opcode _) = some .opimm := ofVal_opcode hop
  simp only [exec32, hopimm, h, execOpImm, RVInst.rd, RVInst.rs1, hrd, hrs1, run_get_bind,
    MicroOp.exec]

/-- `addi` is the sum. -/
theorem run_exec32_addi (imm : BitVec 12) (rd rs1 : Reg) :
    (exec32 (addi rd rs1 imm)).run m
      = ((MicroOp.set rd (aluExec (m.core.GPR rs1) (imm.signExtend 64) .add false)).exec 4).run
          m := by
  obtain ⟨_, _, hf3, _, himm⟩ := fields_iType rs1 rd 0b000 0b0010011 imm
  refine run_exec32_opimm m imm rd rs1 ?_
  simp only [opimmCase, RVInst.funct3, hf3, RVInst.imm12, himm]
  rfl

/-- `andi` is the conjunction. -/
theorem run_exec32_andi (imm : BitVec 12) (rd rs1 : Reg) :
    (exec32 (andi rd rs1 imm)).run m
      = ((MicroOp.set rd (aluExec (m.core.GPR rs1) (imm.signExtend 64) .and false)).exec 4).run
          m := by
  obtain ⟨_, _, hf3, _, himm⟩ := fields_iType rs1 rd 0b111 0b0010011 imm
  refine run_exec32_opimm m imm rd rs1 ?_
  simp only [opimmCase, RVInst.funct3, hf3, RVInst.imm12, himm]
  rfl

/-- A computation of 32 bits with an immediate. -/
theorem run_exec32_opimm32 (imm : BitVec 12) (rd rs1 : Reg) {funct3 : BitVec 3} {op : ALUOp}
    {v : Word} (h : opimm32Case (iType imm rs1 funct3 rd 0b0011011) = some (op, v)) :
    (exec32 (iType imm rs1 funct3 rd 0b0011011)).run m
      = ((MicroOp.set rd (aluExec (m.core.GPR rs1) v op true)).exec 4).run m := by
  obtain ⟨hop, hrd, _, hrs1, _⟩ := fields_iType rs1 rd funct3 0b0011011 imm
  have hopimm : RV64IOpCode.ofVal (RVInst.opcode _) = some .opimm32 := ofVal_opcode hop
  simp only [exec32, hopimm, h, execOpImm, RVInst.rd, RVInst.rs1, hrd, hrs1, run_get_bind,
    MicroOp.exec]

/-- `addiw` is the sum of 32 bits. -/
theorem run_exec32_addiw (imm : BitVec 12) (rd rs1 : Reg) :
    (exec32 (addiw rd rs1 imm)).run m
      = ((MicroOp.set rd (aluExec (m.core.GPR rs1) (imm.signExtend 64) .add true)).exec 4).run
          m := by
  obtain ⟨_, _, hf3, _, himm⟩ := fields_iType rs1 rd 0b000 0b0011011 imm
  refine run_exec32_opimm32 m imm rd rs1 ?_
  simp only [opimm32Case, RVInst.funct3, hf3, RVInst.imm12, himm]
  rfl

/-- The amount of a shift, below whatever its immediate holds above it. -/
theorem shamt_mask (upper shamt : BitVec 6) :
    (upper ++ shamt).signExtend 64 &&& 0x3f = shamt.setWidth 64 := by
  apply BitVec.eq_of_getLsbD_eq
  intro i hi
  have hmask : (0x3f : Word).getLsbD i = decide (i < 6) := by
    have h : (0x3f : Word) = (BitVec.allOnes 6).setWidth 64 := rfl
    rw [h, BitVec.getLsbD_setWidth, BitVec.getLsbD_allOnes]
    simp [hi]
  rw [BitVec.getLsbD_and, hmask, BitField.signExtend_append 64 _ _ (by decide)]
  by_cases h6 : i < 6
  · simp [h6]
  · have hs : shamt.getLsbD i = false := BitVec.getLsbD_of_ge shamt i (by omega)
    simp [h6, hs]

/-- The immediate of a left shift passes the comparison with 64. -/
theorem shamt_lt (shamt : BitVec 6) : (64 : Word).sle (shamt.setWidth 64) = false := by
  have hnat : shamt.toNat < 64 := shamt.isLt
  have h64 : (shamt.setWidth 64).toInt = shamt.toNat := by
    rw [BitVec.toInt_setWidth]
    exact Int.bmod_eq_of_le (by omega) (by omega)
  rw [BitVec.sle, h64]
  have hne : ¬ (64 : Word).toInt ≤ (shamt.toNat : Int) := by
    show ¬ (64 : Int) ≤ _
    omega
  exact decide_eq_false hne

/-- `slli` shifts by its six bits. -/
theorem run_exec32_slli (shamt : BitVec 6) (rd rs1 : Reg) :
    (exec32 (slli rd rs1 shamt)).run m
      = ((MicroOp.set rd (aluExec (m.core.GPR rs1) (shamt.setWidth 64) .sll false)).exec 4).run
          m := by
  obtain ⟨_, _, hf3, _, himm⟩ := fields_iType rs1 rd 0b001 0b0010011 (0b000000#6 ++ shamt)
  have hv : (0b000000#6 ++ shamt).signExtend 64 = shamt.setWidth 64 := by
    rw [BitField.signExtend_append 64 _ _ (by decide)]
    exact BitVec.zero_or
  refine run_exec32_opimm m _ rd rs1 ?_
  simp only [opimmCase, RVInst.funct3, hf3, RVInst.imm12, himm, hv]
  exact if_neg (by rw [shamt_lt]; decide)

/-- `srli` and `srai`, told apart by the upper bits of the immediate. -/
theorem opimmCase_shiftRight (upper shamt : BitVec 6) (rd rs1 : Reg)
    (h : upper = Funct6.normal ∨ upper = Funct6.sra) :
    opimmCase (iType (upper ++ shamt) rs1 0b101 rd 0b0010011)
      = some (if upper = Funct6.sra then .sra else .srl,
          (upper ++ shamt).signExtend 64 &&& 0x3f) := by
  obtain ⟨_, _, hf3, _, himm⟩ := fields_iType rs1 rd 0b101 0b0010011 (upper ++ shamt)
  have hfun6 : BitField.get 1 6 (BitField.get 5 7 (upper ++ shamt)) = upper := by
    rw [BitField.get_get 5 7 1 6 _ (by decide)]
    exact BitVec.extractLsb'_append_eq_left
  have hor : ¬ (upper ≠ Funct6.normal ∧ upper ≠ Funct6.sra) := by
    rintro ⟨hn, hs⟩
    exact h.elim hn hs
  simp only [opimmCase, RVInst.funct3, hf3, RVInst.imm12, himm, RVInst.funct7, funct7_iType, hfun6]
  exact if_neg hor

/-- `srli` shifts by its six bits. -/
theorem run_exec32_srli (shamt : BitVec 6) (rd rs1 : Reg) :
    (exec32 (srli rd rs1 shamt)).run m
      = ((MicroOp.set rd (aluExec (m.core.GPR rs1) (shamt.setWidth 64) .srl false)).exec 4).run
          m := by
  have hcase := opimmCase_shiftRight 0b000000#6 shamt rd rs1 (.inl rfl)
  rw [shamt_mask] at hcase
  exact run_exec32_opimm m _ rd rs1 hcase

/-- `srai` shifts by its six bits, and keeps the sign. -/
theorem run_exec32_srai (shamt : BitVec 6) (rd rs1 : Reg) :
    (exec32 (srai rd rs1 shamt)).run m
      = ((MicroOp.set rd (aluExec (m.core.GPR rs1) (shamt.setWidth 64) .sra false)).exec 4).run
          m := by
  have hcase := opimmCase_shiftRight 0b010000#6 shamt rd rs1 (.inr rfl)
  rw [shamt_mask] at hcase
  exact run_exec32_opimm m _ rd rs1 hcase

/-- The operation of `OPCODE_OP` is told by the function fields alone. -/
theorem opCase_rType (funct7 : BitVec 7) (rs2 rs1 : Reg) (funct3 : BitVec 3) (rd : Reg)
    (opcode : BitVec 7) :
    opCase (rType funct7 rs2 rs1 funct3 rd opcode) = opCase (rType funct7 0 0 funct3 0 0) := by
  obtain ⟨_, _, hf3, _, _, hf7⟩ := fields_rType funct7 rs2 rs1 rd funct3 opcode
  obtain ⟨_, _, hf3', _, _, hf7'⟩ := fields_rType funct7 0 0 0 funct3 0
  simp only [opCase, RVInst.funct7, RVInst.funct3, hf3, hf7, hf3', hf7']

/-- The operation of 32 bits depends on `funct7` and `funct3` alone. -/
theorem op32Case_rType (funct7 : BitVec 7) (rs2 rs1 : Reg) (funct3 : BitVec 3) (rd : Reg)
    (opcode : BitVec 7) :
    op32Case (rType funct7 rs2 rs1 funct3 rd opcode) = op32Case (rType funct7 0 0 funct3 0 0) := by
  obtain ⟨_, _, hf3, _, _, hf7⟩ := fields_rType funct7 rs2 rs1 rd funct3 opcode
  obtain ⟨_, _, hf3', _, _, hf7'⟩ := fields_rType funct7 0 0 0 funct3 0
  simp only [op32Case, RVInst.funct7, RVInst.funct3, hf3, hf7, hf3', hf7']

/-- A computation between two registers. -/
theorem run_exec32_op (funct7 : BitVec 7) (rs2 rs1 : Reg) (funct3 : BitVec 3) (rd : Reg)
    {op : ALUOp} (h : opCase (rType funct7 0 0 funct3 0 0) = some op) :
    (exec32 (rType funct7 rs2 rs1 funct3 rd 0b0110011)).run m
      = ((MicroOp.set rd (aluExec (m.core.GPR rs1) (m.core.GPR rs2) op false)).exec 4).run m := by
  obtain ⟨hop, hrd, _, hrs1, hrs2, _⟩ := fields_rType funct7 rs2 rs1 rd funct3 0b0110011
  have hcase : RV64IOpCode.ofVal (RVInst.opcode _) = some .op := ofVal_opcode hop
  simp only [exec32, hcase, opCase_rType, h, execOp, RVInst.rd, RVInst.rs1, RVInst.rs2, hrd, hrs1,
    hrs2, run_get_bind, MicroOp.exec]

/-- A computation of 32 bits between two registers. -/
theorem run_exec32_op32 (funct7 : BitVec 7) (rs2 rs1 : Reg) (funct3 : BitVec 3) (rd : Reg)
    {op : ALUOp} (h : op32Case (rType funct7 0 0 funct3 0 0) = some op) :
    (exec32 (rType funct7 rs2 rs1 funct3 rd 0b0111011)).run m
      = ((MicroOp.set rd (aluExec (m.core.GPR rs1) (m.core.GPR rs2) op true)).exec 4).run m := by
  obtain ⟨hop, hrd, _, hrs1, hrs2, _⟩ := fields_rType funct7 rs2 rs1 rd funct3 0b0111011
  have hcase : RV64IOpCode.ofVal (RVInst.opcode _) = some .op32 := ofVal_opcode hop
  simp only [exec32, hcase, op32Case_rType, h, execOp, RVInst.rd, RVInst.rs1, RVInst.rs2, hrd,
    hrs1, hrs2, run_get_bind, MicroOp.exec]

/-- `jal` without a link, to an aligned target. -/
theorem run_exec32_jal (off : BitVec 20)
    (hpc : (m.core.currentProgramCounter + (off ++ 0#1).signExtend 64) % RV64Core.PC_ALIGN = 0) :
    (exec32 (jal 0 off)).run m
      = ((MicroOp.jump (m.core.currentProgramCounter + (off ++ 0#1).signExtend 64)).exec 4).run
          m := by
  obtain ⟨hop, hrd, _⟩ := fields_jType 0 0b1101111 off
  have hjal : RV64IOpCode.ofVal (RVInst.opcode _) = some .jal := ofVal_opcode hop
  simp only [jal, exec32, hjal, RVInst.rd, hrd, RVInst.immJ_jType]
  exact run_jumpAndLink_zero m _ hpc

/-- `jalr` without an offset. -/
theorem run_exec32_jalr (rd rs1 : Reg) :
    (exec32 (jalr rd rs1 0)).run m = ((MicroOp.link rd (m.core.GPR rs1)).exec 4).run m := by
  obtain ⟨hop, hrd, _, hrs1, himm⟩ := fields_iType rs1 rd 0b000 0b1100111 0
  have hjalr : RV64IOpCode.ofVal (RVInst.opcode _) = some .jalr := ofVal_opcode hop
  have hzero : m.core.GPR rs1 + ((0 : BitVec 12).signExtend 64 &&& ~~~1) = m.core.GPR rs1 :=
    BitVec.add_zero _
  simp only [jalr, exec32, hjalr, RVInst.rd, RVInst.rs1, RVInst.imm12, hrd, hrs1, himm]
  show EStateM.run (jumpAndLink rd _ (m.core.GPR rs1 + _)) m = _
  rw [hzero]
  rfl

/-- `ebreak` is itself. -/
theorem run_exec32_ebreak : (exec32 RiscV.ebreak).run m = (MicroOp.ebreak.exec 4).run m := rfl

end Exec32

end MEmu
