import MEmu.Modes
import MEmu.RvcFields
import MEmu.Lib.RiscVEncodings

/-!
# Jumps and branches

Where the PC goes on the words of `JAL`, `BRANCH` and `JALR` and on `C.JR` and
`C.JALR`.  The targets are those of the specification: the offsets are read out of the
word by `RiscV.offsetJ` and `RiscV.offsetB`, and bit 0 of the target of an indirect jump
is cleared after the addition.  The source clears it before, in the immediate alone.
-/

namespace MEmu

open RiscV (majorOf rdOf rs1Of rs2Of funct3Of imm12Of offsetB offsetJ bitVec3_cases)

/-! ## Offsets -/

namespace RVInst

/-- The immediate of a jump is its offset in half-words, with the bit for the halves. -/
theorem immJ_eq (inst : BitVec 32) : immJ inst = (offsetJ inst ++ 0#1).signExtend 64 := by
  simp (disch := decide) only [immJ, offsetJ, BitField.signExtend_append,
    BitVec.shiftLeft_or_distrib, ← BitVec.shiftLeft_add]
  exact (BitVec.or_zero).symm

/-- The immediate of a branch likewise. -/
theorem immB_eq (inst : BitVec 32) : immB inst = (offsetB inst ++ 0#1).signExtend 64 := by
  simp (disch := decide) only [immB, offsetB, BitField.signExtend_append,
    BitVec.shiftLeft_or_distrib, ← BitVec.shiftLeft_add]
  exact (BitVec.or_zero).symm

end RVInst

/-- A number in half-words, extended. -/
theorem signExtend_append_bit {n : Nat} (off : BitVec (n + 1)) :
    (off ++ 0#1).signExtend 64 = BitVec.ofInt 64 (2 * off.toInt) := by
  simp only [BitVec.signExtend, BitVec.toInt_append]
  simp

/-- An even offset in range is that of its half, shifted. -/
theorem signExtend_half (n : Nat) {z : Int} (heven : z % 2 = 0) (hlo : -2 ^ (n + 1) ≤ z)
    (hhi : z < 2 ^ (n + 1)) :
    (BitVec.ofInt (n + 1) (z / 2) ++ 0#1).signExtend 64 = BitVec.ofInt 64 z := by
  have hpow : (2 : Int) ^ (n + 1) = 2 * 2 ^ n := by rw [Int.pow_succ, Int.mul_comm]
  have hhalf : (BitVec.ofInt (n + 1) (z / 2)).toInt = z / 2 :=
    BitVec.toInt_ofInt_eq_self (Nat.succ_pos n) (by simp; omega) (by simp; omega)
  have hz : 2 * (z / 2) = z := by omega
  rw [signExtend_append_bit, hhalf, hz]

/-- An even offset in range is what the jump that was made for it has. -/
theorem decode_jal (rd : BitVec 5) {z : Int} (heven : z % 2 = 0) (hlo : -2 ^ 20 ≤ z)
    (hhi : z < 2 ^ 20) :
    RVInst.immJ (RiscV.jal rd (BitVec.ofInt 20 (z / 2))) = BitVec.ofInt 64 z := by
  rw [RVInst.immJ_eq, RiscV.jal, RiscV.offsetJ_jType]
  exact signExtend_half 19 heven hlo hhi

/-- An even offset in range is what the branch that was made for it has. -/
theorem decode_branch (rs2 rs1 : BitVec 5) (funct3 : BitVec 3) {z : Int} (heven : z % 2 = 0)
    (hlo : -2 ^ 12 ≤ z) (hhi : z < 2 ^ 12) :
    RVInst.immB (RiscV.bType (BitVec.ofInt 12 (z / 2)) rs2 rs1 funct3 0b1100011)
      = BitVec.ofInt 64 z := by
  rw [RVInst.immB_eq, RiscV.offsetB_bType]
  exact signExtend_half 11 heven hlo hhi

/-! ## Targets -/

/-- The mask clears the lowest bit. -/
theorem getLsbD_and_not_one (a : Word) (i : Nat) :
    (a &&& ~~~1#64).getLsbD i = (a.getLsbD i && !decide (i = 0)) := by
  rw [BitVec.getLsbD_and, BitVec.getLsbD_not, BitVec.getLsbD_one]
  by_cases hi : i < 64
  · simp [hi]
  · simp [BitVec.getLsbD_of_ge a i (by omega)]

/-- Clearing bit 0 by its test is masking it. -/
theorem clearBit0_eq (a : Word) : clearBit0 a = a &&& ~~~1#64 := by
  have hone : a &&& 1 = (BitVec.ofBool (a.getLsbD 0)).setWidth 64 :=
    BitVec.and_one_eq_setWidth_ofBool_getLsbD
  apply BitVec.eq_of_getLsbD_eq
  intro i hi
  rw [clearBit0, hone, getLsbD_and_not_one]
  cases ha : a.getLsbD 0 with
  | false =>
      by_cases h : i = 0
      · subst h
        exact ha.trans (Bool.and_false _).symm
      · simp [h]
  | true =>
      show (a ^^^ 1#64).getLsbD i = _
      rw [BitVec.getLsbD_xor, BitVec.getLsbD_one]
      by_cases h : i = 0
      · subst h
        simp only [ha]
        rfl
      · simp [h]

/-- Without its lowest bit a word is even. -/
theorem toNat_and_not_one (a : Word) : (a &&& ~~~1#64).toNat = 2 * (a.toNat / 2) := by
  have hshift : a &&& ~~~1#64 = (a >>> 1) <<< 1 := by
    apply BitVec.eq_of_getLsbD_eq
    intro i hi
    rw [getLsbD_and_not_one]
    cases i with
    | zero => simp
    | succ i => simp [hi, Nat.add_comm]
  rw [hshift, BitVec.toNat_shiftLeft, BitVec.toNat_ushiftRight, Nat.shiftRight_eq_div_pow,
    Nat.shiftLeft_eq]
  have hlt := a.isLt
  omega

/-- The mask on the immediate is that on the sum where the register is even. -/
theorem add_and_not_one {a : Word} (h : a % RV64Core.PC_ALIGN = 0) (imm : Word) :
    a + (imm &&& ~~~1#64) = (a + imm) &&& ~~~1#64 := by
  rw [aligned_iff] at h
  apply BitVec.eq_of_toNat_eq
  rw [BitVec.toNat_add, toNat_and_not_one, toNat_and_not_one, BitVec.toNat_add]
  omega

/-- A word without its lowest bit is the address of an instruction. -/
theorem aligned_and_not_one (a : Word) : (a &&& ~~~1#64) % RV64Core.PC_ALIGN = 0 := by
  rw [aligned_iff, toNat_and_not_one]
  omega

/-! ## The step -/

section Step

variable {β : Type} [MMIOBus β] {m : Machine β} {inst : BitVec 32} {s : MMUSys β}

/-- The step from `m` leaves the PC at `npc` and `value` in `rd`, and raises nothing. -/
def StepsTo (m : Machine β) (npc : Word) (rd : BitVec 5) (value : Word) : Prop :=
  (Run.final (stepCoreAPI.run m)).core.currentProgramCounter = npc ∧
  (Run.final (stepCoreAPI.run m)).core.GPR = (m.core.setGPR rd value).GPR ∧
  (Run.final (stepCoreAPI.run m)).core.trapLog = []

/-- Where the step goes, `none` where it takes a trap. -/
def target (m : Machine β) : Option Word :=
  if (Run.final (stepCoreAPI.run m)).core.trapLog = [] then
    some (Run.final (stepCoreAPI.run m)).core.currentProgramCounter
  else none

/-- A step that goes to an address has it as its target. -/
theorem StepsTo.target {npc value : Word} {rd : BitVec 5} (h : StepsTo m npc rd value) :
    target m = some npc := by
  rw [MEmu.target, if_pos h.2.2, h.1]

omit [MMIOBus β] in
/-- The check before a step does not touch the registers. -/
theorem setGPR_begun (rd : BitVec 5) (value : Word) :
    (m.begun.setGPR rd value).GPR = (m.core.setGPR rd value).GPR := by
  unfold RV64Core.setGPR
  split <;> rfl

/-- A write of a register changes nothing else. -/
theorem setGPR_frame (c : RV64Core) (rd : BitVec 5) (value : Word) :
    (c.setGPR rd value).trapLog = c.trapLog ∧
      (c.setGPR rd value).needTrap = c.needTrap ∧
      (c.setGPR rd value).currentProgramCounter = c.currentProgramCounter := by
  unfold RV64Core.setGPR
  split <;> exact ⟨rfl, rfl, rfl⟩

/-- A checked jump to an even address is taken. -/
theorem stepsTo_link {rd : BitVec 5} {ret npc : Word}
    (hf : fetchInst.run m = .ok (some inst) ⟨m.begun, s⟩)
    (ha : action inst m.begun = .link rd ret npc) (hnpc : npc % RV64Core.PC_ALIGN = 0) :
    StepsTo m npc rd ret := by
  obtain ⟨hlog, hn, -⟩ := setGPR_frame m.begun rd ret
  have hrun : ((action inst m.begun).exec).run ⟨m.begun, s⟩
      = .ok .newPC ⟨(m.begun.setGPR rd ret).setPC npc, s⟩ := by
    rw [ha, Action.exec, run_jumpAndLink_aligned _ rd ret hnpc]
  obtain ⟨-, hfinal⟩ := final_of_action hf hrun
  rw [atExit_legal rfl] at hfinal
  refine ⟨?_, ?_, ?_⟩ <;> rw [hfinal]
  · show RV64Core.exitPC _ _ _ = npc
    rw [RV64Core.exitPC, if_neg]
    · rfl
    · show ¬(m.begun.setGPR rd ret).needTrap = true
      rw [hn, needTrap_begun]
      exact Bool.false_ne_true
  · exact setGPR_begun rd ret
  · exact hlog

/-- A checked jump to an odd address traps. -/
theorem trapLog_link {rd : BitVec 5} {ret npc : Word}
    (hf : fetchInst.run m = .ok (some inst) ⟨m.begun, s⟩)
    (ha : action inst m.begun = .link rd ret npc) (hnpc : npc % RV64Core.PC_ALIGN ≠ 0) :
    (Run.final (stepCoreAPI.run m)).core.trapLog = [(Cause.exception .instrMisalign, npc)] := by
  have hrun : ((action inst m.begun).exec).run ⟨m.begun, s⟩
      = .ok .plain ⟨m.begun.trapped (Cause.exception .instrMisalign) npc, s⟩ := by
    rw [ha, Action.exec, run_jumpAndLink_misaligned (needTrap_begun m) rd ret hnpc]
  obtain ⟨-, hfinal⟩ := final_of_action hf hrun
  rw [hfinal, atExit_legal rfl]
  exact trapLog_trapped _ _ _

/-- A branch that is taken goes to its target. -/
theorem stepsTo_branch {npc : Word} (hf : fetchInst.run m = .ok (some inst) ⟨m.begun, s⟩)
    (ha : action inst m.begun = .branch npc) (hnpc : npc % RV64Core.PC_ALIGN = 0) :
    StepsTo m npc 0 0 := by
  have hrun : ((action inst m.begun).exec).run ⟨m.begun, s⟩
      = .ok .newPC ⟨m.begun.setPC npc, s⟩ := by
    rw [ha, Action.exec, if_neg (not_not.mpr hnpc), run_jumpTo]
  obtain ⟨-, hfinal⟩ := final_of_action hf hrun
  rw [atExit_legal rfl] at hfinal
  refine ⟨?_, ?_, ?_⟩ <;> rw [hfinal] <;> rfl

/-- A 32-bit instruction that asks for nothing is passed over. -/
theorem stepsTo_nop (hf : fetchInst.run m = .ok (some inst) ⟨m.begun, s⟩)
    (ha : action inst m.begun = .nop) (hc : isCompressedInst inst = false) :
    StepsTo m (m.core.currentProgramCounter + 4) 0 0 := by
  have hrun : ((action inst m.begun).exec).run ⟨m.begun, s⟩ = .ok .plain ⟨m.begun, s⟩ := by
    rw [ha]
    rfl
  obtain ⟨-, hfinal⟩ := final_of_action hf hrun
  rw [atExit_legal rfl, hc] at hfinal
  refine ⟨?_, ?_, ?_⟩ <;> rw [hfinal] <;> rfl

end Step

/-! ## The actions of the words -/

section Actions

variable {inst : BitVec 32} {c : RV64Core}

/-- What `JAL` does. -/
theorem action_jal (hop : majorOf inst = RV64IOpCode.jal.val) :
    action inst c = .link (rdOf inst) (c.currentProgramCounter + 4)
      (c.currentProgramCounter + (offsetJ inst ++ 0#1).signExtend 64) := by
  obtain ⟨ha, hval⟩ := action_of_opcode (c := c) hop
  rw [ha, Action.of32, hval, ← RVInst.immJ_eq]
  rfl

/-- What `JALR` does: the lowest bit is cleared in the offset, not in the sum. -/
theorem action_jalr (hop : majorOf inst = RV64IOpCode.jalr.val) :
    action inst c = .link (rdOf inst) (c.currentProgramCounter + 4)
      (c.GPR (rs1Of inst) + ((imm12Of inst).signExtend 64 &&& ~~~1#64)) := by
  obtain ⟨ha, hval⟩ := action_of_opcode (c := c) hop
  rw [ha, Action.of32, hval]
  rfl

/-- What a branch does. -/
theorem action_branch (hop : majorOf inst = RV64IOpCode.branch.val) :
    action inst c = .ofBranch inst c := by
  obtain ⟨ha, hval⟩ := action_of_opcode (c := c) hop
  rw [ha, Action.of32, hval]

/-- The test of a branch is the comparison of its `funct3`. -/
theorem branchTaken_spec (a b : Word) {funct3 : BitVec 3} (h₂ : funct3 ≠ 0b010)
    (h₃ : funct3 ≠ 0b011) :
    ∃ taken, branchTaken a b funct3 = some taken ∧
      (taken = true ↔ RiscV.BranchHolds funct3 a b) := by
  revert h₂ h₃
  rcases bitVec3_cases funct3 with rfl | rfl | rfl | rfl | rfl | rfl | rfl | rfl <;> intro h₂ h₃
  · exact ⟨_, rfl, beq_iff_eq⟩
  · exact ⟨_, rfl, bne_iff_ne⟩
  · exact absurd rfl h₂
  · exact absurd rfl h₃
  · exact ⟨_, rfl, BitVec.slt_iff_toInt_lt⟩
  · refine ⟨_, rfl, ?_⟩
    rw [Bool.not_eq_true', ← Bool.not_eq_true, BitVec.slt_iff_toInt_lt]
    exact Int.not_lt
  · exact ⟨_, rfl, decide_eq_true_iff⟩
  · exact ⟨_, rfl, decide_eq_true_iff⟩

/-- What `C.JR` does. -/
theorem action_jr (hi : BitVec 16) {w : BitVec 16} (h : RiscV.Compressed.IsJr w) :
    action (hi ++ w) c = .link 0 0 (clearBit0 (c.GPR (RiscV.Compressed.rd w))) := by
  obtain ⟨hq, h3, h12, hrs2, hrd⟩ := h
  have hval := rvc_ofVal hi w (c := .jrMvEbJalrAdd) (by rw [hq, h3]; rfl)
  have hbit : binaryConcat (hi ++ w) 12 12 0 = 0 := by
    rw [RVC.bit_eq_zero hi w (by decide)]
    exact bit12_of_zero w h12
  have hcomp : isCompressedInst (hi ++ w) = true :=
    isCompressedInst_append hi (by rw [hq]; decide)
  rw [action, if_pos hcomp, Action.of16, hval]
  simp only [Action.ofJrMvEbJalrAdd, RVC.reg_rs2, RVC.reg_rd, hrs2, hrd, hbit, ne_eq, not_true,
    if_true, if_false]

/-- What `C.JALR` does. -/
theorem action_cjalr (hi : BitVec 16) {w : BitVec 16} (h : RiscV.Compressed.IsJalr w) :
    action (hi ++ w) c = .link 1 (c.currentProgramCounter + 2)
      (clearBit0 (c.GPR (RiscV.Compressed.rd w))) := by
  obtain ⟨hq, h3, h12, hrs2, hrd⟩ := h
  have hval := rvc_ofVal hi w (c := .jrMvEbJalrAdd) (by rw [hq, h3]; rfl)
  have hbit : ¬binaryConcat (hi ++ w) 12 12 0 = 0 := by
    rw [RVC.bit_eq_zero hi w (by decide), bit12_of_ne w (by rw [h12]; decide)]
    decide
  have hcomp : isCompressedInst (hi ++ w) = true :=
    isCompressedInst_append hi (by rw [hq]; decide)
  rw [action, if_pos hcomp, Action.of16, hval]
  simp only [Action.ofJrMvEbJalrAdd, RVC.reg_rs2, RVC.reg_rd, hrs2, hrd, hbit, ne_eq, not_false_iff,
    if_true, if_false]

end Actions

/-! ## Direct jumps -/

section Direct

variable {β : Type} [MMIOBus β] {m : Machine β} {inst : BitVec 32} {s : MMUSys β}

/-- `JAL` goes to its target. -/
theorem stepsTo_jal (hf : fetchInst.run m = .ok (some inst) ⟨m.begun, s⟩)
    (hpc : m.core.currentProgramCounter.toNat % 2 = 0)
    (hop : majorOf inst = RV64IOpCode.jal.val) :
    StepsTo m (m.core.currentProgramCounter + (offsetJ inst ++ 0#1).signExtend 64) (rdOf inst)
      (m.core.currentProgramCounter + 4) :=
  stepsTo_link hf (action_jal hop)
    (aligned_add ((aligned_iff _).mpr hpc) (aligned_offset _ (by decide)))

/-- A branch goes to its target where its comparison holds, and on where it does not. -/
theorem stepsTo_comparison (hf : fetchInst.run m = .ok (some inst) ⟨m.begun, s⟩)
    (hpc : m.core.currentProgramCounter.toNat % 2 = 0)
    (hop : majorOf inst = RV64IOpCode.branch.val)
    (h₂ : funct3Of inst ≠ 0b010) (h₃ : funct3Of inst ≠ 0b011) :
    (RiscV.BranchHolds (funct3Of inst) (m.core.GPR (rs1Of inst)) (m.core.GPR (rs2Of inst)) →
      StepsTo m (m.core.currentProgramCounter + (offsetB inst ++ 0#1).signExtend 64) 0 0) ∧
    (¬RiscV.BranchHolds (funct3Of inst) (m.core.GPR (rs1Of inst)) (m.core.GPR (rs2Of inst)) →
      StepsTo m (m.core.currentProgramCounter + 4) 0 0) := by
  obtain ⟨taken, htaken, hiff⟩ :=
    branchTaken_spec (m.core.GPR (rs1Of inst)) (m.core.GPR (rs2Of inst)) h₂ h₃
  have ha : action inst m.begun = .ofBranch inst m.begun := action_branch hop
  rw [Action.ofBranch, RVInst.immB_eq] at ha
  have hcomp : isCompressedInst inst = false := by
    rw [isCompressedInst, show RVInst.opcode inst = RV64IOpCode.branch.val from hop]
    rfl
  have hsome : branchTaken (m.begun.GPR (RVInst.rs1 inst)) (m.begun.GPR (RVInst.rs2 inst))
      (RVInst.funct3 inst) = some taken := htaken
  rw [hsome] at ha
  rw [← hiff]
  cases taken with
  | true =>
      refine ⟨fun _ => ?_, fun h => absurd rfl h⟩
      exact stepsTo_branch hf ha
        (aligned_add ((aligned_iff _).mpr hpc) (aligned_offset _ (by decide)))
  | false => exact ⟨fun h => absurd h Bool.false_ne_true, fun _ => stepsTo_nop hf ha hcomp⟩

variable (β) in
/-- `JAL` and the defined branches go where the specification says, from every even PC, and
the encoding of every even offset in range is decoded to it. -/
theorem direct_jumps_follow_spec :
    (∀ (m : Machine β) (inst : BitVec 32) (s : MMUSys β),
      fetchInst.run m = .ok (some inst) ⟨m.begun, s⟩ →
      m.core.currentProgramCounter.toNat % 2 = 0 →
      (majorOf inst = RV64IOpCode.jal.val →
        StepsTo m (m.core.currentProgramCounter + (offsetJ inst ++ 0#1).signExtend 64)
          (rdOf inst) (m.core.currentProgramCounter + 4)) ∧
      (majorOf inst = RV64IOpCode.branch.val → funct3Of inst ≠ 0b010 → funct3Of inst ≠ 0b011 →
        (RiscV.BranchHolds (funct3Of inst) (m.core.GPR (rs1Of inst)) (m.core.GPR (rs2Of inst)) →
          StepsTo m (m.core.currentProgramCounter + (offsetB inst ++ 0#1).signExtend 64) 0 0) ∧
        (¬RiscV.BranchHolds (funct3Of inst) (m.core.GPR (rs1Of inst))
            (m.core.GPR (rs2Of inst)) →
          StepsTo m (m.core.currentProgramCounter + 4) 0 0))) ∧
    (∀ (rd : BitVec 5) (z : Int), z % 2 = 0 → -2 ^ 20 ≤ z → z < 2 ^ 20 →
      RVInst.immJ (RiscV.jal rd (BitVec.ofInt 20 (z / 2))) = BitVec.ofInt 64 z) ∧
    (∀ (rs2 rs1 : BitVec 5) (funct3 : BitVec 3) (z : Int),
      z % 2 = 0 → -2 ^ 12 ≤ z → z < 2 ^ 12 →
      RVInst.immB (RiscV.bType (BitVec.ofInt 12 (z / 2)) rs2 rs1 funct3 0b1100011)
        = BitVec.ofInt 64 z) := by
  refine ⟨?_, ?_, ?_⟩
  · intro m inst s hf hpc
    exact ⟨stepsTo_jal hf hpc, stepsTo_comparison hf hpc⟩
  · intro rd z heven hlo hhi
    exact decode_jal rd heven hlo hhi
  · intro rs2 rs1 funct3 z heven hlo hhi
    exact decode_branch rs2 rs1 funct3 heven hlo hhi

end Direct

/-- `jal x1,-2` from 0, and the lowest offsets. -/
theorem direct_jumps_follow_spec_jal :
    StepsTo (runFrom [0xef, 0xf0, 0xff, 0xff] 0) (0xfffffffffffffffe) 1 4 ∧
      RVInst.immJ (RiscV.jal 1 (BitVec.ofInt 20 (-2 ^ 20 / 2))) = BitVec.ofInt 64 (-2 ^ 20) ∧
      RVInst.immB (RiscV.bType (BitVec.ofInt 12 (-2 ^ 12 / 2)) 0 0 0 0b1100011)
        = BitVec.ofInt 64 (-2 ^ 12) := by
  have hspec := direct_jumps_follow_spec (MEmuMMIOBus MMIOMem)
  refine ⟨?_, hspec.2.1 1 (-2 ^ 20) (by decide) (by decide) (by decide),
    hspec.2.2 0 0 0 (-2 ^ 12) (by decide) (by decide) (by decide)⟩
  exact (hspec.1 (runFrom [0xef, 0xf0, 0xff, 0xff] 0) 0xfffff0ef
    (Run.final (fetchInst.run (runFrom [0xef, 0xf0, 0xff, 0xff] 0))).mem (by rfl)
    (by decide)).1 (by decide)

/-! ## Indirect jumps -/

section Indirect

variable {β : Type} [MMIOBus β] {m m' : Machine β} {inst : BitVec 32} {s s' : MMUSys β}

open RiscV.Compressed (IsJr IsJalr rd)

/-- `JALR` goes where the specification says exactly from an even register. -/
theorem stepsTo_jalr_iff (hf : fetchInst.run m = .ok (some inst) ⟨m.begun, s⟩)
    (hop : majorOf inst = RV64IOpCode.jalr.val) :
    StepsTo m ((m.core.GPR (rs1Of inst) + (imm12Of inst).signExtend 64) &&& ~~~1#64)
        (rdOf inst) (m.core.currentProgramCounter + 4) ↔
      (m.core.GPR (rs1Of inst)).toNat % 2 = 0 := by
  have ha := action_jalr (c := m.begun) hop
  rw [← aligned_iff]
  constructor
  · intro hsteps
    by_contra hodd
    have hnpc : (m.core.GPR (rs1Of inst) + ((imm12Of inst).signExtend 64 &&& ~~~1#64))
        % RV64Core.PC_ALIGN ≠ 0 := by
      intro heven
      apply hodd
      have hmask := aligned_and_not_one ((imm12Of inst).signExtend 64)
      rw [aligned_iff] at heven hmask ⊢
      rw [BitVec.toNat_add] at heven
      omega
    have hlog := trapLog_link hf ha hnpc
    rw [hsteps.2.2] at hlog
    cases hlog
  · intro heven
    rw [← add_and_not_one heven]
    exact stepsTo_link hf ha (aligned_add heven (aligned_and_not_one _))

/-- The target of `JALR` with a zero offset is its register, if that is even. -/
theorem target_jalr (hf : fetchInst.run m = .ok (some inst) ⟨m.begun, s⟩)
    (hop : majorOf inst = RV64IOpCode.jalr.val) (himm : imm12Of inst = 0) :
    target m = if (m.core.GPR (rs1Of inst)).toNat % 2 = 0 then some (m.core.GPR (rs1Of inst))
      else none := by
  have ha := action_jalr (c := m.begun) hop
  have hzero : m.begun.GPR (rs1Of inst) + ((0 : BitVec 12).signExtend 64 &&& ~~~1#64)
      = m.core.GPR (rs1Of inst) := BitVec.add_zero _
  rw [himm, hzero] at ha
  by_cases heven : (m.core.GPR (rs1Of inst)).toNat % 2 = 0
  · rw [if_pos heven]
    exact (stepsTo_link hf ha ((aligned_iff _).mpr heven)).target
  · rw [if_neg heven, target, if_neg]
    rw [trapLog_link hf ha (fun h => heven ((aligned_iff _).mp h))]
    exact List.cons_ne_nil _ _

/-- `C.JR` and `C.JALR` go to their register with bit 0 cleared. -/
theorem target_compressed {hi w : BitVec 16}
    (hf : fetchInst.run m = .ok (some (hi ++ w)) ⟨m.begun, s⟩) (hw : IsJr w ∨ IsJalr w) :
    target m = some (m.core.GPR (rd w) &&& ~~~1#64) := by
  have heven : clearBit0 (m.core.GPR (rd w)) % RV64Core.PC_ALIGN = 0 := by
    rw [clearBit0_eq]
    exact aligned_and_not_one _
  rw [← clearBit0_eq]
  rcases hw with hjr | hjalr
  · exact (stepsTo_link hf (action_jr hi hjr) heven).target
  · exact (stepsTo_link hf (action_cjalr hi hjalr) heven).target

variable (β) in
/-- `JALR` meets the specification, and `C.JR` and `C.JALR` agree with it at offset zero,
exactly where the register is even. -/
theorem indirect_jumps_iff_even :
    (∀ (m : Machine β) (inst : BitVec 32) (s : MMUSys β),
      fetchInst.run m = .ok (some inst) ⟨m.begun, s⟩ → majorOf inst = RV64IOpCode.jalr.val →
      (StepsTo m ((m.core.GPR (rs1Of inst) + (imm12Of inst).signExtend 64) &&& ~~~1#64)
          (rdOf inst) (m.core.currentProgramCounter + 4) ↔
        (m.core.GPR (rs1Of inst)).toNat % 2 = 0)) ∧
    (∀ (m m' : Machine β) (hi w : BitVec 16) (inst : BitVec 32) (s s' : MMUSys β),
      fetchInst.run m = .ok (some (hi ++ w)) ⟨m.begun, s⟩ → IsJr w ∨ IsJalr w →
      fetchInst.run m' = .ok (some inst) ⟨m'.begun, s'⟩ → majorOf inst = RV64IOpCode.jalr.val →
      imm12Of inst = 0 → m.core.GPR (rd w) = m'.core.GPR (rs1Of inst) →
      (target m = target m' ↔ (m.core.GPR (rd w)).toNat % 2 = 0)) := by
  constructor
  · intro m inst s hf hop
    exact stepsTo_jalr_iff hf hop
  · intro m m' hi w inst s s' hf hw hf' hop himm hreg
    rw [target_compressed hf hw, target_jalr hf' hop himm, ← hreg]
    constructor
    · intro h
      by_contra hodd
      rw [if_neg hodd] at h
      cases h
    · intro heven
      have hmask : m.core.GPR (rd w) &&& ~~~1#64 = m.core.GPR (rd w) := by
        apply BitVec.eq_of_toNat_eq
        rw [toNat_and_not_one]
        omega
      rw [if_pos heven, hmask]

end Indirect

/-- A core with 8 in `x1` on the bytes of an instruction. -/
def jumpsFrom8 (bytes : List Byte) : Machine (MEmuMMIOBus MMIOMem) :=
  .ofBytes ((default : RV64Core).reset.setGPR 1 8) bytes

/-- `jalr x2,-3(x1)`, and `c.jr x1` beside `jalr x0,0(x1)`. -/
theorem indirect_jumps_iff_even_eight :
    (StepsTo (jumpsFrom8 [0x67, 0x81, 0xd0, 0xff]) 4 2 4 ↔ (8 : Word).toNat % 2 = 0) ∧
      (target (jumpsFrom8 [0x82, 0x80, 0x00, 0x00]) = target (jumpsFrom8 [0x67, 0x80, 0x00, 0x00]) ↔
        (8 : Word).toNat % 2 = 0) := by
  have hiff := indirect_jumps_iff_even (MEmuMMIOBus MMIOMem)
  constructor
  · exact hiff.1 (jumpsFrom8 [0x67, 0x81, 0xd0, 0xff]) 0xffd08167
      (Run.final (fetchInst.run (jumpsFrom8 [0x67, 0x81, 0xd0, 0xff]))).mem (by rfl) (by decide)
  · exact hiff.2 (jumpsFrom8 [0x82, 0x80, 0x00, 0x00]) (jumpsFrom8 [0x67, 0x80, 0x00, 0x00]) 0
      0x8082 0x00008067 (Run.final (fetchInst.run (jumpsFrom8 [0x82, 0x80, 0x00, 0x00]))).mem
      (Run.final (fetchInst.run (jumpsFrom8 [0x67, 0x80, 0x00, 0x00]))).mem (by rfl)
      (.inl (by decide)) (by rfl) (by decide) (by decide) (by rfl)

/-- A core with 1 in `x1` on `jalr x0,1(x1)`. -/
def oddJalr : Machine (MEmuMMIOBus MMIOMem) :=
  .ofBytes ((default : RV64Core).reset.setGPR 1 1) [0x67, 0x80, 0x10, 0x00]

/-- The target is 2, and the step traps. -/
theorem jalr_odd_traps :
    ¬∀ (m : Machine (MEmuMMIOBus MMIOMem)) (inst : BitVec 32) (s : MMUSys (MEmuMMIOBus MMIOMem)),
      fetchInst.run m = .ok (some inst) ⟨m.begun, s⟩ → majorOf inst = RV64IOpCode.jalr.val →
      StepsTo m ((m.core.GPR (rs1Of inst) + (imm12Of inst).signExtend 64) &&& ~~~1#64)
        (rdOf inst) (m.core.currentProgramCounter + 4) := by
  intro h
  have hsteps := h oddJalr 0x00108067 (Run.final (fetchInst.run oddJalr)).mem (by rfl) (by decide)
  have hlog := hsteps.2.2
  revert hlog
  decide +kernel

end MEmu
