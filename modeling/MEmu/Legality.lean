import MEmu.Exceptions
import MEmu.Lib.RiscVEncodings

/-!
# Illegal instructions

When a step raises an illegal-instruction exception: its action is the illegal one.
`ShouldRaise` is the rule for the nine major opcodes whose minor codes leave gaps, and
`Deviates` the four places where the switches of the source do not follow it.
-/

namespace MEmu

open Machine (onCore)
open RiscV (majorOf rdOf funct3Of rs2Of funct5Of funct6Of funct7Of bitVec3_cases)

/-! ## The illegal action raises the exception -/

section Raises

variable {β : Type} [MMIOBus β]

/-- The step from `m` raises an illegal-instruction exception. -/
def RaisesIllegal (m : Machine β) : Prop :=
  ∃ tval, (Cause.exception .illegalInstr, tval) ∈ (Run.final (stepCoreAPI.run m)).core.trapLog

/-- The exceptions of the decode and of the fetch before it. -/
def decodeCauses : List ExecFeedbackCode := [.illegalInstr, .instrAccFault, .instrPgfault]

/-- The cause of an `ecall` is none that the decoder raises. -/
theorem ecallCause_ne {e : ExecFeedbackCode} (he : e ∈ decodeCauses) (c : RV64Core) :
    Cause.exception e ≠ ecallCause c := by
  have hmodes : ∀ mode : PrivMode, ∀ e ∈ decodeCauses, e.val ≠ mode.val.setWidth 63 + 8 := by
    intro mode
    cases mode <;> decide
  intro heq
  have hval := congrArg Cause.cause heq
  rw [Cause.exception, ecallCause, Cause.cause_mk, Cause.cause_mk] at hval
  exact hmodes c.currentPrivMode e he hval

/-- Nor is a fault of a data access. -/
theorem MemOp.IsDataFault.not_decode {e : ExecFeedbackCode} (h : IsDataFault e) :
    e ∉ decodeCauses := by
  cases e <;> first | exact h.elim | decide

/-- Of the actions only the illegal one leaves such a cause in the log, and which one. -/
theorem Ends.decode_mem_iff {c c' : RV64Core} {a : Action} {flags : ExecFlags}
    (h : Ends c a flags c') (inst : BitVec 32) (hlog : c.trapLog = []) {e : ExecFeedbackCode}
    (he : e ∈ decodeCauses) :
    (∃ tval, (Cause.exception e, tval) ∈ (c'.atExit inst flags).trapLog) ↔
      a = .illegal ∧ e = .illegalInstr := by
  have hquiet {d : RV64Core} (hd : d.trapLog = c.trapLog) :
      ¬∃ tval, (Cause.exception e, tval) ∈ d.trapLog := by
    rintro ⟨tval, hmem⟩
    rw [hd, hlog] at hmem
    exact absurd hmem List.not_mem_nil
  have htrapped (cause tval : Word) :
      (∃ t, (Cause.exception e, t) ∈ (c.trapped cause tval).trapLog) ↔ Cause.exception e = cause := by
    rw [trapLog_trapped, hlog, List.nil_append]
    simp
  have hother {code : ExecFeedbackCode} (tval : Word) (hcode : code ∉ decodeCauses) :
      ¬∃ t, (Cause.exception e, t) ∈ (c.trapped (Cause.exception code) tval).trapLog := by
    rw [htrapped]
    exact Cause.exception_injective.ne (ne_of_mem_of_not_mem he hcode)
  have hlegal {b : Action} (hb : b ≠ .illegal) : ¬(b = .illegal ∧ e = .illegalInstr) :=
    fun hill => hb hill.1
  cases h with
  | illegal =>
      refine (htrapped (Cause.exception .illegalInstr) (inst.setWidth 64)).trans ?_
      rw [Cause.exception_injective.eq_iff]
      exact (and_iff_right rfl).symm
  | linkTraps rd ret npc | branchTraps npc =>
      rw [atExit_legal rfl]
      exact iff_of_false (hother npc (by decide)) (hlegal Action.noConfusion)
  | fault op rd cause hc =>
      rw [atExit_legal rfl]
      exact iff_of_false (hother op.addr hc.not_decode) (hlegal Action.noConfusion)
  | ecall =>
      rw [atExit_legal rfl, htrapped]
      exact iff_of_false (ecallCause_ne he c) (hlegal Action.noConfusion)
  | ebreak =>
      rw [atExit_legal rfl]
      exact iff_of_false (hother 0 (by decide)) (hlegal Action.noConfusion)
  | set rd value | value op rd value =>
      rw [atExit_legal rfl]
      exact iff_of_false (hquiet (c.setGPR_trapLog rd value)) (hlegal Action.noConfusion)
  | link rd ret npc =>
      rw [atExit_legal rfl]
      exact iff_of_false (hquiet (c.setGPR_trapLog rd ret)) (hlegal Action.noConfusion)
  | csr a value old rd d hw =>
      rw [atExit_legal rfl]
      refine iff_of_false (hquiet ((d.setGPR_trapLog rd old).trans ?_)) (hlegal Action.noConfusion)
      exact (RV64Core.csrWriteCase_frame hw).trapLog
  | jump | branch | mret | sret | sfence =>
      rw [atExit_legal rfl]
      exact iff_of_false (hquiet rfl) (hlegal Action.noConfusion)

/-- A step raises the exception exactly where its instruction asks for nothing. -/
theorem raisesIllegal_iff {m : Machine β} {inst : BitVec 32} {s : MMUSys β}
    (hf : fetchInst.run m = .ok (some inst) ⟨m.begun, s⟩) :
    RaisesIllegal m ↔ action inst m.begun = .illegal := by
  unfold RaisesIllegal
  cases ha : ((action inst m.begun).exec).run ⟨m.begun, s⟩ with
  | ok flags m₁ =>
      obtain ⟨hends, hfinal⟩ := final_of_action hf ha
      rw [hfinal]
      exact (hends.decode_mem_iff inst rfl (by decide)).trans (and_iff_left rfl)
  | error e m₁ =>
      have hcore : m₁.core = m.begun := by
        have he := (action_decodes inst m.begun).effect (m := ⟨m.begun, s⟩) (needTrap_begun m)
        rw [ha] at he
        cases he <;> rfl
      rw [run_stepCoreAPI_of_action hf, ha]
      refine iff_of_false ?_ ?_
      · rintro ⟨tval, hmem⟩
        have hlog : m₁.core.trapLog = [] := by rw [hcore]; rfl
        exact absurd (hlog ▸ hmem) List.not_mem_nil
      · intro hill
        rw [hill] at ha
        cases ha

end Raises

/-! ## The rule -/

/-- The major opcodes of the rule. -/
def ruledOpcodes : List RV64IOpCode :=
  [.op, .op32, .opimm, .opimm32, .load, .store, .branch, .amo, .system]

/-- A CSR instruction writes: a swap always, the others unless they name `x0`. -/
def csrWrites (inst : BitVec 32) : Bool :=
  funct3Of inst == 0b001 || funct3Of inst == 0b101 || RVInst.rs1 inst != 0

/-- `csr_write` returns false for the number, whatever the value. -/
def CsrWriteRefuses (csr_index : BitVec 12) (c : RV64Core) : Prop :=
  ∀ v, (CSRAddr.ofVal csr_index).bind (c.csrWriteCase v) = none

/-- A privileged or CSR instruction that the mode does not permit. -/
def NotPermitted (inst : BitVec 32) (c : RV64Core) : Prop :=
  (inst = RiscV.mret ∧ c.currentPrivMode ≠ .mMode) ∨
  (inst = RiscV.sret ∧ (c.currentPrivMode.val < PrivMode.sMode.val ∨
    c.currentPrivMode = .sMode ∧ MStatus.tsr c.status = true)) ∨
  (RiscV.IsSfence inst ∧ (c.currentPrivMode.val < PrivMode.sMode.val ∨
    c.currentPrivMode = .sMode ∧ MStatus.tvm c.status = true)) ∨
  (RiscV.IsCsr inst ∧ (c.currentPrivMode.val < BitField.get 8 2 (RVInst.csrIndex inst) ∨
    BitField.get 10 2 (RVInst.csrIndex inst) = 3 ∧ csrWrites inst = true))

/-- A CSR instruction whose read or required write is refused. -/
def CsrRefused (inst : BitVec 32) (c : RV64Core) : Prop :=
  RiscV.IsCsr inst ∧ (c.csrRead (RVInst.csrIndex inst) = none ∨
    csrWrites inst = true ∧ CsrWriteRefuses (RVInst.csrIndex inst) c)

/-- The instruction is to raise an illegal-instruction exception. -/
def ShouldRaise (inst : BitVec 32) (c : RV64Core) : Prop :=
  ¬RiscV.Defined inst ∨ NotPermitted inst c ∨ CsrRefused inst c

/-- Where the source does not follow the rule. -/
inductive Deviates (inst : BitVec 32) (c : RV64Core) : Prop where
  /-- `SLLI` with the highest bit set, whose immediate is negative and passes `imm >= 64`. -/
  | slli (hop : majorOf inst = 0b0010011) (h3 : funct3Of inst = 0b001)
      (hbit : inst.getLsbD 31 = true)
  /-- The code of `sret` and `wfi` with a register named, which does nothing. -/
  | sretWfi (hop : majorOf inst = 0b1110011) (h3 : funct3Of inst = 0b000)
      (h7 : funct7Of inst = 0b0001000) (hregs : noRegs inst = false)
  /-- `sret` above S-mode with `TSR` set, which is refused. -/
  | sretAbove (hinst : inst = RiscV.sret) (hmode : PrivMode.sMode.val < c.currentPrivMode.val)
      (htsr : MStatus.tsr c.status = true)
  /-- `sfence.vma` with `rd` named, which flushes where it is permitted. -/
  | sfenceRd (hop : majorOf inst = 0b1110011) (h3 : funct3Of inst = 0b000)
      (h7 : funct7Of inst = 0b0001001) (hrd : rdOf inst ≠ 0) (hperm : c.sfencePermitted = true)

/-! ## The opcodes without privileged instructions -/

section Opcodes

variable {inst : BitVec 32} {c : RV64Core}

/-- Outside of `SYSTEM` an instruction is illegal where it is not defined. -/
theorem shouldRaise_iff_of_ne (hop : majorOf inst ≠ 0b1110011) :
    ShouldRaise inst c ↔ ¬RiscV.Defined inst := by
  have hmret : inst ≠ RiscV.mret := by
    rintro rfl
    exact hop (by decide)
  have hsret : inst ≠ RiscV.sret := by
    rintro rfl
    exact hop (by decide)
  have hcsr : ¬RiscV.IsCsr inst := fun h => hop h.1
  have hsfence : ¬RiscV.IsSfence inst := fun h => hop h.1
  simp only [ShouldRaise, NotPermitted, CsrRefused, hmret, hsret, hcsr, hsfence, false_and,
    or_false]

/-- Outside of `SYSTEM` only `slli` with its highest bit set deviates. -/
theorem not_deviates (hop : majorOf inst ≠ 0b1110011)
    (hslli : majorOf inst = 0b0010011 → funct3Of inst = 0b001 → inst.getLsbD 31 = false) :
    ¬Deviates inst c := by
  rintro (⟨hi, h3, hbit⟩ | ⟨hi⟩ | ⟨rfl⟩ | ⟨hi⟩)
  · exact Bool.false_ne_true ((hslli hi h3).symm.trans hbit)
  · exact hop hi
  · exact hop (by decide)
  · exact hop hi

/-- A computation between registers is illegal where the switch has no case. -/
theorem ofOp_illegal {op_32 : Bool} {r : Option ALUOp} :
    Action.ofOp inst op_32 c r = .illegal ↔ r = none := by
  cases r <;> simp [Action.ofOp]

/-- So is one with an immediate, -/
theorem ofOpImm_illegal {op_32 : Bool} {r : Option (ALUOp × Word)} :
    Action.ofOpImm inst op_32 c r = .illegal ↔ r = none := by
  cases r <;> simp [Action.ofOpImm]

/-- and an access. -/
theorem ofAccess_illegal {ops : Option (MemOp × BitVec 5)} :
    Action.ofAccess ops = .illegal ↔ ops = none := by
  cases ops <;> simp [Action.ofAccess]

/-- The switch of `OP` has a case for every defined instruction. -/
theorem opCase_none (hop : majorOf inst = 0b0110011) :
    opCase inst = none ↔ ¬RiscV.Defined inst := by
  rw [RiscV.defined_op hop]
  change _ ↔ ¬∃ f : RiscV.AluOp, RVInst.funct3 inst = f.funct3 ∧ RVInst.funct7 inst = f.funct7
  unfold opCase
  generalize RVInst.funct7 inst = funct7
  generalize RVInst.funct3 inst = funct3
  split
  case h_1 | h_2 | h_3 =>
    revert funct3
    decide
  case h_4 hnormal hsub hmul =>
    refine iff_of_true rfl ?_
    rintro ⟨f, -, h⟩
    cases f <;> first | exact hnormal h | exact hsub h | exact hmul h

/-- So has that of `OP-32`, -/
theorem op32Case_none (hop : majorOf inst = 0b0111011) :
    op32Case inst = none ↔ ¬RiscV.Defined inst := by
  rw [RiscV.defined_op32 hop]
  change _ ↔ ¬∃ f : RiscV.WordOp,
    RVInst.funct3 inst = f.toAlu.funct3 ∧ RVInst.funct7 inst = f.toAlu.funct7
  unfold op32Case
  generalize RVInst.funct7 inst = funct7
  generalize RVInst.funct3 inst = funct3
  split
  case h_1 | h_2 | h_3 =>
    revert funct3
    decide
  case h_4 hnormal hsub hmul =>
    refine iff_of_true rfl ?_
    rintro ⟨f, -, h⟩
    cases f <;> first | exact hnormal h | exact hsub h | exact hmul h

/-- that of the loads, -/
theorem loadOp_none (hop : majorOf inst = 0b0000011) :
    loadOp inst c = none ↔ ¬RiscV.Defined inst := by
  rw [RiscV.defined_load hop, loadOp, Option.map_eq_none_iff]
  change _ ↔ ¬RVInst.funct3 inst ≠ 0b111
  generalize RVInst.funct3 inst = funct3
  revert funct3
  decide

/-- and that of the stores. -/
theorem storeOp_none (hop : majorOf inst = 0b0100011) :
    storeOp inst c = none ↔ ¬RiscV.Defined inst := by
  rw [RiscV.defined_store hop, storeOp, Option.map_eq_none_iff]
  change _ ↔ ¬RVInst.funct3 inst < 0b100
  generalize RVInst.funct3 inst = funct3
  revert funct3
  decide

/-- Two values of `funct3` are no comparison. -/
theorem branchTaken_none (a b : Word) (funct3 : BitVec 3) :
    branchTaken a b funct3 = none ↔ ¬(funct3 ≠ 0b010 ∧ funct3 ≠ 0b011) := by
  have hsome {taken : Bool} {p : Prop} (hp : ¬p) : (some taken = none) ↔ p :=
    iff_of_false (Option.some_ne_none taken) hp
  rcases bitVec3_cases funct3 with rfl | rfl | rfl | rfl | rfl | rfl | rfl | rfl
  · exact hsome (by decide)
  · exact hsome (by decide)
  · exact iff_of_true rfl (by decide)
  · exact iff_of_true rfl (by decide)
  all_goals exact hsome (by decide)

/-- The switch of the branches has a case for every defined instruction. -/
theorem ofBranch_illegal (hop : majorOf inst = 0b1100011) :
    Action.ofBranch inst c = .illegal ↔ ¬RiscV.Defined inst := by
  have hnone : Action.ofBranch inst c = .illegal ↔
      branchTaken (c.GPR (RVInst.rs1 inst)) (c.GPR (RVInst.rs2 inst)) (RVInst.funct3 inst)
        = none := by
    unfold Action.ofBranch
    split <;> simp [*, Action.nop]
  rw [hnone, RiscV.defined_branch hop]
  exact branchTaken_none _ _ _

/-- `imm >= 64` on the signed immediate, by the bits above the shift amount. -/
theorem sle_imm12 (v : BitVec 12) :
    (64 : Word).sle (v.signExtend 64)
      = (!(BitField.get 6 6 v).getLsbD 5 && BitField.get 6 6 v != 0) := by
  have hmsb : (BitField.get 6 6 v).getLsbD 5 = v.msb := by
    rw [BitField.getLsbD_get]
    rfl
  have hhigh : (BitField.get 6 6 v = 0) ↔ v.toNat / 64 = 0 := by
    rw [BitVec.toNat_eq, BitField.get, BitVec.extractLsb'_toNat, Nat.shiftRight_eq_div_pow]
    have := v.isLt
    show _ ↔ _
    simp
    omega
  have hsigned : (v.signExtend 64).toInt = v.toInt := BitVec.toInt_signExtend_of_le (by decide)
  have hint : v.toInt = if v.msb = true then (v.toNat : Int) - 4096 else v.toNat :=
    BitVec.toInt_eq_msb_cond v
  have h64 : (64 : Word).toInt = 64 := rfl
  rw [hmsb, BitVec.sle_eq_decide, hsigned, hint, h64, Bool.eq_iff_iff, decide_eq_true_iff,
    Bool.and_eq_true, bne_iff_ne, Ne, hhigh]
  cases v.msb with
  | true => simp; omega
  | false => simp

/-- The immediate of a shift is 64 or more where its upper six bits say so. -/
theorem imm12_sle (inst : BitVec 32) :
    (64 : Word).sle (RVInst.imm12 inst)
      = (!(funct6Of inst).getLsbD 5 && funct6Of inst != 0) := by
  have h := sle_imm12 (BitField.get 20 12 inst)
  rwa [BitField.get_get 20 12 6 6 inst (by decide)] at h

/-- The shifts with immediates that the switch of `OP-IMM` refuses. -/
theorem opimmCase_none_iff : opimmCase inst = none ↔
    (funct3Of inst = 0b001 ∧ (funct6Of inst).getLsbD 5 = false ∧ funct6Of inst ≠ 0) ∨
      (funct3Of inst = 0b101 ∧ funct6Of inst ≠ 0 ∧ funct6Of inst ≠ 0b010000) := by
  have hfun6 : BitField.get 1 6 (RVInst.funct7 inst) = funct6Of inst :=
    BitField.get_get 25 7 1 6 inst (by decide)
  have h3 : RVInst.funct3 inst = funct3Of inst := rfl
  simp only [opimmCase, imm12_sle, hfun6, h3]
  have hsome {p : ALUOp × Word} {f : BitVec 3} (h₁ : f ≠ 0b001) (h₅ : f ≠ 0b101) :
      some p = none ↔ (f = 0b001 ∧ (funct6Of inst).getLsbD 5 = false ∧ funct6Of inst ≠ 0) ∨
        (f = 0b101 ∧ funct6Of inst ≠ 0 ∧ funct6Of inst ≠ 0b010000) :=
    iff_of_false (Option.some_ne_none p) (by rintro (⟨h, -⟩ | ⟨h, -⟩) <;> contradiction)
  rcases bitVec3_cases (funct3Of inst) with h | h | h | h | h | h | h | h <;> rw [h]
  case inr.inl =>
    show (if _ then none else some _) = none ↔ _
    simp
  case inr.inr.inr.inr.inr.inl =>
    show (if _ then none else some _) = none ↔ _
    simp [Funct6.normal, Funct6.sra]
  all_goals exact hsome (by decide) (by decide)

/-- The case of the shift is the rule but for a set highest bit. -/
theorem opimmCase_none (hop : majorOf inst = 0b0010011) :
    (opimmCase inst = none ↔ ¬RiscV.Defined inst) ↔
      ¬(funct3Of inst = 0b001 ∧ inst.getLsbD 31 = true) := by
  have hbit : inst.getLsbD 31 = (funct6Of inst).getLsbD 5 := by
    rw [funct6Of, BitField.getLsbD_get]
    rfl
  rw [RiscV.defined_opImm hop, opimmCase_none_iff, hbit]
  generalize funct3Of inst = funct3
  generalize funct6Of inst = funct6
  revert funct3 funct6
  decide +kernel

/-- What the switch of `OP-IMM-32` refuses. -/
theorem opimm32Case_none_iff : opimm32Case inst = none ↔
    (funct3Of inst = 0b001 ∧ funct7Of inst ≠ 0) ∨
      (funct3Of inst = 0b101 ∧ funct7Of inst ≠ 0 ∧ funct7Of inst ≠ 0b0100000) ∨
      (funct3Of inst ≠ 0b000 ∧ funct3Of inst ≠ 0b001 ∧ funct3Of inst ≠ 0b101) := by
  have hfun6 : funct6Of inst = BitField.get 1 6 (funct7Of inst) :=
    (BitField.get_get 25 7 1 6 inst (by decide)).symm
  have h7 : RVInst.funct7 inst = funct7Of inst := rfl
  have h3 : RVInst.funct3 inst = funct3Of inst := rfl
  simp only [opimm32Case, imm12_sle, hfun6, h7, h3]
  rcases bitVec3_cases (funct3Of inst) with h | h | h | h | h | h | h | h <;> rw [h]
  case inl => exact iff_of_false (Option.some_ne_none _) (by simp)
  case inr.inl =>
    show (if _ then none else some _) = none ↔ _
    generalize funct7Of inst = funct7
    by_cases hz : funct7 = 0
    · simp [hz, Funct7.normal, BitField.get]
    · have hz' : ¬funct7 = 0#7 := hz
      simp [hz', Funct7.normal]
  case inr.inr.inr.inr.inr.inl =>
    show (if _ then none else some _) = none ↔ _
    simp [Funct7.normal, Funct7.subSra]
  all_goals exact iff_of_true rfl (by simp)

/-- It has a case for every defined instruction. -/
theorem opimm32Case_none (hop : majorOf inst = 0b0011011) :
    opimm32Case inst = none ↔ ¬RiscV.Defined inst := by
  rw [RiscV.defined_opImm32 hop, opimm32Case_none_iff]
  generalize funct3Of inst = funct3
  generalize funct7Of inst = funct7
  revert funct3 funct7
  decide +kernel

/-- A code without a case is neither that of `lr` nor that of an AMO. -/
theorem AMOFunct.ofVal_none {v : BitVec 5} (h : AMOFunct.ofVal v = none) :
    v ≠ 0b00010 ∧ v ∉ RiscV.amoCodes := by
  revert v
  decide

theorem AMOFunct.ofVal_some {v : BitVec 5} {f : AMOFunct} (h : AMOFunct.ofVal v = some f) :
    f.val = v :=
  beq_iff_eq.mp (List.find?_some (p := fun f : AMOFunct => f.val == v) h)

/-- The switch of `AMO` has a case for every defined instruction. -/
theorem amoOp_none (hop : majorOf inst = 0b0101111) :
    amoOp inst c = none ↔ ¬RiscV.Defined inst := by
  have h5 : BitField.get 2 5 (RVInst.funct7 inst) = funct5Of inst :=
    BitField.get_get 25 7 2 5 inst (by decide)
  have h3 : RVInst.funct3 inst = funct3Of inst := rfl
  have h2 : RVInst.rs2 inst = rs2Of inst := rfl
  rw [RiscV.defined_amo hop, amoOp, h5, h3, h2]
  by_cases hwidth : funct3Of inst = 0b010 ∨ funct3Of inst = 0b011
  case neg => exact iff_of_true (if_pos (not_or.mp hwidth)) (fun h => hwidth h.1)
  rw [if_neg (fun h => not_or.mpr h hwidth)]
  cases hf : AMOFunct.ofVal (funct5Of inst) with
  | none =>
      obtain ⟨hlr, hother⟩ := AMOFunct.ofVal_none hf
      exact iff_of_true rfl (fun h => h.2.elim (fun h => hlr h.1) hother)
  | some f =>
      rw [← AMOFunct.ofVal_some hf]
      cases f with
      | lr =>
          have hmem : AMOFunct.lr.val ∉ RiscV.amoCodes := by decide
          by_cases hrs2 : rs2Of inst = 0
          · refine iff_of_false ?_ (not_not.mpr ⟨hwidth, .inl ⟨rfl, hrs2⟩⟩)
            simp [hrs2]
          · refine iff_of_true (if_pos hrs2) ?_
            rintro ⟨-, h | h⟩
            · exact hrs2 h.2
            · exact hmem h
      | _ =>
          refine iff_of_false (Option.some_ne_none _) (not_not.mpr ⟨hwidth, .inr ?_⟩)
          decide

/-! ## The system instructions -/

/-- A word of the system instructions is known from the rest of its fields. -/
theorem eq_rType_iff (hop : majorOf inst = 0b1110011) (h3 : funct3Of inst = 0)
    (funct7 : BitVec 7) (rs2 : BitVec 5) :
    inst = RiscV.rType funct7 rs2 0 0 0 0b1110011 ↔
      RVInst.funct7 inst = funct7 ∧ RVInst.rs2 inst = rs2 ∧ noRegs inst = true := by
  constructor
  · intro h
    obtain ⟨-, hrd, -, hrs1, hrs2, hf7⟩ := RiscV.fields_rType funct7 rs2 0 0 0 0b1110011
    rw [noRegs, RVInst.funct7, RVInst.rs2, RVInst.rs1, RVInst.rd, h, hrd, hrs1, hrs2, hf7]
    exact ⟨rfl, rfl, rfl⟩
  · rintro ⟨h7, h2, hregs⟩
    exact Decodes.privileged_eq hop h3 h7 h2 hregs

/-- An instruction behind a test is illegal where the test fails. -/
theorem permitted_illegal {allowed : Bool} {a : Action} (ha : a ≠ .illegal) :
    Action.permitted allowed a = .illegal ↔ allowed = false := by
  cases allowed with
  | true => exact iff_of_false ha (by decide)
  | false => exact iff_of_true rfl rfl

/-- What the source tests before `sret`. -/
theorem sretPermitted_false : c.sretPermitted = false ↔
    c.currentPrivMode.val < PrivMode.sMode.val ∨ MStatus.tsr c.status = true := by
  simp only [RV64Core.sretPermitted, Bool.and_eq_false_iff, Bool.not_eq_false', decide_eq_true_eq]

/-- What it tests before `sfence.vma`. -/
theorem sfencePermitted_false : c.sfencePermitted = false ↔
    c.currentPrivMode.val < PrivMode.sMode.val ∨
      c.currentPrivMode = .sMode ∧ MStatus.tvm c.status = true := by
  simp only [RV64Core.sfencePermitted, Bool.not_eq_false', Bool.or_eq_true, decide_eq_true_eq,
    Bool.and_eq_true, beq_iff_eq]

/-- What the rule asks of a word of `FUNCT3_PRIV`. -/
theorem shouldRaise_priv (hop : majorOf inst = 0b1110011) (h3 : funct3Of inst = 0) :
    ShouldRaise inst c ↔
      ¬(inst ∈ [RiscV.ecall, RiscV.ebreak, RiscV.sret, RiscV.mret, RiscV.wfi] ∨
          RiscV.IsSfence inst) ∨
        (inst = RiscV.mret ∧ c.currentPrivMode ≠ .mMode) ∨
        (inst = RiscV.sret ∧ (c.currentPrivMode.val < PrivMode.sMode.val ∨
          c.currentPrivMode = .sMode ∧ MStatus.tsr c.status = true)) ∨
        (RiscV.IsSfence inst ∧ c.sfencePermitted = false) := by
  have hcsr : ¬RiscV.IsCsr inst := fun h => h.2.1 h3
  simp only [ShouldRaise, NotPermitted, CsrRefused, RiscV.defined_system hop, hcsr, false_and,
    false_or, or_false, sfencePermitted_false]

/-- `sfence.vma` is known by `funct7` and an `rd` of zero. -/
theorem isSfence_iff (hop : majorOf inst = 0b1110011) (h3 : funct3Of inst = 0) :
    RiscV.IsSfence inst ↔ RVInst.funct7 inst = Funct7.sfenceVma ∧ RVInst.rd inst = 0 := by
  constructor
  · rintro ⟨-, -, h7, hrd⟩
    exact ⟨h7, hrd⟩
  · rintro ⟨h7, hrd⟩
    exact ⟨hop, h3, h7, hrd⟩

/-- The five words of `FUNCT3_PRIV`, by the fields that its switches read. -/
theorem priv_words (hop : majorOf inst = 0b1110011) (h3 : funct3Of inst = 0) :
    (inst = RiscV.ecall ↔
      RVInst.funct7 inst = Funct7.ecallEbreak ∧ RVInst.rs2 inst = 0 ∧ noRegs inst = true) ∧
    (inst = RiscV.ebreak ↔
      RVInst.funct7 inst = Funct7.ecallEbreak ∧ RVInst.rs2 inst = 1 ∧ noRegs inst = true) ∧
    (inst = RiscV.sret ↔
      RVInst.funct7 inst = Funct7.sretWfi ∧ RVInst.rs2 inst = 0b00010 ∧ noRegs inst = true) ∧
    (inst = RiscV.mret ↔
      RVInst.funct7 inst = Funct7.mret ∧ RVInst.rs2 inst = 0b00010 ∧ noRegs inst = true) ∧
    (inst = RiscV.wfi ↔
      RVInst.funct7 inst = Funct7.sretWfi ∧ RVInst.rs2 inst = 0b00101 ∧ noRegs inst = true) := by
  have hecall : RiscV.ecall = RiscV.rType Funct7.ecallEbreak 0 0 0 0 0b1110011 := by decide
  have hebreak : RiscV.ebreak = RiscV.rType Funct7.ecallEbreak 1 0 0 0 0b1110011 := by decide
  rw [hecall, hebreak, RiscV.sret, RiscV.mret, RiscV.wfi]
  exact ⟨eq_rType_iff hop h3 _ _, eq_rType_iff hop h3 _ _, eq_rType_iff hop h3 _ _,
    eq_rType_iff hop h3 _ _, eq_rType_iff hop h3 _ _⟩

/-- The three deviations of the row of `ecall`. -/
theorem deviates_priv_iff (hop : majorOf inst = 0b1110011) (h3 : funct3Of inst = 0) :
    Deviates inst c ↔
      (RVInst.funct7 inst = Funct7.sretWfi ∧ noRegs inst = false) ∨
      (inst = RiscV.sret ∧ PrivMode.sMode.val < c.currentPrivMode.val ∧
        MStatus.tsr c.status = true) ∨
      (RVInst.funct7 inst = Funct7.sfenceVma ∧ RVInst.rd inst ≠ 0 ∧
        c.sfencePermitted = true) := by
  constructor
  · rintro (⟨hi, -, -⟩ | ⟨-, -, h7, hregs⟩ | ⟨hinst, hmode, htsr⟩ | ⟨-, -, h7, hrd, hperm⟩)
    · rw [hop] at hi
      cases hi
    · exact .inl ⟨h7, hregs⟩
    · exact .inr (.inl ⟨hinst, hmode, htsr⟩)
    · exact .inr (.inr ⟨h7, hrd, hperm⟩)
  · rintro (⟨h7, hregs⟩ | ⟨hinst, hmode, htsr⟩ | ⟨h7, hrd, hperm⟩)
    · exact .sretWfi hop h3 h7 hregs
    · exact .sretAbove hinst hmode htsr
    · exact .sfenceRd hop h3 h7 hrd hperm

/-- `sret` as permitted by the source against the rule: they part above S-mode. -/
theorem sret_rule :
    (c.sretPermitted = false ↔ c.currentPrivMode.val < PrivMode.sMode.val ∨
        c.currentPrivMode = .sMode ∧ MStatus.tsr c.status = true) ↔
      ¬(PrivMode.sMode.val < c.currentPrivMode.val ∧ MStatus.tsr c.status = true) := by
  rw [sretPermitted_false]
  cases MStatus.tsr c.status <;> cases c.currentPrivMode <;> decide

/-- That row is right but for these. -/
theorem ofPriv_illegal (hop : majorOf inst = 0b1110011) (h3 : funct3Of inst = 0) :
    (Action.ofPriv inst c = .illegal ↔ ShouldRaise inst c) ↔ ¬Deviates inst c := by
  obtain ⟨hecall, hebreak, hsret, hmret, hwfi⟩ := priv_words hop h3
  rw [shouldRaise_priv hop h3, deviates_priv_iff hop h3]
  simp only [List.mem_cons, List.not_mem_nil, or_false, hecall, hebreak, hsret, hmret, hwfi,
    isSfence_iff hop h3]
  simp only [Action.ofPriv, Funct7.ecallEbreak, Funct7.sretWfi, Funct7.mret, Funct7.sfenceVma]
  generalize RVInst.funct7 inst = funct7
  generalize RVInst.rs2 inst = rs2
  generalize noRegs inst = regs
  by_cases h₀ : funct7 = 0#7
  · cases regs with
    | false => simp [h₀]
    | true => by_cases h : rs2 = 0#5 <;> by_cases h' : rs2 = 1#5 <;> simp [h₀, h, h']
  by_cases h₁ : funct7 = 8#7
  · cases regs with
    | false => simp [h₁, Action.nop]
    | true =>
        by_cases h : rs2 = 2#5
        · simpa [h₁, h, permitted_illegal] using sret_rule (c := c)
        · by_cases h' : rs2 = 5#5 <;> simp [h₁, h, h', Action.nop]
  by_cases h₂ : funct7 = 24#7
  · cases regs with
    | false => simp [h₂]
    | true => by_cases h : rs2 = 2#5 <;> simp [h₂, h, permitted_illegal]
  by_cases h₃ : funct7 = 9#7
  · by_cases h : RVInst.rd inst = 0#5 <;> simp [h₃, h, permitted_illegal]
  · simp [h₀, h₁, h₂, h₃]

/-- Whether `csr_write` has a case for a register does not depend on the value. -/
theorem csrWriteCase_none (v v' : Word) (a : CSRAddr) (h : c.csrWriteCase v a = none) :
    c.csrWriteCase v' a = none := by
  cases a
  case satp =>
    change (if c.tvmTraps then none else some _) = none at h ⊢
    split at h
    · exact if_pos ‹_›
    · cases h
  all_goals first | rfl | cases h

/-- A write to a control register is illegal where it is refused. -/
theorem ofCsrWrite_illegal (value old : Word) :
    Action.ofCsrWrite inst c value old = .illegal ↔
      CsrWriteRefuses (RVInst.csrIndex inst) c := by
  unfold Action.ofCsrWrite CsrWriteRefuses
  cases CSRAddr.ofVal (RVInst.csrIndex inst) with
  | none => simp
  | some a =>
      dsimp only
      rw [permitted_illegal (by simp), Option.isSome_eq_false_iff, Option.isNone_iff_eq_none]
      exact ⟨fun h v => csrWriteCase_none value v a h, fun h => h value⟩

/-- The six instructions on control registers have a case. -/
theorem csrCase_some (h₀ : funct3Of inst ≠ 0b000) (h₄ : funct3Of inst ≠ 0b100) :
    ∃ newValue, csrCase inst c = some (csrWrites inst, newValue) := by
  have h3 : RVInst.funct3 inst = funct3Of inst := rfl
  unfold csrCase csrWrites
  rw [h3]
  revert h₀ h₄
  rcases bitVec3_cases (funct3Of inst) with h | h | h | h | h | h | h | h <;> rw [h] <;>
    intro h₀ h₄
  · exact absurd rfl h₀
  · exact ⟨_, rfl⟩
  · exact ⟨_, rfl⟩
  · exact ⟨_, rfl⟩
  · exact absurd rfl h₄
  all_goals exact ⟨_, rfl⟩

/-- The accesses of control registers are right. -/
theorem ofCsr_illegal (hcsr : RiscV.IsCsr inst) (newValue : Word → Word) :
    Action.ofCsr inst c (csrWrites inst) newValue = .illegal ↔ ShouldRaise inst c := by
  have hword {w : BitVec 32} (hw : funct3Of w = 0) : inst ≠ w := by
    rintro rfl
    exact hcsr.2.1 hw
  have hmret : inst ≠ RiscV.mret := hword (by decide)
  have hsret : inst ≠ RiscV.sret := hword (by decide)
  have hsfence : ¬RiscV.IsSfence inst := fun h => hcsr.2.1 h.2.1
  have hdef : RiscV.Defined inst := (RiscV.defined_system hcsr.1).mpr (.inl hcsr)
  simp only [ShouldRaise, NotPermitted, CsrRefused, hdef, hmret, hsret, hsfence, hcsr, not_true,
    false_and, true_and, false_or]
  unfold Action.ofCsr RV64Core.csrOpPermissionCheck
  by_cases hmode : c.currentPrivMode.val < BitField.get 8 2 (RVInst.csrIndex inst)
  · simp [hmode]
  by_cases hro : BitField.get 10 2 (RVInst.csrIndex inst) = 3 ∧ csrWrites inst = true
  · simp [hro]
  simp only [hmode, hro, if_false, Bool.not_true, Bool.false_eq_true, false_or]
  cases c.csrRead (RVInst.csrIndex inst) with
  | none => simp
  | some old =>
      cases csrWrites inst with
      | false => simp
      | true => simp [ofCsrWrite_illegal]

/-- The opcode `SYSTEM` is right but for the deviations. -/
theorem ofSystem_illegal (hop : majorOf inst = 0b1110011) :
    (Action.ofSystem inst c = .illegal ↔ ShouldRaise inst c) ↔ ¬Deviates inst c := by
  have h3 : RVInst.funct3 inst = funct3Of inst := rfl
  rw [Action.ofSystem, h3]
  by_cases h₀ : funct3Of inst = Funct3.priv
  · rw [if_pos h₀]
    exact ofPriv_illegal hop h₀
  rw [if_neg h₀]
  have hdev : ¬Deviates inst c := by
    rintro (⟨hi, -, -⟩ | ⟨-, h3, -, -⟩ | ⟨rfl, -, -⟩ | ⟨-, h3, -, -, -⟩)
    · rw [hop] at hi
      cases hi
    · exact h₀ h3
    · exact h₀ (by decide)
    · exact h₀ h3
  refine iff_of_true ?_ hdev
  by_cases h₄ : funct3Of inst = 0b100
  · have hnone : csrCase inst c = none := by
      rw [csrCase, h3, h₄]
      rfl
    rw [hnone]
    refine iff_of_true rfl (.inl ?_)
    rw [RiscV.defined_system hop]
    rintro (h | h | h)
    · exact h.2.2 h₄
    · simp only [List.mem_cons, List.not_mem_nil, or_false] at h
      rcases h with rfl | rfl | rfl | rfl | rfl <;> exact h₀ (by decide)
    · exact h₀ h.2.1
  · obtain ⟨newValue, hcase⟩ := csrCase_some (c := c) h₀ h₄
    rw [hcase]
    exact ofCsr_illegal ⟨hop, h₀, h₄⟩ newValue

end Opcodes

/-! ## The rule and the source -/

/-- The decode of a ruled opcode follows the rule but in the four places. -/
theorem action_illegal_iff {inst : BitVec 32} {c : RV64Core} (code : RV64IOpCode)
    (hcode : code ∈ ruledOpcodes) (hop : majorOf inst = code.val) :
    (action inst c = .illegal ↔ ShouldRaise inst c) ↔ ¬Deviates inst c := by
  obtain ⟨haction, hval⟩ := action_of_opcode (c := c) hop
  rw [haction, Action.of32, hval]
  have hrule {a : Action} (hne : majorOf inst ≠ 0b1110011) (hni : majorOf inst ≠ 0b0010011)
      (ha : a = .illegal ↔ ¬RiscV.Defined inst) :
      (a = .illegal ↔ ShouldRaise inst c) ↔ ¬Deviates inst c := by
    rw [shouldRaise_iff_of_ne hne]
    exact iff_of_true ha (not_deviates hne (fun h => absurd h hni))
  have hother {v : BitVec 7} (hv : code.val ≠ v) : majorOf inst ≠ v := by
    rwa [hop]
  cases code with
  | system => exact ofSystem_illegal hop
  | opimm =>
      have hne : majorOf inst ≠ 0b1110011 := hother (by decide)
      rw [shouldRaise_iff_of_ne hne, ofOpImm_illegal, opimmCase_none hop]
      refine not_congr ⟨fun h => .slli hop h.1 h.2, ?_⟩
      intro hdev
      by_contra hno
      exact not_deviates hne (fun _ h3 => Bool.not_eq_true _ ▸ fun hbit => hno ⟨h3, hbit⟩) hdev
  | branch => exact hrule (hother (by decide)) (hother (by decide)) (ofBranch_illegal hop)
  | load =>
      exact hrule (hother (by decide)) (hother (by decide))
        (ofAccess_illegal.trans (loadOp_none hop))
  | store =>
      exact hrule (hother (by decide)) (hother (by decide))
        (ofAccess_illegal.trans (storeOp_none hop))
  | opimm32 =>
      exact hrule (hother (by decide)) (hother (by decide))
        (ofOpImm_illegal.trans (opimm32Case_none hop))
  | op =>
      exact hrule (hother (by decide)) (hother (by decide)) (ofOp_illegal.trans (opCase_none hop))
  | op32 =>
      exact hrule (hother (by decide)) (hother (by decide))
        (ofOp_illegal.trans (op32Case_none hop))
  | amo =>
      exact hrule (hother (by decide)) (hother (by decide))
        (ofAccess_illegal.trans (amoOp_none hop))
  | lui | auipc | jal | jalr | fence => simp [ruledOpcodes] at hcode

/-- A step on a word of a ruled opcode raises the exception as the rule has it, except in
the four places. -/
theorem raisesIllegal_iff_shouldRaise {β : Type} [MMIOBus β] {m : Machine β}
    {inst : BitVec 32} {s : MMUSys β} (code : RV64IOpCode)
    (hf : fetchInst.run m = .ok (some inst) ⟨m.begun, s⟩) (hcode : code ∈ ruledOpcodes)
    (hop : majorOf inst = code.val) :
    (RaisesIllegal m ↔ ShouldRaise inst m.begun) ↔ ¬Deviates inst m.begun := by
  rw [raisesIllegal_iff hf]
  exact action_illegal_iff code hcode hop

/-- On `addi x0,x0,0` the two agree. -/
theorem raisesIllegal_iff_shouldRaise_addi :
    (RaisesIllegal (runFrom [0x13, 0x00, 0x00, 0x00] 0) ↔
        ShouldRaise 0x00000013 (runFrom [0x13, 0x00, 0x00, 0x00] 0).begun) ↔
      ¬Deviates 0x00000013 (runFrom [0x13, 0x00, 0x00, 0x00] 0).begun :=
  raisesIllegal_iff_shouldRaise
    (s := (Run.final (fetchInst.run (runFrom [0x13, 0x00, 0x00, 0x00] 0))).mem) .opimm (by rfl)
    (by decide) (by decide)

/-- `slli x0,x0,0` with the highest bit set is executed. -/
theorem slli_executed :
    ¬∀ (m : Machine (MEmuMMIOBus MMIOMem)) (inst : BitVec 32) (s : MMUSys (MEmuMMIOBus MMIOMem))
        (code : RV64IOpCode),
      fetchInst.run m = .ok (some inst) ⟨m.begun, s⟩ → code ∈ ruledOpcodes →
        majorOf inst = code.val → (RaisesIllegal m ↔ ShouldRaise inst m.begun) := by
  intro h
  have hf : fetchInst.run (runFrom [0x13, 0x10, 0x00, 0x80] 0)
      = .ok (some 0x80001013) ⟨(runFrom [0x13, 0x10, 0x00, 0x80] 0).begun,
          (Run.final (fetchInst.run (runFrom [0x13, 0x10, 0x00, 0x80] 0))).mem⟩ := by rfl
  have hrule := h _ _ _ .opimm hf (by decide) (by decide)
  rw [raisesIllegal_iff hf, action_illegal_iff .opimm (by decide) (by decide)] at hrule
  exact hrule (.slli (by decide) (by decide) (by decide))

end MEmu
