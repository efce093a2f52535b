import MEmu.Decode
import MEmu.StepEffect
import MEmu.Lib.RiscVAlu

/-!
# Integer computation

`alu_exec` computes the operations of `RiscV.AluOp`, at 64 bits and in the word
forms, and each instruction of `RiscV.IntInst` reaches it with the operands that
the specification gives it.
-/

namespace MEmu

open RiscV (AluOp WordOp ImmOp ShiftOp IntInst Reg)

/-! ## The switch of `alu_exec` -/

/-- The case of the switch for an operation. -/
def ALUOp.ofAlu : AluOp → ALUOp
  | .add => .add
  | .sub => .sub
  | .sll => .sll
  | .slt => .slt
  | .sltu => .sltu
  | .xor => .xor
  | .srl => .srl
  | .sra => .sra
  | .or => .or
  | .and => .and
  | .mul => .mul
  | .mulh => .mulh
  | .mulhsu => .mulhsu
  | .mulhu => .mulhu
  | .div => .div
  | .divu => .divu
  | .rem => .rem
  | .remu => .remu

theorem toNat_and_mask (b : Word) (k : Nat) (hk : k < 64) :
    (b &&& BitVec.ofNat 64 (2 ^ k - 1)).toNat = b.toNat % 2 ^ k := by
  have hlt : 2 ^ k - 1 < 2 ^ 64 := by
    have := Nat.pow_lt_pow_right (a := 2) (by decide) hk
    omega
  rw [BitVec.toNat_and, BitVec.toNat_ofNat, Nat.mod_eq_of_lt hlt, Nat.and_two_pow_sub_one_eq_mod]

/-- The amount of a 64-bit shift. -/
theorem shamt_64 (b : Word) : (b &&& 0x3f).toNat = b.toNat % 64 := toNat_and_mask b 6 (by decide)

/-- The amount of a word shift. -/
theorem shamt_32 (b : BitVec 32) : (b.signExtend 64 &&& 0x1f).toNat = b.toNat % 32 := by
  refine (toNat_and_mask _ 5 (by decide)).trans ?_
  have hlow : (b.signExtend 64).setWidth 32 = b := by
    rw [BitVec.signExtend, RiscV.setWidth_ofInt _ (by decide), BitVec.ofInt_toInt]
  have hnat := congrArg BitVec.toNat hlow
  rw [BitVec.toNat_setWidth] at hnat
  omega

/-- At 64 bits the switch is the specification. -/
theorem aluSwitch_64 (f : AluOp) (a b : Word) : aluSwitch a b (.ofAlu f) false = f.eval a b := by
  have hmin : LONG_MIN = BitVec.intMin 64 := by decide
  cases f with
  | add =>
      show a + b = BitVec.ofInt 64 (a.toInt + b.toInt)
      rw [BitVec.ofInt_add, BitVec.ofInt_toInt, BitVec.ofInt_toInt]
  | sub =>
      show a - b = BitVec.ofInt 64 (a.toInt - b.toInt)
      apply BitVec.eq_of_toInt_eq
      rw [BitVec.toInt_sub, BitVec.toInt_ofInt]
  | sll =>
      show a <<< (b &&& 0x3f).toNat = BitVec.ofNat 64 (a.toNat * 2 ^ (b.toNat % 64))
      apply BitVec.eq_of_toNat_eq
      rw [shamt_64, BitVec.toNat_shiftLeft, BitVec.toNat_ofNat, Nat.shiftLeft_eq]
  | slt =>
      show (if a.slt b = true then (1 : Word) else 0) = if a.toInt < b.toInt then 1 else 0
      exact if_congr decide_eq_true_iff rfl rfl
  | sltu | xor | or | and => rfl
  | srl =>
      show a >>> (b &&& 0x3f).toNat = BitVec.ofNat 64 (a.toNat / 2 ^ (b.toNat % 64))
      have hlt : a.toNat / 2 ^ (b.toNat % 64) < 2 ^ 64 :=
        Nat.lt_of_le_of_lt (Nat.div_le_self _ _) a.isLt
      apply BitVec.eq_of_toNat_eq
      rw [shamt_64, BitVec.toNat_ushiftRight, BitVec.toNat_ofNat, Nat.shiftRight_eq_div_pow,
        Nat.mod_eq_of_lt hlt]
  | sra =>
      show a.sshiftRight (b &&& 0x3f).toNat = BitVec.ofInt 64 (a.toInt / 2 ^ (b.toNat % 64))
      rw [shamt_64, BitVec.sshiftRight, Int.shiftRight_eq_div_pow]
      push_cast
      rfl
  | mul =>
      show a * b = BitVec.ofInt 64 (a.toInt * b.toInt)
      rw [BitVec.ofInt_mul, BitVec.ofInt_toInt, BitVec.ofInt_toInt]
  | mulh =>
      show ((a.signExtend 128 * b.signExtend 128) >>> 64).setWidth 64 = _
      rw [BitVec.signExtend, BitVec.signExtend, ← BitVec.ofInt_mul]
      exact RiscV.high_ofInt 64 _
  | mulhsu =>
      show ((a.signExtend 128 * b.setWidth 128) >>> 64).setWidth 64 = _
      rw [BitVec.signExtend, RiscV.setWidth_eq_ofInt 128 b, ← BitVec.ofInt_mul]
      exact RiscV.high_ofInt 64 _
  | mulhu =>
      show ((a.setWidth 128 * b.setWidth 128) >>> 64).setWidth 64 = _
      rw [RiscV.setWidth_eq_ofInt 128 a, RiscV.setWidth_eq_ofInt 128 b, ← BitVec.ofInt_mul]
      exact RiscV.high_ofInt 64 _
  | div =>
      show (if b = 0 then -1 else if a = LONG_MIN ∧ b = -1 then LONG_MIN else a.sdiv b)
        = if b = 0 then -1 else if a = BitVec.intMin 64 ∧ b = -1 then a
          else BitVec.ofInt 64 (a.toInt.tdiv b.toInt)
      have hdiv : a.sdiv b = BitVec.ofInt 64 (a.toInt.tdiv b.toInt) := by
        apply BitVec.eq_of_toInt_eq
        rw [BitVec.toInt_sdiv, BitVec.toInt_ofInt]
      rw [hmin, hdiv]
      refine if_congr Iff.rfl rfl ?_
      split
      · next hov => rw [hov.1]
      · rfl
  | divu =>
      show (if b = 0 then -1 else a / b) = if b = 0 then -1 else BitVec.ofNat 64 (a.toNat / b.toNat)
      rw [← BitVec.toNat_udiv, BitVec.ofNat_toNat, BitVec.setWidth_eq]
  | rem =>
      show (if b = 0 then a else if a = LONG_MIN ∧ b = -1 then 0 else a.srem b)
        = if b = 0 then a else if a = BitVec.intMin 64 ∧ b = -1 then 0
          else BitVec.ofInt 64 (a.toInt.tmod b.toInt)
      rw [hmin, ← BitVec.toInt_srem, BitVec.ofInt_toInt]
  | remu =>
      show (if b = 0 then a else a % b) = if b = 0 then a else BitVec.ofNat 64 (a.toNat % b.toNat)
      rw [← BitVec.toNat_umod, BitVec.ofNat_toNat, BitVec.setWidth_eq]

/-! ## Word forms -/

/-- The casts to 32 bits of an extended word. -/
theorem setWidth_signExtend (x : BitVec 32) : (x.signExtend 64).setWidth 32 = x := by
  rw [BitVec.signExtend, RiscV.setWidth_ofInt _ (by decide), BitVec.ofInt_toInt]

theorem uint32_signExtend (x : BitVec 32) : uint32 (x.signExtend 64) = x.setWidth 64 := by
  rw [uint32, setWidth_signExtend]

/-- The mask of a logical right shift is the same cast. -/
theorem signExtend_and_mask (x : BitVec 32) : x.signExtend 64 &&& 0xffffffff = x.setWidth 64 := by
  apply BitVec.eq_of_toNat_eq
  refine (toNat_and_mask (x.signExtend 64) 32 (by decide)).trans ?_
  rw [← BitVec.toNat_setWidth, setWidth_signExtend, BitVec.toNat_setWidth,
    Nat.mod_eq_of_lt (Nat.lt_trans x.isLt (by decide))]

theorem signExtend_toInt (x : BitVec 32) : (x.signExtend 64).toInt = x.toInt :=
  BitVec.toInt_signExtend_of_le (by decide)

theorem signExtend_eq_iff (x y : BitVec 32) : x.signExtend 64 = y.signExtend 64 ↔ x = y := by
  refine ⟨fun h => ?_, fun h => congrArg _ h⟩
  rw [← setWidth_signExtend x, h, setWidth_signExtend]

/-- No extended word is the least integer. -/
theorem signExtend_ne_min (x : BitVec 32) : x.signExtend 64 ≠ LONG_MIN := by
  intro h
  have hmin : (x.signExtend 64).toInt = LONG_MIN.toInt := congrArg BitVec.toInt h
  have hval : LONG_MIN.toInt = - 2 ^ 63 := by decide
  have hle : - 2 ^ 31 ≤ x.toInt := BitVec.le_toInt x
  rw [signExtend_toInt, hval] at hmin
  omega

/-- The quotient and the remainder of extended words, cut to 32 bits again. -/
theorem setWidth_sdiv (x y : BitVec 32) :
    ((x.signExtend 64).sdiv (y.signExtend 64)).setWidth 32
      = BitVec.ofInt 32 (x.toInt.tdiv y.toInt) := by
  have hdiv : (x.signExtend 64).sdiv (y.signExtend 64) = BitVec.ofInt 64 (x.toInt.tdiv y.toInt) := by
    apply BitVec.eq_of_toInt_eq
    rw [BitVec.toInt_sdiv, signExtend_toInt, signExtend_toInt, BitVec.toInt_ofInt]
  rw [hdiv, RiscV.setWidth_ofInt _ (by decide)]

theorem setWidth_srem (x y : BitVec 32) :
    ((x.signExtend 64).srem (y.signExtend 64)).setWidth 32
      = BitVec.ofInt 32 (x.toInt.tmod y.toInt) := by
  have hrem : (x.signExtend 64).srem (y.signExtend 64) = BitVec.ofInt 64 (x.toInt.tmod y.toInt) := by
    rw [← signExtend_toInt x, ← signExtend_toInt y, ← BitVec.toInt_srem, BitVec.ofInt_toInt]
  rw [hrem, RiscV.setWidth_ofInt _ (by decide)]

/-- At 32 bits the switch, cut to a word, is the specification at that width. -/
theorem aluSwitch_32 (f : WordOp) (x y : BitVec 32) :
    (aluSwitch (x.signExtend 64) (y.signExtend 64) (.ofAlu f.toAlu) true).setWidth 32
      = f.toAlu.eval x y := by
  have hzero : y.signExtend 64 = 0 ↔ y = 0 := signExtend_eq_iff y 0
  cases f with
  | add =>
      show (x.signExtend 64 + y.signExtend 64).setWidth 32 = BitVec.ofInt 32 (x.toInt + y.toInt)
      rw [BitVec.signExtend, BitVec.signExtend, ← BitVec.ofInt_add,
        RiscV.setWidth_ofInt _ (by decide)]
  | sub =>
      show (x.signExtend 64 - y.signExtend 64).setWidth 32 = BitVec.ofInt 32 (x.toInt - y.toInt)
      have hsub : x.signExtend 64 - y.signExtend 64 = BitVec.ofInt 64 (x.toInt - y.toInt) := by
        apply BitVec.eq_of_toInt_eq
        rw [BitVec.toInt_sub, signExtend_toInt, signExtend_toInt, BitVec.toInt_ofInt]
      rw [hsub, RiscV.setWidth_ofInt _ (by decide)]
  | sll =>
      show (x.signExtend 64 <<< (y.signExtend 64 &&& 0x1f).toNat).setWidth 32
        = BitVec.ofNat 32 (x.toNat * 2 ^ (y.toNat % 32))
      rw [shamt_32, BitVec.signExtend, RiscV.shiftLeft_eq_ofInt, RiscV.setWidth_ofInt _ (by decide),
        ← RiscV.shiftLeft_eq_ofInt, BitVec.ofInt_toInt]
      apply BitVec.eq_of_toNat_eq
      rw [BitVec.toNat_shiftLeft, BitVec.toNat_ofNat, Nat.shiftLeft_eq]
  | srl =>
      show ((x.signExtend 64 &&& 0xffffffff) >>> (y.signExtend 64 &&& 0x1f).toNat).setWidth 32
        = BitVec.ofNat 32 (x.toNat / 2 ^ (y.toNat % 32))
      apply BitVec.eq_of_toNat_eq
      rw [shamt_32, signExtend_and_mask, BitVec.toNat_setWidth, BitVec.toNat_ushiftRight,
        BitVec.toNat_setWidth, Nat.mod_eq_of_lt (Nat.lt_trans x.isLt (by decide)),
        Nat.shiftRight_eq_div_pow, BitVec.toNat_ofNat]
  | sra =>
      show ((x.signExtend 64).sshiftRight (y.signExtend 64 &&& 0x1f).toNat).setWidth 32
        = BitVec.ofInt 32 (x.toInt / 2 ^ (y.toNat % 32))
      rw [shamt_32, BitVec.sshiftRight, signExtend_toInt, RiscV.setWidth_ofInt _ (by decide),
        Int.shiftRight_eq_div_pow]
      push_cast
      rfl
  | mul =>
      show (x.signExtend 64 * y.signExtend 64).setWidth 32 = BitVec.ofInt 32 (x.toInt * y.toInt)
      rw [BitVec.signExtend, BitVec.signExtend, ← BitVec.ofInt_mul,
        RiscV.setWidth_ofInt _ (by decide)]
  | div =>
      show (if y.signExtend 64 = 0 then -1
          else if x.signExtend 64 = LONG_MIN ∧ y.signExtend 64 = -1 then LONG_MIN
          else (x.signExtend 64).sdiv (y.signExtend 64)).setWidth 32
        = if y = 0 then -1 else if x = BitVec.intMin 32 ∧ y = -1 then x
          else BitVec.ofInt 32 (x.toInt.tdiv y.toInt)
      have hmin : ¬ (x.signExtend 64 = LONG_MIN ∧ y.signExtend 64 = -1) :=
        fun h => signExtend_ne_min x h.1
      rw [if_neg hmin, apply_ite (BitVec.setWidth 32), setWidth_sdiv]
      refine if_congr hzero rfl ?_
      split
      · next hov =>
          rw [hov.1, hov.2]
          decide
      · rfl
  | divu =>
      show (if y.signExtend 64 = 0 then -1
          else uint32 (x.signExtend 64) / uint32 (y.signExtend 64)).setWidth 32
        = if y = 0 then -1 else BitVec.ofNat 32 (x.toNat / y.toNat)
      rw [apply_ite (BitVec.setWidth 32), uint32_signExtend, uint32_signExtend]
      refine if_congr hzero rfl ?_
      apply BitVec.eq_of_toNat_eq
      rw [BitVec.toNat_setWidth, BitVec.toNat_udiv, BitVec.toNat_setWidth, BitVec.toNat_setWidth,
        Nat.mod_eq_of_lt (Nat.lt_trans x.isLt (by decide)),
        Nat.mod_eq_of_lt (Nat.lt_trans y.isLt (by decide)), BitVec.toNat_ofNat]
  | rem =>
      show (if y.signExtend 64 = 0 then x.signExtend 64
          else if x.signExtend 64 = LONG_MIN ∧ y.signExtend 64 = -1 then 0
          else (x.signExtend 64).srem (y.signExtend 64)).setWidth 32
        = if y = 0 then x else if x = BitVec.intMin 32 ∧ y = -1 then 0
          else BitVec.ofInt 32 (x.toInt.tmod y.toInt)
      have hmin : ¬ (x.signExtend 64 = LONG_MIN ∧ y.signExtend 64 = -1) :=
        fun h => signExtend_ne_min x h.1
      rw [if_neg hmin, apply_ite (BitVec.setWidth 32), setWidth_srem, setWidth_signExtend]
      refine if_congr hzero rfl ?_
      split
      · next hov =>
          rw [hov.1, hov.2]
          decide
      · rfl
  | remu =>
      show (if y.signExtend 64 = 0 then x.signExtend 64
          else uint32 (x.signExtend 64) % uint32 (y.signExtend 64)).setWidth 32
        = if y = 0 then x else BitVec.ofNat 32 (x.toNat % y.toNat)
      rw [apply_ite (BitVec.setWidth 32), uint32_signExtend, uint32_signExtend, setWidth_signExtend]
      refine if_congr hzero rfl ?_
      apply BitVec.eq_of_toNat_eq
      rw [BitVec.toNat_setWidth, BitVec.toNat_umod, BitVec.toNat_setWidth, BitVec.toNat_setWidth,
        Nat.mod_eq_of_lt (Nat.lt_trans x.isLt (by decide)),
        Nat.mod_eq_of_lt (Nat.lt_trans y.isLt (by decide)), BitVec.toNat_ofNat]

/-- `alu_exec` at 64 bits. -/
theorem aluExec_64 (f : AluOp) (a b : Word) : aluExec a b (.ofAlu f) false = f.eval a b := by
  rw [aluExec, if_neg Bool.false_ne_true, if_neg Bool.false_ne_true, if_neg Bool.false_ne_true,
    aluSwitch_64]

/-- `alu_exec` with `op_32`. -/
theorem aluExec_32 (f : WordOp) (a b : Word) :
    aluExec a b (.ofAlu f.toAlu) true = f.toAlu.evalWord a b := by
  rw [aluExec, if_pos rfl, if_pos rfl, if_pos rfl, AluOp.evalWord, int32]
  exact congrArg (BitVec.signExtend 64) (aluSwitch_32 f (a.setWidth 32) (b.setWidth 32))

/-! ## The instructions -/

/-- The operand of a word shift, below the seven bits that tell it apart. -/
theorem shamt5_mask (upper : BitVec 7) (shamt : BitVec 5) (h : upper.getLsbD 0 = false) :
    (upper ++ shamt).signExtend 64 &&& 0x3f = shamt.setWidth 64 := by
  have hsplit : upper ++ shamt = (BitField.get 1 6 upper ++ shamt.setWidth 6 : BitVec 12) := by
    apply BitVec.eq_of_getLsbD_eq
    intro i hi
    rw [BitVec.getLsbD_append, BitVec.getLsbD_append, BitField.get, BitVec.getLsbD_extractLsb',
      BitVec.getLsbD_setWidth]
    obtain hlt | rfl | hgt := Nat.lt_trichotomy i 5
    · simp [hlt, Nat.lt_succ_of_lt hlt]
    · simpa using h
    · have h6 : ¬ i < 6 := by omega
      have h7 : 1 + (i - 6) = i - 5 := by omega
      have h8 : i - 6 < 6 := by omega
      simp [Nat.not_lt_of_lt hgt, h6, h7, h8]
  rw [hsplit, shamt_mask, BitVec.setWidth_setWidth (by decide)]

section Instructions

variable {β : Type} [MMIOBus β] (m : Machine β)

theorem opCase_encode (f : AluOp) :
    opCase (RiscV.rType f.funct7 0 0 f.funct3 0 0) = some (.ofAlu f) := by
  cases f <;> rfl

theorem op32Case_encode (f : WordOp) :
    op32Case (RiscV.rType f.toAlu.funct7 0 0 f.toAlu.funct3 0 0) = some (.ofAlu f.toAlu) := by
  cases f <;> rfl

theorem opimmCase_encode (f : ImmOp) (imm : BitVec 12) (rd rs1 : Reg) :
    opimmCase (RiscV.iType imm rs1 f.toAlu.funct3 rd 0b0010011)
      = some (.ofAlu f.toAlu, imm.signExtend 64) := by
  obtain ⟨_, _, hf3, _, himm⟩ := RiscV.fields_iType rs1 rd f.toAlu.funct3 0b0010011 imm
  simp only [opimmCase, RVInst.funct3, hf3, RVInst.imm12, himm]
  cases f <;> rfl

/-- The amount of `slliw`, `srliw` and `sraiw`. -/
theorem opimm32Case_shift (f : ShiftOp) (shamt : BitVec 5) (rd rs1 : Reg) :
    opimm32Case (RiscV.iType (f.toAlu.funct7 ++ shamt) rs1 f.toAlu.funct3 rd 0b0011011)
      = some (.ofAlu f.toAlu, shamt.setWidth 64) := by
  obtain ⟨_, _, hf3, _, himm⟩ :=
    RiscV.fields_iType rs1 rd f.toAlu.funct3 0b0011011 (f.toAlu.funct7 ++ shamt)
  have hfun7 : BitField.get 5 7 (f.toAlu.funct7 ++ shamt) = f.toAlu.funct7 :=
    BitVec.extractLsb'_append_eq_left
  simp only [opimm32Case, RVInst.funct3, hf3, RVInst.imm12, himm, RVInst.funct7,
    RiscV.funct7_iType, hfun7]
  cases f with
  | sll =>
      have hv : (0b0000000#7 ++ shamt).signExtend 64 = shamt.setWidth 64 := by
        rw [BitField.signExtend_append 64 _ _ (by decide)]
        exact BitVec.zero_or
      have hlt : (64 : Word).sle ((shamt.setWidth 6).setWidth 64) = false := shamt_lt _
      rw [BitVec.setWidth_setWidth (by decide)] at hlt
      have hlegal : ¬ ((64 : Word).sle ((0b0000000#7 ++ shamt).signExtend 64) = true ∨
          (0b0000000#7 : BitVec 7) ≠ Funct7.normal) := by
        rintro (h | h)
        · rw [hv, hlt] at h
          cases h
        · exact h rfl
      exact (if_neg hlegal).trans (congrArg (fun v => some (ALUOp.sll, v)) hv)
  | srl =>
      show some (ALUOp.srl, (0b0000000#7 ++ shamt).signExtend 64 &&& 0x3f) = _
      rw [shamt5_mask _ shamt rfl]
      rfl
  | sra =>
      show some (ALUOp.sra, (0b0100000#7 ++ shamt).signExtend 64 &&& 0x3f) = _
      rw [shamt5_mask _ shamt rfl]
      rfl

/-- Each instruction sets `rd` to the value that the specification gives. -/
theorem run_exec32_int (i : IntInst) :
    (exec32 i.encode).run m = (setInto i.rd (i.value m.core.GPR)).run m := by
  cases i with
  | op f rd rs1 rs2 =>
      refine (run_exec32_op m f.funct7 rs2 rs1 f.funct3 rd (opCase_encode f)).trans ?_
      rw [aluExec_64]
      rfl
  | opWord f rd rs1 rs2 =>
      refine (run_exec32_op32 m f.toAlu.funct7 rs2 rs1 f.toAlu.funct3 rd (op32Case_encode f)).trans ?_
      rw [aluExec_32]
      rfl
  | opImm f rd rs1 imm =>
      refine (run_exec32_opimm m imm rd rs1 (opimmCase_encode f imm rd rs1)).trans ?_
      rw [aluExec_64]
      rfl
  | shiftImm f rd rs1 shamt =>
      have hf := aluExec_64 f.toAlu (m.core.GPR rs1) (shamt.setWidth 64)
      have hset := congrArg (fun v => (setInto rd v).run m) hf
      cases f with
      | sll => exact (run_exec32_slli m shamt rd rs1).trans hset
      | srl => exact (run_exec32_srli m shamt rd rs1).trans hset
      | sra => exact (run_exec32_srai m shamt rd rs1).trans hset
  | addiw rd rs1 imm =>
      refine (run_exec32_addiw m imm rd rs1).trans ?_
      exact congrArg (fun v => (setInto rd v).run m)
        (aluExec_32 .add (m.core.GPR rs1) (imm.signExtend 64))
  | shiftImmWord f rd rs1 shamt =>
      refine (run_exec32_opimm32 m _ rd rs1 (opimm32Case_shift f shamt rd rs1)).trans ?_
      have hf := aluExec_32 f.toWord (m.core.GPR rs1) (shamt.setWidth 64)
      cases f <;> exact congrArg (fun v => (setInto rd v).run m) hf

end Instructions

/-! ## The step -/

/-- The registers that traps write and are steered by, `mip` apart, which a step samples. -/
def RV64Core.trapRegs (c : RV64Core) : List Word :=
  [c.status, c.csrMTrapVecBaseAddr, c.csrMExceptionPC, c.csrMachineCause, c.csrMachineTrapVal,
    c.csrMExceptionDelegation, c.csrMIntDelegation, c.csrIntEnable, c.csrSTrapVecBaseAddr,
    c.csrSExceptionPC, c.csrSupervisorCause, c.csrSupervisorTrapVal]

/-- The core after an instruction that computes a value for `rd`. -/
def RV64Core.computed (rd : Reg) (value : Word) (c : RV64Core) : RV64Core :=
  (c.setGPR rd value).retire false .plain

section Step

variable {β : Type} [MMIOBus β]

/-- What a step that executes `i` leaves. -/
structure Computes (i : IntInst) (m m' : Machine β) : Prop where
  rd : i.rd ≠ 0 → m'.core.GPR i.rd = i.value m.core.GPR
  others : ∀ r, r = 0 ∨ r ≠ i.rd → m'.core.GPR r = m.core.GPR r
  pc : m'.core.currentProgramCounter = m.core.currentProgramCounter + 4
  minstret : m'.core.minstret = m.core.minstret + 1
  traps : m'.core.trapRegs = m.core.trapRegs ∧ m'.core.trapLog = []
  rest : m'.core = { m.begun with
    GPR := m'.core.GPR
    currentProgramCounter := m'.core.currentProgramCounter
    minstret := m'.core.minstret }
  mem : Quiet m.clearLogs.mem m'.mem

theorem computes_computed {m : Machine β} {s : MMUSys β} (i : IntInst)
    (hs : Quiet m.clearLogs.mem s) :
    Computes i m { core := m.begun.computed i.rd (i.value m.core.GPR), mem := s } := by
  by_cases hrd : i.rd = 0
  · have hset : m.begun.computed i.rd (i.value m.core.GPR) = m.begun.retire false .plain := by
      rw [RV64Core.computed, RV64Core.setGPR, if_pos hrd]
    rw [hset]
    exact ⟨fun h => absurd hrd h, fun _ _ => rfl, rfl, rfl, ⟨rfl, rfl⟩, rfl, hs⟩
  · have hset : m.begun.computed i.rd (i.value m.core.GPR)
        = { m.begun with
            GPR := fun r => if r = i.rd then i.value m.core.GPR else m.core.GPR r
            currentProgramCounter := m.core.currentProgramCounter + 4
            minstret := m.core.minstret + 1 } := by
      rw [RV64Core.computed, RV64Core.setGPR, if_neg hrd]
      rfl
    rw [hset]
    refine ⟨fun _ => if_pos rfl, fun r hr => if_neg ?_, rfl, rfl, ⟨rfl, rfl⟩, rfl, hs⟩
    rintro rfl
    exact hr.elim hrd fun h => h rfl

/-- The end of a step that has fetched `i`. -/
theorem run_stepCoreAPI_int (i : IntInst) {m m₁ : Machine β}
    (h : fetchInst.run m = .ok (some i.encode) m₁) :
    let m' : Machine β :=
      { core := m.begun.computed i.rd (i.value m.core.GPR), mem := m₁.mem }
    stepCoreAPI.run m
      = if RV64Core.statusBlank m.core.status = true then .ok .ok m'
        else .error .statusBlank m' := by
  intro m'
  obtain ⟨s, -, rfl⟩ := fetchInst_ok h
  have hlong : isCompressedInst i.encode = false := isCompressedInst_low i.low_encode
  have hexec : (execute i.encode).run (⟨m.begun, s⟩ : Machine β)
      = .ok .plain ⟨m.begun.setGPR i.rd (i.value m.core.GPR), s⟩ := by
    rw [execute, hlong, if_neg Bool.false_ne_true]
    exact run_exec32_int _ i
  have hstatus : m'.core.status = m.core.status := by
    show ((m.begun.setGPR i.rd (i.value m.core.GPR)).retire false .plain).status = _
    rw [RV64Core.setGPR]
    split <;> rfl
  rw [stepCoreAPI, EStateM.run_bind, h]
  dsimp only
  rw [run_execAndExit, hexec]
  dsimp only
  have hexit := run_stepExit (c := m.begun.setGPR i.rd (i.value m.core.GPR)) i.encode
    (isCompressedInst i.encode) .plain fun hill => absurd hill Bool.false_ne_true
  rw [atExit_legal rfl, hlong] at hexit
  rw [hlong, ← hstatus]
  split
  · next hb => exact run_onCore_ok (hexit.trans (if_pos hb))
  · next hb => exact run_onCore_error (hexit.trans (if_neg hb))

/-- Integer computation is that of the specification: a step that fetches `i` computes
its value, and completes where the reserved fields of the status word are zero, as they are
in every reachable state. -/
theorem int_inst_computes (i : IntInst) {m m₁ : Machine β}
    (h : fetchInst.run m = .ok (some i.encode) m₁) :
    ∃ m', Computes i m m' ∧ m'.mem = m₁.mem ∧
      stepCoreAPI.run m
        = if RV64Core.statusBlank m.core.status = true then .ok .ok m'
          else .error .statusBlank m' := by
  obtain ⟨s, hs, rfl⟩ := fetchInst_ok h
  exact ⟨_, computes_computed i hs.quiet, rfl, run_stepCoreAPI_int i h⟩

end Step

/-- `divw a0, a1, a2`, with the least word in `a1` and -1 in `a2`. -/
def divwOverflow : Machine (MEmuMMIOBus MMIOMem) :=
  .ofBytes
    { (default : RV64Core).reset with
      GPR := fun r => if r = 11 then 0x80000000 else if r = 12 then -1 else 0 }
    [0x3b, 0xc5, 0xc5, 0x02]

theorem int_inst_computes_divw :
    ∃ m', stepCoreAPI.run divwOverflow = .ok .ok m' ∧
      Computes (.opWord .div 10 11 12) divwOverflow m' ∧
      m'.core.GPR 10 = 0xffffffff80000000 := by
  have hf : fetchInst.run divwOverflow
      = .ok (some (IntInst.opWord .div 10 11 12).encode)
          (Run.final (fetchInst.run divwOverflow)) := by rfl
  obtain ⟨m', hm', -, hrun⟩ := int_inst_computes (.opWord .div 10 11 12) hf
  have hb : RV64Core.statusBlank divwOverflow.core.status = true := by decide
  refine ⟨m', hrun.trans (if_pos hb), hm', ?_⟩
  have hrd := hm'.rd (by decide)
  exact hrd.trans (by decide)

end MEmu
