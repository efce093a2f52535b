import MEmu.Lib.RiscVAlu
import Mathlib.Data.Fintype.Basic

/-!
# The defined 32-bit encodings

Which words are instructions of RV64IMA with Zicsr and the privileged instructions,
by major opcode.  A word is read through the fields of its format, and the minor codes
of the integer instructions are those of `AluOp`.
-/

namespace RiscV

section Fields

open BitField (get)

def majorOf (i : BitVec 32) : BitVec 7 := get 0 7 i
def rdOf (i : BitVec 32) : Reg := get 7 5 i
def funct3Of (i : BitVec 32) : BitVec 3 := get 12 3 i
def rs1Of (i : BitVec 32) : Reg := get 15 5 i
def rs2Of (i : BitVec 32) : Reg := get 20 5 i
def funct5Of (i : BitVec 32) : BitVec 5 := get 27 5 i
def funct6Of (i : BitVec 32) : BitVec 6 := get 26 6 i
def funct7Of (i : BitVec 32) : BitVec 7 := get 25 7 i

/-- The immediate of the I-format. -/
def imm12Of (i : BitVec 32) : BitVec 12 := get 20 12 i

/-- The offset of a branch, without its bit 0. -/
def offsetB (i : BitVec 32) : BitVec 12 := get 31 1 i ++ get 7 1 i ++ get 25 6 i ++ get 8 4 i

/-- The offset of `jal`, without its bit 0. -/
def offsetJ (i : BitVec 32) : BitVec 20 := get 31 1 i ++ get 12 8 i ++ get 20 1 i ++ get 21 10 i

end Fields

section Offsets

open BitVec (extractLsb'_append_extractLsb'_eq_extractLsb' extractLsb'_append_extractLsb')

theorem offsetB_bType (off : BitVec 12) (rs2 rs1 : Reg) (funct3 : BitVec 3) (opcode : BitVec 7) :
    offsetB (bType off rs2 rs1 funct3 opcode) = off := by
  obtain ⟨-, h7, h8, -, -, -, h25, h31⟩ := fields_bType rs2 rs1 funct3 opcode off
  have h₁ : off.extractLsb 11 11 ++ off.extractLsb 10 10 = off.extractLsb' 10 2 :=
    extractLsb'_append_extractLsb'_eq_extractLsb' rfl
  have h₂ : off.extractLsb' 10 2 ++ off.extractLsb 9 4 = off.extractLsb' 4 8 :=
    extractLsb'_append_extractLsb'_eq_extractLsb' rfl
  rw [offsetB, h7, h8, h25, h31, h₁, h₂]
  exact extractLsb'_append_extractLsb'

theorem offsetJ_jType (off : BitVec 20) (rd : Reg) (opcode : BitVec 7) :
    offsetJ (jType off rd opcode) = off := by
  obtain ⟨-, -, h12, h20, h21, h31⟩ := fields_jType rd opcode off
  have h₁ : off.extractLsb 19 19 ++ off.extractLsb 18 11 = off.extractLsb' 11 9 :=
    extractLsb'_append_extractLsb'_eq_extractLsb' rfl
  have h₂ : off.extractLsb' 11 9 ++ off.extractLsb 10 10 = off.extractLsb' 10 10 :=
    extractLsb'_append_extractLsb'_eq_extractLsb' rfl
  rw [offsetJ, h12, h20, h21, h31, h₁, h₂]
  exact extractLsb'_append_extractLsb'

end Offsets

theorem bitVec3_cases (v : BitVec 3) :
    v = 0 ∨ v = 1 ∨ v = 2 ∨ v = 3 ∨ v = 4 ∨ v = 5 ∨ v = 6 ∨ v = 7 := by
  revert v
  decide

/-- The comparison of a branch. -/
def BranchHolds (funct3 : BitVec 3) (a b : BitVec 64) : Prop :=
  match funct3 with
  | 0b000#3 => a = b
  | 0b001#3 => a ≠ b
  | 0b100#3 => a.toInt < b.toInt
  | 0b101#3 => b.toInt ≤ a.toInt
  | 0b110#3 => a.toNat < b.toNat
  | 0b111#3 => b.toNat ≤ a.toNat
  | _ => False

instance : Fintype AluOp where
  elems := {.add, .sub, .sll, .slt, .sltu, .xor, .srl, .sra, .or, .and, .mul, .mulh, .mulhsu, .mulhu,
    .div, .divu, .rem, .remu}
  complete f := by cases f <;> decide

instance : Fintype WordOp where
  elems := {.add, .sub, .sll, .srl, .sra, .mul, .div, .divu, .rem, .remu}
  complete f := by cases f <;> decide

instance : Fintype ImmOp where
  elems := {.add, .slt, .sltu, .xor, .or, .and}
  complete f := by cases f <;> decide

instance : Fintype ShiftOp where
  elems := {.sll, .srl, .sra}
  complete f := by cases f <;> decide

/-- The `funct5` of the atomic instructions but `lr`. -/
def amoCodes : List (BitVec 5) :=
  [0b00011, 0b00001, 0b00000, 0b00100, 0b01100, 0b01000, 0b10000, 0b10100, 0b11000, 0b11100]

/-- The word is a CSR instruction. -/
def IsCsr (i : BitVec 32) : Prop :=
  majorOf i = 0b1110011 ∧ funct3Of i ≠ 0b000 ∧ funct3Of i ≠ 0b100

/-- The word is `sfence.vma`. -/
def IsSfence (i : BitVec 32) : Prop :=
  majorOf i = 0b1110011 ∧ funct3Of i = 0b000 ∧ funct7Of i = 0b0001001 ∧ rdOf i = 0

/-- The word is a defined encoding. -/
def Defined (i : BitVec 32) : Prop :=
  match majorOf i with
  -- LUI, AUIPC, JAL
  | 0b0110111#7 | 0b0010111#7 | 0b1101111#7 => True
  -- JALR
  | 0b1100111#7 => funct3Of i = 0b000
  -- BRANCH
  | 0b1100011#7 => funct3Of i ≠ 0b010 ∧ funct3Of i ≠ 0b011
  -- LOAD
  | 0b0000011#7 => funct3Of i ≠ 0b111
  -- STORE
  | 0b0100011#7 => funct3Of i < 0b100
  -- OP-IMM
  | 0b0010011#7 =>
      (∃ f : ImmOp, funct3Of i = f.toAlu.funct3) ∨
        ∃ f : ShiftOp, funct3Of i = f.toAlu.funct3 ∧ funct6Of i = f.funct6
  -- OP-IMM-32
  | 0b0011011#7 =>
      funct3Of i = 0b000 ∨
        ∃ f : ShiftOp, funct3Of i = f.toAlu.funct3 ∧ funct7Of i = f.toAlu.funct7
  -- OP
  | 0b0110011#7 => ∃ f : AluOp, funct3Of i = f.funct3 ∧ funct7Of i = f.funct7
  -- OP-32
  | 0b0111011#7 => ∃ f : WordOp, funct3Of i = f.toAlu.funct3 ∧ funct7Of i = f.toAlu.funct7
  -- MISC-MEM
  | 0b0001111#7 => funct3Of i = 0b000 ∨ funct3Of i = 0b001
  -- AMO
  | 0b0101111#7 =>
      (funct3Of i = 0b010 ∨ funct3Of i = 0b011) ∧
        (funct5Of i = 0b00010 ∧ rs2Of i = 0 ∨ funct5Of i ∈ amoCodes)
  -- SYSTEM
  | 0b1110011#7 => IsCsr i ∨ i ∈ [ecall, ebreak, sret, mret, wfi] ∨ IsSfence i
  | _ => False

/-! ## The rows of one major opcode -/

section Rows

variable {i : BitVec 32}

theorem defined_branch (h : majorOf i = 0b1100011) :
    Defined i ↔ funct3Of i ≠ 0b010 ∧ funct3Of i ≠ 0b011 := by
  rw [Defined, h]
  rfl

theorem defined_load (h : majorOf i = 0b0000011) : Defined i ↔ funct3Of i ≠ 0b111 := by
  rw [Defined, h]
  rfl

theorem defined_store (h : majorOf i = 0b0100011) : Defined i ↔ funct3Of i < 0b100 := by
  rw [Defined, h]
  rfl

theorem defined_opImm (h : majorOf i = 0b0010011) :
    Defined i ↔ (∃ f : ImmOp, funct3Of i = f.toAlu.funct3) ∨
      ∃ f : ShiftOp, funct3Of i = f.toAlu.funct3 ∧ funct6Of i = f.funct6 := by
  rw [Defined, h]
  rfl

theorem defined_opImm32 (h : majorOf i = 0b0011011) :
    Defined i ↔ funct3Of i = 0b000 ∨
      ∃ f : ShiftOp, funct3Of i = f.toAlu.funct3 ∧ funct7Of i = f.toAlu.funct7 := by
  rw [Defined, h]
  rfl

theorem defined_op (h : majorOf i = 0b0110011) :
    Defined i ↔ ∃ f : AluOp, funct3Of i = f.funct3 ∧ funct7Of i = f.funct7 := by
  rw [Defined, h]
  rfl

theorem defined_op32 (h : majorOf i = 0b0111011) :
    Defined i ↔ ∃ f : WordOp, funct3Of i = f.toAlu.funct3 ∧ funct7Of i = f.toAlu.funct7 := by
  rw [Defined, h]
  rfl

theorem defined_amo (h : majorOf i = 0b0101111) :
    Defined i ↔ (funct3Of i = 0b010 ∨ funct3Of i = 0b011) ∧
      (funct5Of i = 0b00010 ∧ rs2Of i = 0 ∨ funct5Of i ∈ amoCodes) := by
  rw [Defined, h]
  rfl

theorem defined_system (h : majorOf i = 0b1110011) :
    Defined i ↔ IsCsr i ∨ i ∈ [ecall, ebreak, sret, mret, wfi] ∨ IsSfence i := by
  rw [Defined, h]
  rfl

end Rows

end RiscV
