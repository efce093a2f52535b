import MEmu.Lib.BitField

/-!
# RISC-V encodings

The formats of the 32-bit instructions, the instructions of RV64I that compressed
ones stand for, and the expansion of RV64C to them.  `expand` follows the tables
of the unprivileged specification row by row.  It is `none` on the reserved
encodings and on the floating-point loads and stores, and hints expand to the
instruction they are encoded as.

The laws of a format read its fields back, and `join` puts an immediate together
again from the parts that the formats of stores, branches and jumps cut it into.
-/

namespace RiscV

/-- A register number. -/
abbrev Reg := BitVec 5

/-! ## Formats -/

section Formats

open BitField (set)

def rType (funct7 : BitVec 7) (rs2 rs1 : Reg) (funct3 : BitVec 3) (rd : Reg)
    (opcode : BitVec 7) : BitVec 32 :=
  set 25 funct7 <| set 20 rs2 <| set 15 rs1 <| set 12 funct3 <| set 7 rd <| set 0 opcode 0

def iType (imm : BitVec 12) (rs1 : Reg) (funct3 : BitVec 3) (rd : Reg) (opcode : BitVec 7) :
    BitVec 32 :=
  set 20 imm <| set 15 rs1 <| set 12 funct3 <| set 7 rd <| set 0 opcode 0

def sType (imm : BitVec 12) (rs2 rs1 : Reg) (funct3 : BitVec 3) (opcode : BitVec 7) : BitVec 32 :=
  set 25 (imm.extractLsb 11 5) <| set 20 rs2 <| set 15 rs1 <| set 12 funct3 <|
    set 7 (imm.extractLsb 4 0) <| set 0 opcode 0

/-- The offset is given without its bit 0, so bit `k` of it is bit `k - 1` of `off`. -/
def bType (off : BitVec 12) (rs2 rs1 : Reg) (funct3 : BitVec 3) (opcode : BitVec 7) : BitVec 32 :=
  set 31 (off.extractLsb 11 11) <| set 25 (off.extractLsb 9 4) <| set 20 rs2 <| set 15 rs1 <|
    set 12 funct3 <| set 8 (off.extractLsb 3 0) <| set 7 (off.extractLsb 10 10) <| set 0 opcode 0

def uType (imm : BitVec 20) (rd : Reg) (opcode : BitVec 7) : BitVec 32 :=
  set 12 imm <| set 7 rd <| set 0 opcode 0

/-- The offset without its bit 0, as in `bType`. -/
def jType (off : BitVec 20) (rd : Reg) (opcode : BitVec 7) : BitVec 32 :=
  set 31 (off.extractLsb 19 19) <| set 21 (off.extractLsb 9 0) <| set 20 (off.extractLsb 10 10) <|
    set 12 (off.extractLsb 18 11) <| set 7 rd <| set 0 opcode 0

end Formats

/-! ## Instructions -/

def lui (rd : Reg) (imm : BitVec 20) : BitVec 32 := uType imm rd 0b0110111
def jal (rd : Reg) (off : BitVec 20) : BitVec 32 := jType off rd 0b1101111
def jalr (rd rs1 : Reg) (imm : BitVec 12) : BitVec 32 := iType imm rs1 0b000 rd 0b1100111

def beq (rs1 rs2 : Reg) (off : BitVec 12) : BitVec 32 := bType off rs2 rs1 0b000 0b1100011
def bne (rs1 rs2 : Reg) (off : BitVec 12) : BitVec 32 := bType off rs2 rs1 0b001 0b1100011

def lw (rd rs1 : Reg) (imm : BitVec 12) : BitVec 32 := iType imm rs1 0b010 rd 0b0000011
def ld (rd rs1 : Reg) (imm : BitVec 12) : BitVec 32 := iType imm rs1 0b011 rd 0b0000011
def sw (rs2 rs1 : Reg) (imm : BitVec 12) : BitVec 32 := sType imm rs2 rs1 0b010 0b0100011
def sd (rs2 rs1 : Reg) (imm : BitVec 12) : BitVec 32 := sType imm rs2 rs1 0b011 0b0100011

def addi (rd rs1 : Reg) (imm : BitVec 12) : BitVec 32 := iType imm rs1 0b000 rd 0b0010011
def andi (rd rs1 : Reg) (imm : BitVec 12) : BitVec 32 := iType imm rs1 0b111 rd 0b0010011
def addiw (rd rs1 : Reg) (imm : BitVec 12) : BitVec 32 := iType imm rs1 0b000 rd 0b0011011

def slli (rd rs1 : Reg) (shamt : BitVec 6) : BitVec 32 :=
  iType (0b000000#6 ++ shamt) rs1 0b001 rd 0b0010011
def srli (rd rs1 : Reg) (shamt : BitVec 6) : BitVec 32 :=
  iType (0b000000#6 ++ shamt) rs1 0b101 rd 0b0010011
def srai (rd rs1 : Reg) (shamt : BitVec 6) : BitVec 32 :=
  iType (0b010000#6 ++ shamt) rs1 0b101 rd 0b0010011

def add (rd rs1 rs2 : Reg) : BitVec 32 := rType 0b0000000 rs2 rs1 0b000 rd 0b0110011
def sub (rd rs1 rs2 : Reg) : BitVec 32 := rType 0b0100000 rs2 rs1 0b000 rd 0b0110011
def xor (rd rs1 rs2 : Reg) : BitVec 32 := rType 0b0000000 rs2 rs1 0b100 rd 0b0110011
def or (rd rs1 rs2 : Reg) : BitVec 32 := rType 0b0000000 rs2 rs1 0b110 rd 0b0110011
def and (rd rs1 rs2 : Reg) : BitVec 32 := rType 0b0000000 rs2 rs1 0b111 rd 0b0110011
def addw (rd rs1 rs2 : Reg) : BitVec 32 := rType 0b0000000 rs2 rs1 0b000 rd 0b0111011
def subw (rd rs1 rs2 : Reg) : BitVec 32 := rType 0b0100000 rs2 rs1 0b000 rd 0b0111011

def ecall : BitVec 32 := iType 0 0 0b000 0 0b1110011
def ebreak : BitVec 32 := iType 1 0 0b000 0 0b1110011
def sret : BitVec 32 := rType 0b0001000 0b00010 0 0b000 0 0b1110011
def mret : BitVec 32 := rType 0b0011000 0b00010 0 0b000 0 0b1110011
def wfi : BitVec 32 := rType 0b0001000 0b00101 0 0b000 0 0b1110011
def sfenceVma (rs1 rs2 : Reg) : BitVec 32 := rType 0b0001001 rs2 rs1 0b000 0 0b1110011

/-! ## The fields of a format -/

section Fields

variable (funct7 : BitVec 7) (rs2 rs1 rd : Reg) (funct3 : BitVec 3) (opcode : BitVec 7)

theorem fields_rType :
    let i := rType funct7 rs2 rs1 funct3 rd opcode
    BitField.get 0 7 i = opcode ∧ BitField.get 7 5 i = rd ∧ BitField.get 12 3 i = funct3 ∧
      BitField.get 15 5 i = rs1 ∧ BitField.get 20 5 i = rs2 ∧ BitField.get 25 7 i = funct7 := by
  simp [rType, BitField.get_set_of_disjoint]

/-- Every word is of the format, with its own fields. -/
theorem rType_get (i : BitVec 32) :
    rType (BitField.get 25 7 i) (BitField.get 20 5 i) (BitField.get 15 5 i) (BitField.get 12 3 i)
      (BitField.get 7 5 i) (BitField.get 0 7 i) = i := by
  apply BitVec.eq_of_getLsbD_eq
  intro j hj
  have hfield (lo w : Nat) (h : lo ≤ j ∧ j < lo + w) :
      (decide (j < 32) && (BitField.get lo w i).getLsbD (j - lo)) = i.getLsbD j := by
    have hw : j - lo < w := by omega
    have hadd : lo + (j - lo) = j := by omega
    simp only [BitField.getLsbD_get, hj, hw, hadd, decide_true, Bool.true_and]
  simp only [rType, BitField.getLsbD_set]
  split
  · exact hfield 25 7 ‹_›
  split
  · exact hfield 20 5 ‹_›
  split
  · exact hfield 15 5 ‹_›
  split
  · exact hfield 12 3 ‹_›
  split
  · exact hfield 7 5 ‹_›
  · rw [if_pos (by omega)]
    exact hfield 0 7 (by omega)

theorem fields_iType (imm : BitVec 12) :
    let i := iType imm rs1 funct3 rd opcode
    BitField.get 0 7 i = opcode ∧ BitField.get 7 5 i = rd ∧ BitField.get 12 3 i = funct3 ∧
      BitField.get 15 5 i = rs1 ∧ BitField.get 20 12 i = imm := by
  simp [iType, BitField.get_set_of_disjoint]

/-- The upper part of an immediate, where shifts and system instructions are told apart. -/
theorem funct7_iType (imm : BitVec 12) :
    BitField.get 25 7 (iType imm rs1 funct3 rd opcode) = BitField.get 5 7 imm :=
  BitField.get_set_inside 20 5 7 imm _ (by decide) (by decide)

theorem fields_sType (imm : BitVec 12) :
    let i := sType imm rs2 rs1 funct3 opcode
    BitField.get 0 7 i = opcode ∧ BitField.get 7 5 i = imm.extractLsb 4 0 ∧
      BitField.get 12 3 i = funct3 ∧ BitField.get 15 5 i = rs1 ∧ BitField.get 20 5 i = rs2 ∧
      BitField.get 25 7 i = imm.extractLsb 11 5 := by
  simp [sType, BitField.get_set_of_disjoint]

theorem fields_bType (off : BitVec 12) :
    let i := bType off rs2 rs1 funct3 opcode
    BitField.get 0 7 i = opcode ∧ BitField.get 7 1 i = off.extractLsb 10 10 ∧
      BitField.get 8 4 i = off.extractLsb 3 0 ∧ BitField.get 12 3 i = funct3 ∧
      BitField.get 15 5 i = rs1 ∧ BitField.get 20 5 i = rs2 ∧
      BitField.get 25 6 i = off.extractLsb 9 4 ∧ BitField.get 31 1 i = off.extractLsb 11 11 := by
  simp [bType, BitField.get_set_of_disjoint]

theorem fields_uType (imm : BitVec 20) :
    let i := uType imm rd opcode
    BitField.get 0 7 i = opcode ∧ BitField.get 7 5 i = rd ∧ BitField.get 12 20 i = imm := by
  simp [uType, BitField.get_set_of_disjoint]

theorem fields_jType (off : BitVec 20) :
    let i := jType off rd opcode
    BitField.get 0 7 i = opcode ∧ BitField.get 7 5 i = rd ∧
      BitField.get 12 8 i = off.extractLsb 18 11 ∧ BitField.get 20 1 i = off.extractLsb 10 10 ∧
      BitField.get 21 10 i = off.extractLsb 9 0 ∧ BitField.get 31 1 i = off.extractLsb 19 19 := by
  simp [jType, BitField.get_set_of_disjoint]

/-- The lowest bits of an instruction are those of its opcode. -/
theorem low_of_opcode {i : BitVec 32} (h : BitField.get 0 7 i = opcode) :
    BitField.get 0 2 i = BitField.get 0 2 opcode := by
  rw [← h, BitField.get_get 0 7 0 2 i (by decide)]

theorem low_rType : BitField.get 0 2 (rType funct7 rs2 rs1 funct3 rd opcode)
    = BitField.get 0 2 opcode :=
  low_of_opcode opcode (fields_rType funct7 rs2 rs1 rd funct3 opcode).1

theorem low_iType (imm : BitVec 12) :
    BitField.get 0 2 (iType imm rs1 funct3 rd opcode) = BitField.get 0 2 opcode :=
  low_of_opcode opcode (fields_iType rs1 rd funct3 opcode imm).1

theorem low_sType (imm : BitVec 12) :
    BitField.get 0 2 (sType imm rs2 rs1 funct3 opcode) = BitField.get 0 2 opcode :=
  low_of_opcode opcode (fields_sType rs2 rs1 funct3 opcode imm).1

theorem low_bType (off : BitVec 12) :
    BitField.get 0 2 (bType off rs2 rs1 funct3 opcode) = BitField.get 0 2 opcode :=
  low_of_opcode opcode (fields_bType rs2 rs1 funct3 opcode off).1

theorem low_uType (imm : BitVec 20) :
    BitField.get 0 2 (uType imm rd opcode) = BitField.get 0 2 opcode :=
  low_of_opcode opcode (fields_uType rd opcode imm).1

theorem low_jType (off : BitVec 20) :
    BitField.get 0 2 (jType off rd opcode) = BitField.get 0 2 opcode :=
  low_of_opcode opcode (fields_jType rd opcode off).1

end Fields

/-! ## The immediates of a format -/

open BitVec (extractLsb'_append_extractLsb'_eq_extractLsb' extractLsb'_append_extractLsb')

theorem join_sType (imm : BitVec 12) :
    ((imm.extractLsb 11 5).signExtend 64 <<< 5) ||| (imm.extractLsb 4 0).setWidth 64
      = imm.signExtend 64 := by
  rw [← BitField.signExtend_append 64 _ _ (by decide)]
  congr 1
  exact extractLsb'_append_extractLsb'

theorem join_bType (off : BitVec 12) :
    ((off.extractLsb 11 11).signExtend 64 <<< 12) |||
        ((off.extractLsb 10 10).setWidth 64 <<< 11) |||
        ((off.extractLsb 9 4).setWidth 64 <<< 5) ||| ((off.extractLsb 3 0).setWidth 64 <<< 1)
      = (off ++ 0#1).signExtend 64 := by
  have h₁ : off.extractLsb 11 11 ++ off.extractLsb 10 10 = off.extractLsb' 10 2 :=
    extractLsb'_append_extractLsb'_eq_extractLsb' rfl
  have h₂ : off.extractLsb' 10 2 ++ off.extractLsb 9 4 = off.extractLsb' 4 8 :=
    extractLsb'_append_extractLsb'_eq_extractLsb' rfl
  have h₃ : off.extractLsb' 4 8 ++ off.extractLsb 3 0 = off := extractLsb'_append_extractLsb'
  have hoff : off.extractLsb 11 11 ++ off.extractLsb 10 10 ++ off.extractLsb 9 4
      ++ off.extractLsb 3 0 = off := by rw [h₁, h₂, h₃]
  calc _ = (off.extractLsb 11 11 ++ off.extractLsb 10 10 ++ off.extractLsb 9 4
        ++ off.extractLsb 3 0 ++ 0#1).signExtend 64 := by
        simp (disch := decide) only [BitField.signExtend_append, BitVec.shiftLeft_or_distrib,
          ← BitVec.shiftLeft_add]
        exact (BitVec.or_zero).symm
    _ = (off ++ 0#1).signExtend 64 := by rw [hoff]

theorem join_jType (off : BitVec 20) :
    ((off.extractLsb 19 19).signExtend 64 <<< 20) |||
        ((off.extractLsb 18 11).setWidth 64 <<< 12) |||
        ((off.extractLsb 10 10).setWidth 64 <<< 11) ||| ((off.extractLsb 9 0).setWidth 64 <<< 1)
      = (off ++ 0#1).signExtend 64 := by
  have h₁ : off.extractLsb 19 19 ++ off.extractLsb 18 11 = off.extractLsb' 11 9 :=
    extractLsb'_append_extractLsb'_eq_extractLsb' rfl
  have h₂ : off.extractLsb' 11 9 ++ off.extractLsb 10 10 = off.extractLsb' 10 10 :=
    extractLsb'_append_extractLsb'_eq_extractLsb' rfl
  have h₃ : off.extractLsb' 10 10 ++ off.extractLsb 9 0 = off := extractLsb'_append_extractLsb'
  have hoff : off.extractLsb 19 19 ++ off.extractLsb 18 11 ++ off.extractLsb 10 10
      ++ off.extractLsb 9 0 = off := by rw [h₁, h₂, h₃]
  calc _ = (off.extractLsb 19 19 ++ off.extractLsb 18 11 ++ off.extractLsb 10 10
        ++ off.extractLsb 9 0 ++ 0#1).signExtend 64 := by
        simp (disch := decide) only [BitField.signExtend_append, BitVec.shiftLeft_or_distrib,
          ← BitVec.shiftLeft_add]
        exact (BitVec.or_zero).symm
    _ = (off ++ 0#1).signExtend 64 := by rw [hoff]

/-! ## Compressed instructions

`rd`, `rs2` and `shamt` name the fields of the formats CR, CI and CSS, `rdC` and
`rs1C` the three-bit ones of the formats CIW, CL, CS, CA and CB. -/

namespace Compressed

def quadrant (w : BitVec 16) : BitVec 2 := w.extractLsb 1 0
def funct3 (w : BitVec 16) : BitVec 3 := w.extractLsb 15 13
def rd (w : BitVec 16) : Reg := w.extractLsb 11 7
def rs2 (w : BitVec 16) : Reg := w.extractLsb 6 2
def rdC (w : BitVec 16) : Reg := 0b01#2 ++ w.extractLsb 4 2
def rs1C (w : BitVec 16) : Reg := 0b01#2 ++ w.extractLsb 9 7

/-- `imm[5|4:0]`, and the shift amount. -/
def imm6 (w : BitVec 16) : BitVec 6 := w.extractLsb 12 12 ++ w.extractLsb 6 2

/-- `nzuimm[5:4|9:6|2|3]` of `C.ADDI4SPN`. -/
def uimmADDI4SPN (w : BitVec 16) : BitVec 10 :=
  w.extractLsb 10 7 ++ w.extractLsb 12 11 ++ w.extractLsb 5 5 ++ w.extractLsb 6 6 ++ 0#2

/-- `uimm[5:3]` and `uimm[2|6]` of `C.LW` and `C.SW`. -/
def uimmLW (w : BitVec 16) : BitVec 7 :=
  w.extractLsb 5 5 ++ w.extractLsb 12 10 ++ w.extractLsb 6 6 ++ 0#2

/-- `uimm[5:3]` and `uimm[7:6]` of `C.LD` and `C.SD`. -/
def uimmLD (w : BitVec 16) : BitVec 8 := w.extractLsb 6 5 ++ w.extractLsb 12 10 ++ 0#3

/-- `nzimm[9]` and `nzimm[4|6|8:7|5]` of `C.ADDI16SP`. -/
def immADDI16SP (w : BitVec 16) : BitVec 10 :=
  w.extractLsb 12 12 ++ w.extractLsb 4 3 ++ w.extractLsb 5 5 ++ w.extractLsb 2 2 ++
    w.extractLsb 6 6 ++ 0#4

/-- `offset[11|4|9:8|10|6|7|3:1|5]` of `C.J`, without bit 0. -/
def offJ (w : BitVec 16) : BitVec 11 :=
  w.extractLsb 12 12 ++ w.extractLsb 8 8 ++ w.extractLsb 10 9 ++ w.extractLsb 6 6 ++
    w.extractLsb 7 7 ++ w.extractLsb 2 2 ++ w.extractLsb 11 11 ++ w.extractLsb 5 3

/-- `offset[8|4:3]` and `offset[7:6|2:1|5]` of `C.BEQZ` and `C.BNEZ`, without bit 0. -/
def offB (w : BitVec 16) : BitVec 8 :=
  w.extractLsb 12 12 ++ w.extractLsb 6 5 ++ w.extractLsb 2 2 ++ w.extractLsb 11 10 ++
    w.extractLsb 4 3

/-- `uimm[5]` and `uimm[4:2|7:6]` of `C.LWSP`. -/
def uimmLWSP (w : BitVec 16) : BitVec 8 :=
  w.extractLsb 3 2 ++ w.extractLsb 12 12 ++ w.extractLsb 6 4 ++ 0#2

/-- `uimm[5]` and `uimm[4:3|8:6]` of `C.LDSP`. -/
def uimmLDSP (w : BitVec 16) : BitVec 9 :=
  w.extractLsb 4 2 ++ w.extractLsb 12 12 ++ w.extractLsb 6 5 ++ 0#3

/-- `uimm[5:2|7:6]` of `C.SWSP`. -/
def uimmSWSP (w : BitVec 16) : BitVec 8 := w.extractLsb 8 7 ++ w.extractLsb 12 9 ++ 0#2

/-- `uimm[5:3|8:6]` of `C.SDSP`. -/
def uimmSDSP (w : BitVec 16) : BitVec 9 := w.extractLsb 9 7 ++ w.extractLsb 12 10 ++ 0#3

/-- `C.ADDI16SP` and `C.LUI`. -/
def expandLui (w : BitVec 16) : Option (BitVec 32) :=
  if rd w = 2 then
    if immADDI16SP w = 0 then none else some (addi 2 2 ((immADDI16SP w).signExtend 12))
  else if imm6 w = 0 then none
  else some (lui (rd w) ((imm6 w).signExtend 20))

/-- The rows of `MISC-ALU`, by `w[11:10]`, and by `w[12]` and `w[6:5]` under 11. -/
def expandAlu (w : BitVec 16) : Option (BitVec 32) :=
  if w.extractLsb 11 10 = 0b00#2 then some (srli (rs1C w) (rs1C w) (imm6 w))
  else if w.extractLsb 11 10 = 0b01#2 then some (srai (rs1C w) (rs1C w) (imm6 w))
  else if w.extractLsb 11 10 = 0b10#2 then
    some (andi (rs1C w) (rs1C w) ((imm6 w).signExtend 12))
  else if w.extractLsb 12 12 = 0#1 then
    if w.extractLsb 6 5 = 0b00#2 then some (sub (rs1C w) (rs1C w) (rdC w))
    else if w.extractLsb 6 5 = 0b01#2 then some (xor (rs1C w) (rs1C w) (rdC w))
    else if w.extractLsb 6 5 = 0b10#2 then some (or (rs1C w) (rs1C w) (rdC w))
    else some (and (rs1C w) (rs1C w) (rdC w))
  else if w.extractLsb 6 5 = 0b00#2 then some (subw (rs1C w) (rs1C w) (rdC w))
  else if w.extractLsb 6 5 = 0b01#2 then some (addw (rs1C w) (rs1C w) (rdC w))
  else none

/-- The rows `C.JR`, `C.MV`, `C.EBREAK`, `C.JALR` and `C.ADD`. -/
def expandJr (w : BitVec 16) : Option (BitVec 32) :=
  if w.extractLsb 12 12 = 0#1 then
    if rs2 w = 0 then if rd w = 0 then none else some (jalr 0 (rd w) 0)
    else some (add (rd w) 0 (rs2 w))
  else if rs2 w = 0 then if rd w = 0 then some ebreak else some (jalr 1 (rd w) 0)
  else some (add (rd w) (rd w) (rs2 w))

/-- The row `C.JR`. -/
def IsJr (w : BitVec 16) : Prop :=
  quadrant w = 0b10#2 ∧ funct3 w = 0b100#3 ∧ w.extractLsb 12 12 = 0#1 ∧ rs2 w = 0 ∧ rd w ≠ 0

/-- The row `C.JALR`. -/
def IsJalr (w : BitVec 16) : Prop :=
  quadrant w = 0b10#2 ∧ funct3 w = 0b100#3 ∧ w.extractLsb 12 12 = 1#1 ∧ rs2 w = 0 ∧ rd w ≠ 0

instance (w : BitVec 16) : Decidable (IsJr w) := inferInstanceAs (Decidable (_ ∧ _))

instance (w : BitVec 16) : Decidable (IsJalr w) := inferInstanceAs (Decidable (_ ∧ _))

/-- The 32-bit instruction that a compressed one stands for. -/
def expand (w : BitVec 16) : Option (BitVec 32) :=
  match quadrant w, funct3 w with
  | 0b00#2, 0b000#3 =>
      if uimmADDI4SPN w = 0 then none else some (addi (rdC w) 2 ((uimmADDI4SPN w).setWidth 12))
  | 0b00#2, 0b010#3 => some (lw (rdC w) (rs1C w) ((uimmLW w).setWidth 12))
  | 0b00#2, 0b011#3 => some (ld (rdC w) (rs1C w) ((uimmLD w).setWidth 12))
  | 0b00#2, 0b110#3 => some (sw (rdC w) (rs1C w) ((uimmLW w).setWidth 12))
  | 0b00#2, 0b111#3 => some (sd (rdC w) (rs1C w) ((uimmLD w).setWidth 12))
  | 0b01#2, 0b000#3 => some (addi (rd w) (rd w) ((imm6 w).signExtend 12))
  | 0b01#2, 0b001#3 =>
      if rd w = 0 then none else some (addiw (rd w) (rd w) ((imm6 w).signExtend 12))
  | 0b01#2, 0b010#3 => some (addi (rd w) 0 ((imm6 w).signExtend 12))
  | 0b01#2, 0b011#3 => expandLui w
  | 0b01#2, 0b100#3 => expandAlu w
  | 0b01#2, 0b101#3 => some (jal 0 ((offJ w).signExtend 20))
  | 0b01#2, 0b110#3 => some (beq (rs1C w) 0 ((offB w).signExtend 12))
  | 0b01#2, 0b111#3 => some (bne (rs1C w) 0 ((offB w).signExtend 12))
  | 0b10#2, 0b000#3 => some (slli (rd w) (rd w) (imm6 w))
  | 0b10#2, 0b010#3 => if rd w = 0 then none else some (lw (rd w) 2 ((uimmLWSP w).setWidth 12))
  | 0b10#2, 0b011#3 => if rd w = 0 then none else some (ld (rd w) 2 ((uimmLDSP w).setWidth 12))
  | 0b10#2, 0b100#3 => expandJr w
  | 0b10#2, 0b110#3 => some (sw (rs2 w) 2 ((uimmSWSP w).setWidth 12))
  | 0b10#2, 0b111#3 => some (sd (rs2 w) 2 ((uimmSDSP w).setWidth 12))
  | _, _ => none

/-- The rows are on the quadrants below the 32-bit instructions. -/
theorem quadrant_of_expand {w : BitVec 16} {i : BitVec 32} (h : expand w = some i) :
    quadrant w ≠ 0b11#2 := by
  intro hq
  unfold expand at h
  split at h
  case h_20 => cases h
  all_goals
    rename_i hq' _
    rw [hq'] at hq
    cases hq

/-- An expansion is a 32-bit instruction. -/
theorem low_of_expand {w : BitVec 16} {i : BitVec 32} (h : expand w = some i) :
    BitField.get 0 2 i = 0b11#2 := by
  unfold expand expandLui expandAlu expandJr at h
  repeat' split at h
  all_goals
    cases h <;>
      simp only [lui, jal, jalr, beq, bne, lw, ld, sw, sd, addi, andi, addiw, slli, srli, srai, add,
        sub, xor, or, and, addw, subw, ebreak, low_rType, low_iType, low_sType, low_bType,
        low_uType, low_jType] <;>
      rfl

-- `c.addi sp,-16`, `c.sdsp ra,8(sp)`, `c.jr ra`, `c.ebreak` and the reserved zero word
example : expand 0x1141 = some 0xff010113 := by decide
example : expand 0xe406 = some 0x00113423 := by decide
example : expand 0x8082 = some 0x00008067 := by decide
example : expand 0x9002 = some 0x00100073 := by decide
example : expand 0x0000 = none := by decide

end Compressed

end RiscV
