import MEmu.Lib.RiscV
import Mathlib.Tactic.Positivity
import Mathlib.Tactic.Zify

/-!
# RISC-V integer computation

The eighteen integer operations of the base instruction set and its extension M,
at any register width, over the integers: a result is the remainder of an integer
modulo `2 ^ n`.  The word forms compute at width 32 and extend the sign.  `IntInst`
are the instructions, with their encodings and the value that each gives `rd`.
`AmoOp` are the operations of the extension A, each at the width of its access.

The laws at the end move a remainder between widths, where an implementation
computes in a wider word than the operation is defined at.
-/

namespace RiscV

/-! ## Operations -/

/-- An integer operation of two operands. -/
inductive AluOp where
  | add
  | sub
  | sll
  | slt
  | sltu
  | xor
  | srl
  | sra
  | or
  | and
  | mul
  | mulh
  | mulhsu
  | mulhu
  | div
  | divu
  | rem
  | remu
deriving DecidableEq

namespace AluOp

/-- The value of an operation.  Division rounds towards zero. -/
def eval {n : Nat} (op : AluOp) (a b : BitVec n) : BitVec n :=
  let shamt := b.toNat % n
  match op with
  | add => BitVec.ofInt n (a.toInt + b.toInt)
  | sub => BitVec.ofInt n (a.toInt - b.toInt)
  | sll => BitVec.ofNat n (a.toNat * 2 ^ shamt)
  | slt => if a.toInt < b.toInt then 1 else 0
  | sltu => if a.toNat < b.toNat then 1 else 0
  | xor => a ^^^ b
  | srl => BitVec.ofNat n (a.toNat / 2 ^ shamt)
  | sra => BitVec.ofInt n (a.toInt / 2 ^ shamt)
  | or => a ||| b
  | and => a &&& b
  | mul => BitVec.ofInt n (a.toInt * b.toInt)
  | mulh => BitVec.ofInt n (a.toInt * b.toInt / 2 ^ n)
  | mulhsu => BitVec.ofInt n (a.toInt * b.toNat / 2 ^ n)
  | mulhu => BitVec.ofInt n (a.toNat * b.toNat / 2 ^ n)
  | div =>
      if b = 0 then -1
      else if a = BitVec.intMin n ∧ b = -1 then a
      else BitVec.ofInt n (a.toInt.tdiv b.toInt)
  | divu => if b = 0 then -1 else BitVec.ofNat n (a.toNat / b.toNat)
  | rem =>
      if b = 0 then a
      else if a = BitVec.intMin n ∧ b = -1 then 0
      else BitVec.ofInt n (a.toInt.tmod b.toInt)
  | remu => if b = 0 then a else BitVec.ofNat n (a.toNat % b.toNat)

/-- The word form of an operation. -/
def evalWord (op : AluOp) (a b : BitVec 64) : BitVec 64 :=
  (op.eval (a.setWidth 32) (b.setWidth 32)).signExtend 64

def funct3 : AluOp → BitVec 3
  | add | sub | mul => 0b000
  | sll | mulh => 0b001
  | slt | mulhsu => 0b010
  | sltu | mulhu => 0b011
  | xor | div => 0b100
  | srl | sra | divu => 0b101
  | or | rem => 0b110
  | and | remu => 0b111

def funct7 : AluOp → BitVec 7
  | sub | sra => 0b0100000
  | mul | mulh | mulhsu | mulhu | div | divu | rem | remu => 0b0000001
  | _ => 0b0000000

end AluOp

/-- The operations with a word form. -/
inductive WordOp where
  | add
  | sub
  | sll
  | srl
  | sra
  | mul
  | div
  | divu
  | rem
  | remu
deriving DecidableEq

def WordOp.toAlu : WordOp → AluOp
  | add => .add
  | sub => .sub
  | sll => .sll
  | srl => .srl
  | sra => .sra
  | mul => .mul
  | div => .div
  | divu => .divu
  | rem => .rem
  | remu => .remu

/-- The operations with an immediate. -/
inductive ImmOp where
  | add
  | slt
  | sltu
  | xor
  | or
  | and
deriving DecidableEq

def ImmOp.toAlu : ImmOp → AluOp
  | add => .add
  | slt => .slt
  | sltu => .sltu
  | xor => .xor
  | or => .or
  | and => .and

/-- The shifts. -/
inductive ShiftOp where
  | sll
  | srl
  | sra
deriving DecidableEq

namespace ShiftOp

def toAlu : ShiftOp → AluOp
  | sll => .sll
  | srl => .srl
  | sra => .sra

def toWord : ShiftOp → WordOp
  | sll => .sll
  | srl => .srl
  | sra => .sra

/-- The upper part of the immediate of a shift by six bits. -/
def funct6 : ShiftOp → BitVec 6
  | sra => 0b010000
  | _ => 0b000000

end ShiftOp

/-! ## Instructions -/

/-- The instructions of the opcodes OP, OP-32, OP-IMM and OP-IMM-32. -/
inductive IntInst where
  | op (f : AluOp) (rd rs1 rs2 : Reg)
  | opWord (f : WordOp) (rd rs1 rs2 : Reg)
  | opImm (f : ImmOp) (rd rs1 : Reg) (imm : BitVec 12)
  | shiftImm (f : ShiftOp) (rd rs1 : Reg) (shamt : BitVec 6)
  | addiw (rd rs1 : Reg) (imm : BitVec 12)
  | shiftImmWord (f : ShiftOp) (rd rs1 : Reg) (shamt : BitVec 5)
deriving DecidableEq

namespace IntInst

def rd : IntInst → Reg
  | op _ rd _ _ => rd
  | opWord _ rd _ _ => rd
  | opImm _ rd _ _ => rd
  | shiftImm _ rd _ _ => rd
  | addiw rd _ _ => rd
  | shiftImmWord _ rd _ _ => rd

def encode : IntInst → BitVec 32
  | op f rd rs1 rs2 => rType f.funct7 rs2 rs1 f.funct3 rd 0b0110011
  | opWord f rd rs1 rs2 => rType f.toAlu.funct7 rs2 rs1 f.toAlu.funct3 rd 0b0111011
  | opImm f rd rs1 imm => iType imm rs1 f.toAlu.funct3 rd 0b0010011
  | shiftImm f rd rs1 shamt => iType (f.funct6 ++ shamt) rs1 f.toAlu.funct3 rd 0b0010011
  | addiw rd rs1 imm => RiscV.addiw rd rs1 imm
  | shiftImmWord f rd rs1 shamt =>
      iType (f.toAlu.funct7 ++ shamt) rs1 f.toAlu.funct3 rd 0b0011011

/-- The value for `rd`, from the contents of the registers. -/
def value (x : Reg → BitVec 64) : IntInst → BitVec 64
  | op f _ rs1 rs2 => f.eval (x rs1) (x rs2)
  | opWord f _ rs1 rs2 => f.toAlu.evalWord (x rs1) (x rs2)
  | opImm f _ rs1 imm => f.toAlu.eval (x rs1) (imm.signExtend 64)
  | shiftImm f _ rs1 shamt => f.toAlu.eval (x rs1) (shamt.setWidth 64)
  | addiw _ rs1 imm => AluOp.add.evalWord (x rs1) (imm.signExtend 64)
  | shiftImmWord f _ rs1 shamt => f.toAlu.evalWord (x rs1) (shamt.setWidth 64)

/-- None of the instructions is compressed. -/
theorem low_encode (i : IntInst) : BitField.get 0 2 i.encode = 0b11 := by
  cases i with
  | op | opWord =>
      rw [encode, low_rType]
      decide
  | opImm | shiftImm | addiw | shiftImmWord =>
      simp only [encode, RiscV.addiw, low_iType]
      decide

end IntInst

/-! ## Atomic memory operations -/

/-- The operations that read a value from memory and store another in its place. -/
inductive AmoOp where
  | swap
  | add
  | and
  | or
  | xor
  | min
  | max
  | minu
  | maxu
deriving DecidableEq

namespace AmoOp

/-- The value stored, from the register operand and the value in memory. -/
def eval {n : Nat} (op : AmoOp) (src mem : BitVec n) : BitVec n :=
  match op with
  | swap => src
  | add => BitVec.ofInt n (mem.toInt + src.toInt)
  | and => mem &&& src
  | or => mem ||| src
  | xor => mem ^^^ src
  | min => if mem.toInt < src.toInt then mem else src
  | max => if src.toInt < mem.toInt then mem else src
  | minu => if mem.toNat < src.toNat then mem else src
  | maxu => if src.toNat < mem.toNat then mem else src

/-- The operation orders its operands. -/
def isComparison : AmoOp → Bool
  | min | max | minu | maxu => true
  | swap | add | and | or | xor => false

end AmoOp

/-! ## Remainders at two widths -/

/-- The upper part of a remainder is a remainder of the upper part. -/
theorem emod_ediv_mul (z : Int) {a b : Int} (ha : 0 < a) (hb : 0 < b) :
    z % (a * b) / a = z / a % b := by
  have hr : 0 ≤ z % (a * b) := Int.emod_nonneg z (Int.mul_pos ha hb).ne'
  have hlt : z % (a * b) / a < b := by
    refine Int.ediv_lt_of_lt_mul ha ?_
    rw [mul_comm b a]
    exact Int.emod_lt_of_pos z (Int.mul_pos ha hb)
  have hz : z / a = z % (a * b) / a + b * (z / (a * b)) := by
    rw [← Int.add_mul_ediv_left _ _ ha.ne', ← mul_assoc, Int.emod_add_mul_ediv]
  rw [hz, Int.add_mul_emod_self_left, Int.emod_eq_of_lt (Int.ediv_nonneg hr ha.le) hlt]

theorem toNat_ofInt_cast {n : Nat} (z : Int) : ((BitVec.ofInt n z).toNat : Int) = z % 2 ^ n := by
  rw [BitVec.toNat_ofInt, Int.toNat_of_nonneg (Int.emod_nonneg z (by positivity))]
  push_cast
  rfl

theorem setWidth_ofInt {n m : Nat} (z : Int) (h : m ≤ n) :
    (BitVec.ofInt n z).setWidth m = BitVec.ofInt m z := by
  apply BitVec.eq_of_toNat_eq
  rw [BitVec.toNat_setWidth]
  zify
  rw [toNat_ofInt_cast, toNat_ofInt_cast, Int.emod_emod_of_dvd z (pow_dvd_pow 2 h)]

/-- The upper part of a word, as the upper part of a product is taken. -/
theorem high_ofInt {n : Nat} (m : Nat) (z : Int) :
    ((BitVec.ofInt (n + m) z) >>> n).setWidth m = BitVec.ofInt m (z / 2 ^ n) := by
  apply BitVec.eq_of_toNat_eq
  rw [BitVec.toNat_setWidth, BitVec.toNat_ushiftRight, Nat.shiftRight_eq_div_pow]
  zify
  rw [toNat_ofInt_cast, toNat_ofInt_cast, pow_add, emod_ediv_mul z (by positivity) (by positivity),
    Int.emod_emod]

theorem setWidth_eq_ofInt {n : Nat} (m : Nat) (x : BitVec n) :
    x.setWidth m = BitVec.ofInt m x.toNat := by
  rw [BitVec.ofInt_natCast, BitVec.ofNat_toNat]

/-- An operation that orders nothing computes the low bits of its value from the
low bits of its operands. -/
theorem AmoOp.eval_setWidth {n m : Nat} (h : m ≤ n) {op : AmoOp} (hop : op.isComparison = false)
    (src mem : BitVec n) :
    (op.eval src mem).setWidth m = op.eval (src.setWidth m) (mem.setWidth m) := by
  cases op with
  | swap => rfl
  | add =>
      show (BitVec.ofInt n (mem.toInt + src.toInt)).setWidth m
        = BitVec.ofInt m ((mem.setWidth m).toInt + (src.setWidth m).toInt)
      rw [BitVec.ofInt_add, BitVec.ofInt_add, BitVec.ofInt_toInt, BitVec.ofInt_toInt,
        BitVec.ofInt_toInt, BitVec.ofInt_toInt, BitVec.setWidth_add _ _ h]
  | and => exact BitVec.setWidth_and
  | or => exact BitVec.setWidth_or
  | xor => exact BitVec.setWidth_xor
  | min | max | minu | maxu => cases hop

theorem shiftLeft_eq_ofInt {n : Nat} (z : Int) (k : Nat) :
    BitVec.ofInt n z <<< k = BitVec.ofInt n (z * 2 ^ k) := by
  rw [BitVec.shiftLeft_eq_mul_twoPow, BitVec.ofInt_mul]
  congr 1
  apply BitVec.eq_of_toNat_eq
  zify
  rw [toNat_ofInt_cast, BitVec.toNat_twoPow]
  push_cast
  rfl

end RiscV
