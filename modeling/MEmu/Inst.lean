import MEmu.Structs

/-!
# Instruction words

The field readers of the union `RVInst_t`, the macro `binary_concat`, and the
encoding enumerations of `rv64_inst.h`.  Major opcodes and CSR numbers are
inductive types with their numeric value and the cast back.  The minor function
codes are names for their bit patterns, to match on.
-/

namespace MEmu

/-- `binary_concat(value, r, l, shift)`. -/
def binaryConcat (value : BitVec 32) (r l shift : Nat) : BitVec 32 :=
  ((value >>> l) &&& ((1 <<< (r - l + 1)) - 1)) <<< shift

/-! ## Fields of an instruction word -/

namespace RVInst

def opcode (i : BitVec 32) : BitVec 7 := BitField.get 0 7 i
def rd (i : BitVec 32) : BitVec 5 := BitField.get 7 5 i
def funct3 (i : BitVec 32) : BitVec 3 := BitField.get 12 3 i
def rs1 (i : BitVec 32) : BitVec 5 := BitField.get 15 5 i
def rs2 (i : BitVec 32) : BitVec 5 := BitField.get 20 5 i
def funct7 (i : BitVec 32) : BitVec 7 := BitField.get 25 7 i

/-- `i_type.imm12`, as a 64-bit integer. -/
def imm12 (i : BitVec 32) : Word := (BitField.get 20 12 i).signExtend 64

/-- The immediate that `OPCODE_STORE` joins from the fields of `s_type`. -/
def immS (i : BitVec 32) : Word :=
  ((BitField.get 25 7 i).signExtend 64 <<< 5) ||| (BitField.get 7 5 i).setWidth 64

/-- The offset that `OPCODE_BRANCH` joins from the fields of `b_type`. -/
def immB (i : BitVec 32) : Word :=
  ((BitField.get 31 1 i).signExtend 64 <<< 12) ||| ((BitField.get 7 1 i).setWidth 64 <<< 11) |||
    ((BitField.get 25 6 i).setWidth 64 <<< 5) ||| ((BitField.get 8 4 i).setWidth 64 <<< 1)

/-- `((int64_t) u_type.imm_31_12) << 12`. -/
def immU (i : BitVec 32) : Word := (BitField.get 12 20 i).signExtend 64 <<< 12

/-- The offset that `OPCODE_JAL` joins from the fields of `j_type`. -/
def immJ (i : BitVec 32) : Word :=
  ((BitField.get 31 1 i).signExtend 64 <<< 20) ||| ((BitField.get 12 8 i).setWidth 64 <<< 12) |||
    ((BitField.get 20 1 i).setWidth 64 <<< 11) ||| ((BitField.get 21 10 i).setWidth 64 <<< 1)

/-- The CSR number, `i_type.imm12 & ((1<<12)-1)`. -/
def csrIndex (i : BitVec 32) : BitVec 12 := BitField.get 20 12 i

end RVInst

/-! ## Major opcodes -/

/-- `RV64I_OpCode_enum`. -/
inductive RV64IOpCode where
  | lui
  | auipc
  | jal
  | jalr
  | branch
  | load
  | store
  | opimm
  | opimm32
  | op
  | op32
  | fence
  | system
  | amo
deriving DecidableEq

namespace RV64IOpCode

def val : RV64IOpCode → BitVec 7
  | lui => 0b0110111
  | auipc => 0b0010111
  | jal => 0b1101111
  | jalr => 0b1100111
  | branch => 0b1100011
  | load => 0b0000011
  | store => 0b0100011
  | opimm => 0b0010011
  | opimm32 => 0b0011011
  | op => 0b0110011
  | op32 => 0b0111011
  | fence => 0b0001111
  | system => 0b1110011
  | amo => 0b0101111

/-- The case of the opcode switch that a value takes, `none` for its default. -/
def ofVal (v : BitVec 7) : Option RV64IOpCode :=
  [lui, auipc, jal, jalr, branch, load, store, opimm, opimm32, op, op32, fence, system, amo].find?
    fun c => c.val == v

@[simp] theorem ofVal_val (c : RV64IOpCode) : ofVal c.val = some c := by
  cases c <;> rfl

theorem val_of_ofVal {v : BitVec 7} {c : RV64IOpCode} (h : ofVal v = some c) : v = c.val := by
  have hp := List.find?_some h
  exact (beq_iff_eq.mp hp).symm

end RV64IOpCode

/-- `RV64C_OpCode_enum`. -/
inductive RV64COpCode where
  | addi4spn
  | lw
  | ld
  | sw
  | sd
  | addi
  | addiw
  | li
  | addi16spnLui
  | alu
  | j
  | beqz
  | bnez
  | slli
  | lwsp
  | ldsp
  | jrMvEbJalrAdd
  | swsp
  | sdsp
deriving DecidableEq

namespace RV64COpCode

def val : RV64COpCode → BitVec 5
  | addi4spn => 0b00000
  | lw => 0b00010
  | ld => 0b00011
  | sw => 0b00110
  | sd => 0b00111
  | addi => 0b01000
  | addiw => 0b01001
  | li => 0b01010
  | addi16spnLui => 0b01011
  | alu => 0b01100
  | j => 0b01101
  | beqz => 0b01110
  | bnez => 0b01111
  | slli => 0b10000
  | lwsp => 0b10010
  | ldsp => 0b10011
  | jrMvEbJalrAdd => 0b10100
  | swsp => 0b10110
  | sdsp => 0b10111

/-- The case of the compressed opcode switch that a value takes. -/
def ofVal (v : BitVec 5) : Option RV64COpCode :=
  [addi4spn, lw, ld, sw, sd, addi, addiw, li, addi16spnLui, alu, j, beqz, bnez, slli, lwsp, ldsp,
    jrMvEbJalrAdd, swsp, sdsp].find? fun c => c.val == v

@[simp] theorem ofVal_val (c : RV64COpCode) : ofVal c.val = some c := by
  cases c <;> rfl

end RV64COpCode

/-! ## Minor function codes -/

/-! `RV64C_Funct2_enum`. -/

namespace Funct2

@[match_pattern] abbrev sub : BitVec 2 := 0b00#2
@[match_pattern] abbrev xorAddw : BitVec 2 := 0b01#2
@[match_pattern] abbrev or : BitVec 2 := 0b10#2
@[match_pattern] abbrev and : BitVec 2 := 0b11#2

end Funct2

/-! The `Funct3_*_enum` enumerations. -/

namespace Funct3

@[match_pattern] abbrev beq : BitVec 3 := 0b000#3
@[match_pattern] abbrev bne : BitVec 3 := 0b001#3
@[match_pattern] abbrev blt : BitVec 3 := 0b100#3
@[match_pattern] abbrev bge : BitVec 3 := 0b101#3
@[match_pattern] abbrev bltu : BitVec 3 := 0b110#3
@[match_pattern] abbrev bgeu : BitVec 3 := 0b111#3

@[match_pattern] abbrev lb : BitVec 3 := 0b000#3
@[match_pattern] abbrev lh : BitVec 3 := 0b001#3
@[match_pattern] abbrev lw : BitVec 3 := 0b010#3
@[match_pattern] abbrev ld : BitVec 3 := 0b011#3
@[match_pattern] abbrev lbu : BitVec 3 := 0b100#3
@[match_pattern] abbrev lhu : BitVec 3 := 0b101#3
@[match_pattern] abbrev lwu : BitVec 3 := 0b110#3

@[match_pattern] abbrev sb : BitVec 3 := 0b000#3
@[match_pattern] abbrev sh : BitVec 3 := 0b001#3
@[match_pattern] abbrev sw : BitVec 3 := 0b010#3
@[match_pattern] abbrev sd : BitVec 3 := 0b011#3

@[match_pattern] abbrev addSub : BitVec 3 := 0b000#3
@[match_pattern] abbrev sll : BitVec 3 := 0b001#3
@[match_pattern] abbrev slt : BitVec 3 := 0b010#3
@[match_pattern] abbrev sltu : BitVec 3 := 0b011#3
@[match_pattern] abbrev xor : BitVec 3 := 0b100#3
@[match_pattern] abbrev srlSra : BitVec 3 := 0b101#3
@[match_pattern] abbrev or : BitVec 3 := 0b110#3
@[match_pattern] abbrev and : BitVec 3 := 0b111#3

@[match_pattern] abbrev mul : BitVec 3 := 0b000#3
@[match_pattern] abbrev mulh : BitVec 3 := 0b001#3
@[match_pattern] abbrev mulhsu : BitVec 3 := 0b010#3
@[match_pattern] abbrev mulhu : BitVec 3 := 0b011#3
@[match_pattern] abbrev div : BitVec 3 := 0b100#3
@[match_pattern] abbrev divu : BitVec 3 := 0b101#3
@[match_pattern] abbrev rem : BitVec 3 := 0b110#3
@[match_pattern] abbrev remu : BitVec 3 := 0b111#3

@[match_pattern] abbrev priv : BitVec 3 := 0b000#3
@[match_pattern] abbrev csrrw : BitVec 3 := 0b001#3
@[match_pattern] abbrev csrrs : BitVec 3 := 0b010#3
@[match_pattern] abbrev csrrc : BitVec 3 := 0b011#3
@[match_pattern] abbrev csrrwi : BitVec 3 := 0b101#3
@[match_pattern] abbrev csrrsi : BitVec 3 := 0b110#3
@[match_pattern] abbrev csrrci : BitVec 3 := 0b111#3

end Funct3

/-! The `Funct7_*_enum` and `Funct6_*_enum` enumerations. -/

namespace Funct7

@[match_pattern] abbrev ecallEbreak : BitVec 7 := 0b0000000#7
@[match_pattern] abbrev sretWfi : BitVec 7 := 0b0001000#7
@[match_pattern] abbrev mret : BitVec 7 := 0b0011000#7
@[match_pattern] abbrev sfenceVma : BitVec 7 := 0b0001001#7

@[match_pattern] abbrev normal : BitVec 7 := 0b0000000#7
@[match_pattern] abbrev subSra : BitVec 7 := 0b0100000#7
@[match_pattern] abbrev mul : BitVec 7 := 0b0000001#7

end Funct7

namespace Funct6

@[match_pattern] abbrev normal : BitVec 6 := 0b000000#6
@[match_pattern] abbrev sra : BitVec 6 := 0b010000#6

end Funct6

/-! ## CSR numbers -/

/-- The values of `RV_CSR_Addr_enum` that a case of `csr_read` or `csr_write`
names.  Every other number takes the default of both. -/
inductive CSRAddr where
  | mvendorid
  | marchid
  | mimpid
  | mhartid
  | mconfigptr
  | mstatus
  | misa
  | medeleg
  | mideleg
  | mie
  | mtvec
  | mcounteren
  | mscratch
  | mepc
  | mcause
  | mtval
  | mip
  | mcycle
  | minstret
  | sstatus
  | sie
  | stvec
  | scounteren
  | sscratch
  | sepc
  | scause
  | stval
  | sip
  | satp
  | cycle
  | tselect
  | tdata1
deriving DecidableEq

namespace CSRAddr

def val : CSRAddr → BitVec 12
  | mvendorid => 0xf11
  | marchid => 0xf12
  | mimpid => 0xf13
  | mhartid => 0xf14
  | mconfigptr => 0xf15
  | mstatus => 0x300
  | misa => 0x301
  | medeleg => 0x302
  | mideleg => 0x303
  | mie => 0x304
  | mtvec => 0x305
  | mcounteren => 0x306
  | mscratch => 0x340
  | mepc => 0x341
  | mcause => 0x342
  | mtval => 0x343
  | mip => 0x344
  | mcycle => 0xb00
  | minstret => 0xb02
  | sstatus => 0x100
  | sie => 0x104
  | stvec => 0x105
  | scounteren => 0x106
  | sscratch => 0x140
  | sepc => 0x141
  | scause => 0x142
  | stval => 0x143
  | sip => 0x144
  | satp => 0x180
  | cycle => 0xc00
  | tselect => 0x7a0
  | tdata1 => 0x7a1

/-- The case of the CSR switches that a number takes. -/
def ofVal (v : BitVec 12) : Option CSRAddr :=
  [mvendorid, marchid, mimpid, mhartid, mconfigptr, mstatus, misa, medeleg, mideleg, mie, mtvec,
    mcounteren, mscratch, mepc, mcause, mtval, mip, mcycle, minstret, sstatus, sie, stvec,
    scounteren, sscratch, sepc, scause, stval, sip, satp, cycle, tselect, tdata1].find?
    fun c => c.val == v

@[simp] theorem ofVal_val (c : CSRAddr) : ofVal c.val = some c := by
  cases c <;> rfl

theorem val_of_ofVal {v : BitVec 12} {c : CSRAddr} (h : ofVal v = some c) : v = c.val := by
  have hp := List.find?_some h
  exact (beq_iff_eq.mp hp).symm

end CSRAddr

end MEmu
