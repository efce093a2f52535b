import MEmu.Lib.RiscV
import MEmu.Lib.Bytes

/-!
# RISC-V loads and stores

The seven loads and the four stores of RV64I, with their encodings.  Memory is a byte for each
natural number, and an integer is held by the bytes that it has, the least significant first.
-/

namespace RiscV

/-! ## Integers in memory -/

section Memory

variable {n : Nat}

/-- The `n` bytes of `mem` from `a` are those of `v`. -/
def Holds (mem : Nat → BitVec 8) (a : Nat) (v : BitVec (8 * n)) : Prop :=
  ∀ j < n, mem (a + j) = Bytes.byte j v

instance (mem : Nat → BitVec 8) (a : Nat) (v : BitVec (8 * n)) : Decidable (Holds mem a v) :=
  inferInstanceAs (Decidable (∀ j < n, _))

/-- `mem` with the bytes of `v` from `a` on. -/
def write (mem : Nat → BitVec 8) (a : Nat) (v : BitVec (8 * n)) : Nat → BitVec 8 :=
  fun i => if a ≤ i ∧ i < a + n then Bytes.byte (i - a) v else mem i

variable {mem : Nat → BitVec 8} {a : Nat} {v w : BitVec (8 * n)}

/-- Memory holds one integer at a place. -/
theorem Holds.unique (hv : Holds mem a v) (hw : Holds mem a w) : v = w :=
  Bytes.byte_ext fun j hj => (hv j hj).symm.trans (hw j hj)

theorem write_holds (mem : Nat → BitVec 8) (a : Nat) (v : BitVec (8 * n)) :
    Holds (write mem a v) a v := by
  intro j hj
  have hin : a ≤ a + j ∧ a + j < a + n := by omega
  rw [write, if_pos hin, Nat.add_sub_cancel_left]

theorem write_outside {i : Nat} (h : i < a ∨ a + n ≤ i) : write mem a v i = mem i :=
  if_neg (by omega)

end Memory

/-! ## Instructions -/

inductive LoadOp where
  | lb
  | lh
  | lw
  | ld
  | lbu
  | lhu
  | lwu
deriving DecidableEq

namespace LoadOp

def bytes : LoadOp → Nat
  | lb => 1
  | lh => 2
  | lw => 4
  | ld => 8
  | lbu => 1
  | lhu => 2
  | lwu => 4

/-- The load extends the sign. -/
def signed : LoadOp → Bool
  | lbu => false
  | lhu => false
  | lwu => false
  | _ => true

def funct3 : LoadOp → BitVec 3
  | lb => 0b000
  | lh => 0b001
  | lw => 0b010
  | ld => 0b011
  | lbu => 0b100
  | lhu => 0b101
  | lwu => 0b110

/-- What a load makes of the integer in memory. -/
def extend (op : LoadOp) (v : BitVec (8 * op.bytes)) : BitVec 64 :=
  if op.signed then v.signExtend 64 else v.setWidth 64

end LoadOp

inductive StoreOp where
  | sb
  | sh
  | sw
  | sd
deriving DecidableEq

namespace StoreOp

def bytes : StoreOp → Nat
  | sb => 1
  | sh => 2
  | sw => 4
  | sd => 8

def funct3 : StoreOp → BitVec 3
  | sb => 0b000
  | sh => 0b001
  | sw => 0b010
  | sd => 0b011

end StoreOp

/-- The instructions of the opcodes LOAD and STORE. -/
inductive MemInst where
  | load (op : LoadOp) (rd rs1 : Reg) (imm : BitVec 12)
  | store (op : StoreOp) (rs2 rs1 : Reg) (imm : BitVec 12)
deriving DecidableEq

namespace MemInst

def bytes : MemInst → Nat
  | load op _ _ _ => op.bytes
  | store op _ _ _ => op.bytes

def encode : MemInst → BitVec 32
  | load op rd rs1 imm => iType imm rs1 op.funct3 rd 0b0000011
  | store op rs2 rs1 imm => sType imm rs2 rs1 op.funct3 0b0100011

/-- The address, from the contents of the registers. -/
def addr (x : Reg → BitVec 64) : MemInst → BitVec 64
  | load _ _ rs1 imm => x rs1 + imm.signExtend 64
  | store _ _ rs1 imm => x rs1 + imm.signExtend 64

/-- The address is a multiple of the size of the access. -/
def Aligned (i : MemInst) (x : Reg → BitVec 64) : Prop := i.bytes ∣ (i.addr x).toNat

instance (i : MemInst) (x : Reg → BitVec 64) : Decidable (i.Aligned x) :=
  inferInstanceAs (Decidable (_ ∣ _))

/-- None of the instructions is compressed. -/
theorem low_encode (i : MemInst) : BitField.get 0 2 i.encode = 0b11 := by
  cases i with
  | load =>
      rw [encode, low_iType]
      decide
  | store =>
      rw [encode, low_sType]
      decide

end MemInst

end RiscV
