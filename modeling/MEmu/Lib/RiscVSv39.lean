import MEmu.Lib.BitField

/-!
# The Sv39 translation of the privileged specification

A memory of page-table entries is a function on addresses.  `translate` is the walk:
three levels at most, a page fault wherever an entry is invalid or has a reserved bit
set, and a leaf at any level, whose page number is aligned to its page.

No extension of the entry format is assumed, so that its ten upper bits are reserved.
-/

namespace RiscV.Sv39

/-! ## Entries -/

section Entry

variable (pte : BitVec 64)

def V : Bool := pte.getLsbD 0
def R : Bool := pte.getLsbD 1
def W : Bool := pte.getLsbD 2
def X : Bool := pte.getLsbD 3
def U : Bool := pte.getLsbD 4
def G : Bool := pte.getLsbD 5
def A : Bool := pte.getLsbD 6
def D : Bool := pte.getLsbD 7

/-- The number of the physical page. -/
def ppn : BitVec 44 := BitField.get 10 44 pte

/-- What an entry says at one level. -/
inductive Kind where
  | fault
  | pointer
  | leaf
deriving DecidableEq

/-- An encoding that is reserved at every level. -/
def reserved : Bool := BitField.get 54 10 pte != 0 || (W pte && !R pte)

/-- A pointer to the next table has `U`, `A` and `D` clear. -/
def reservedPointer : Bool := U pte || A pte || D pte

/-- The page number of a leaf of level `i` is a multiple of the size of its page. -/
def aligned (i : Nat) : Bool := BitField.get 10 (9 * i) pte == 0

def kind (i : Nat) : Kind :=
  if !V pte || reserved pte then .fault
  else if R pte || X pte then if aligned pte i then .leaf else .fault
  else if reservedPointer pte then .fault
  else .pointer

end Entry

/-! ## Addresses -/

/-- Bits 63 to 39 repeat bit 38. -/
def canonical (va : BitVec 64) : Bool := (BitField.get 0 39 va).signExtend 64 == va

theorem canonical_iff (va : BitVec 64) :
    canonical va = true ↔ ∀ j, 39 ≤ j → j < 64 → va.getLsbD j = va.getLsbD 38 := by
  have hmsb : (BitField.get 0 39 va).msb = va.getLsbD 38 := by
    rw [BitVec.msb_eq_getLsbD_last, BitField.getLsbD_get]
    rfl
  rw [canonical, beq_iff_eq]
  constructor
  · intro h j hj hlt
    have hbit := congrArg (BitVec.getLsbD · j) h
    rw [BitVec.getLsbD_signExtend, hmsb, if_neg (Nat.not_lt_of_le hj), decide_eq_true hlt] at hbit
    exact hbit.symm
  · intro h
    refine BitVec.eq_of_getLsbD_eq fun j hj => ?_
    rw [BitVec.getLsbD_signExtend, hmsb, decide_eq_true hj, Bool.true_and]
    split
    · rename_i hlt
      rw [BitField.getLsbD_get, decide_eq_true hlt, Bool.true_and, Nat.zero_add]
    · rename_i hge
      exact (h j (Nat.le_of_not_lt hge) hj).symm

/-- Virtual page number `i`. -/
def vpn (i : Nat) (va : BitVec 64) : BitVec 9 := BitField.get (12 + 9 * i) 9 va

/-- The address of the entry for `va` in the table of level `i` at `table`. -/
def entryAddr (i : Nat) (table va : BitVec 64) : BitVec 64 := table + (vpn i va).setWidth 64 * 8

/-- The table that an entry points to. -/
def next (pte : BitVec 64) : BitVec 64 := (ppn pte).setWidth 64 <<< 12

/-- The physical address of `va` under a leaf of level `i`: the page number above the
page, the virtual address within it. -/
def physical (pte : BitVec 64) (i : Nat) (va : BitVec 64) : BitVec 64 :=
  BitVec.ofNat 64
    ((ppn pte).toNat / 2 ^ (9 * i) * 2 ^ (12 + 9 * i) + va.toNat % 2 ^ (12 + 9 * i))

/-- An aligned leaf gives the address of its page, and the offset within it. -/
theorem physical_of_aligned {pte : BitVec 64} {i : Nat} (hi : i ≤ 2) (h : aligned pte i = true)
    (va : BitVec 64) :
    physical pte i va = next pte + BitVec.ofNat 64 (va.toNat % 2 ^ (12 + 9 * i)) := by
  have hdvd : 2 ^ (9 * i) ∣ (ppn pte).toNat := by
    have hzero : pte.toNat >>> 10 % 2 ^ (9 * i) = 0 := by
      rw [← BitVec.extractLsb'_toNat]
      exact (congrArg BitVec.toNat (beq_iff_eq.mp h)).trans BitVec.toNat_zero
    rw [ppn, BitField.get, BitVec.extractLsb'_toNat]
    exact (Nat.dvd_mod_iff (pow_dvd_pow 2 (by omega))).mpr (Nat.dvd_of_mod_eq_zero hzero)
  have hlt := (ppn pte).isLt
  apply BitVec.eq_of_toNat_eq
  rw [physical, next, pow_add, Nat.mul_comm (2 ^ 12), ← Nat.mul_assoc, Nat.div_mul_cancel hdvd,
    BitVec.toNat_add, BitVec.toNat_ofNat, BitVec.toNat_ofNat, BitVec.toNat_shiftLeft,
    BitVec.toNat_setWidth, Nat.mod_eq_of_lt (Nat.lt_trans hlt (by decide)), Nat.shiftLeft_eq,
    ← Nat.add_mod]

/-! ## The walk -/

/-- The leaf for `va` and its level, from the table of level `i` down. -/
def walk (mem : BitVec 64 → BitVec 64) (va : BitVec 64) :
    Nat → BitVec 64 → Option (BitVec 64 × Nat)
  | 0, table =>
      let pte := mem (entryAddr 0 table va)
      if kind pte 0 = .leaf then some (pte, 0) else none
  | i + 1, table =>
      let pte := mem (entryAddr (i + 1) table va)
      match kind pte (i + 1) with
      | .fault => none
      | .leaf => some (pte, i + 1)
      | .pointer => walk mem va i (next pte)

/-- The translation of `va`, `none` for a page fault. -/
def translate (mem : BitVec 64 → BitVec 64) (root va : BitVec 64) : Option (BitVec 64 × Nat) :=
  if canonical va then walk mem va 2 root else none

end RiscV.Sv39
