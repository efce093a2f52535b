import MEmu.Decode

/-!
# The fields of a compressed instruction

The fields and the immediates that `RVC` reads out of the fetched word, as those
of `RiscV.Compressed`.  The word is `hi ++ w`, where `w` is the instruction and
`hi` what follows it in memory, and no field reads `hi`.

An immediate is a sum of slices on both sides, in two orders: the source joins
them in the order of the encoding, the specification from the highest bit down.
-/

namespace MEmu

open RiscV

/-! ## Slices -/

/-- The mask of `binary_concat`. -/
theorem getLsbD_mask {k : Nat} (hk : k < 32) (i : Nat) :
    ((1 <<< k) - 1 : BitVec 32).getLsbD i = decide (i < k) := by
  have hpow : 2 ^ k < 2 ^ 32 := Nat.pow_lt_pow_right (by decide) hk
  have h1 : (((1 <<< k : Nat) : BitVec 32)).toNat = 2 ^ k := by
    rw [BitVec.natCast_eq_ofNat, BitVec.toNat_ofNat, Nat.one_shiftLeft, Nat.mod_eq_of_lt hpow]
  have h : ((1 <<< k) - 1 : BitVec 32).toNat = 2 ^ k - 1 := by
    rw [BitVec.toNat_sub_of_le, h1]
    · rfl
    · rw [BitVec.le_def, h1]
      exact Nat.two_pow_pos k
  rw [BitVec.getLsbD, h, Nat.testBit_two_pow_sub_one]

/-- A field of the word that lies in its lower half is one of the halfword. -/
theorem binaryConcat_append (hi w : BitVec 16) {r l : Nat} (hl : l ≤ r) (hr : r < 16)
    (shift : Nat) : binaryConcat (hi ++ w) r l shift = (w.extractLsb r l).setWidth 32 <<< shift := by
  rw [binaryConcat]
  congr 1
  apply BitVec.eq_of_getLsbD_eq
  intro i hi'
  rw [BitVec.getLsbD_and, getLsbD_mask (by omega), BitVec.getLsbD_ushiftRight,
    BitVec.getLsbD_append, BitVec.getLsbD_setWidth, BitVec.extractLsb, BitVec.getLsbD_extractLsb']
  by_cases hk : i < r - l + 1
  · have hlow : l + i < 16 := by omega
    simp [hk, hlow, hi']
  · simp [hk]

/-! ## Fields -/

namespace RVC

variable (hi w : BitVec 16)

/-- The opcode is the quadrant and `funct3`. -/
theorem opcode_append :
    opcode (hi ++ w) = Compressed.quadrant w ++ Compressed.funct3 w := by
  apply BitVec.eq_of_getLsbD_eq
  intro i hi'
  have hmask2 : (0b11 : BitVec 32) = (1 <<< 2) - 1 := rfl
  have hmask3 : (0b111 : BitVec 32) = (1 <<< 3) - 1 := rfl
  rw [opcode, BitVec.getLsbD_setWidth, BitVec.getLsbD_or, BitVec.getLsbD_shiftLeft,
    BitVec.getLsbD_and, BitVec.getLsbD_and, hmask2, hmask3, getLsbD_mask (by decide),
    getLsbD_mask (by decide), BitVec.getLsbD_ushiftRight, BitVec.getLsbD_append,
    BitVec.getLsbD_append, BitVec.getLsbD_append]
  rw [Compressed.quadrant, Compressed.funct3, BitVec.getLsbD_extractLsb, BitVec.getLsbD_extractLsb]
  by_cases h3 : i < 3
  · have hlow : 13 + i < 16 := by omega
    simp [hi', h3, hlow]
  · have h2 : i - 3 < 2 := by omega
    have h16 : i - 3 < 16 := by omega
    have h32 : i < 32 := by omega
    simp [hi', h3, h2, h16, h32]

/-- A field of at least its own width. -/
theorem field_append {r l : Nat} (hl : l ≤ r) (hr : r < 16) {k : Nat} (hk : k ≤ 32) :
    (binaryConcat (hi ++ w) r l 0).setWidth k = (w.extractLsb r l).setWidth k := by
  rw [binaryConcat_append hi w hl hr, BitVec.shiftLeft_zero]
  exact BitVec.setWidth_setWidth_of_le _ hk

/-- The register field at bit 7. -/
theorem reg_rd : reg (hi ++ w) 11 7 = Compressed.rd w := by
  rw [reg, field_append hi w (by decide) (by decide) (by decide)]
  exact BitVec.setWidth_eq _

/-- The register field at bit 2. -/
theorem reg_rs2 : reg (hi ++ w) 6 2 = Compressed.rs2 w := by
  rw [reg, field_append hi w (by decide) (by decide) (by decide)]
  exact BitVec.setWidth_eq _

/-- The three bits of a register stand for `x8` to `x15`. -/
theorem regC_append : ∀ v : BitVec 3, (8 : Reg) + v.setWidth 5 = 0b01#2 ++ v := by decide

/-- The short register field at bit 2. -/
theorem regC_rdC : regC (hi ++ w) 4 2 = Compressed.rdC w := by
  rw [regC, field_append hi w (by decide) (by decide) (by decide)]
  exact regC_append _

/-- The short register field at bit 7. -/
theorem regC_rs1C : regC (hi ++ w) 9 7 = Compressed.rs1C w := by
  rw [regC, field_append hi w (by decide) (by decide) (by decide)]
  exact regC_append _

/-- The tests of a single bit. -/
theorem bit_append {k : Nat} (hk : k < 16) :
    binaryConcat (hi ++ w) k k 0 = if w.getLsbD k then 1 else 0 := by
  have hw : w.extractLsb k k = (BitVec.ofBool (w.getLsbD k)).setWidth (k - k + 1) := by
    apply BitVec.eq_of_getLsbD_eq
    intro i hi'
    have h0 : i = 0 := by omega
    subst h0
    simp
  rw [binaryConcat_append hi w (le_refl k) hk, BitVec.shiftLeft_zero, hw,
    BitVec.setWidth_setWidth (by omega)]
  cases w.getLsbD k <;> rfl

/-- A field of one bit is zero where the bit is clear. -/
theorem bit_eq_zero {k : Nat} (hk : k < 16) :
    binaryConcat (hi ++ w) k k 0 = 0 ↔ w.getLsbD k = false := by
  rw [bit_append hi w hk]
  cases w.getLsbD k <;> decide

/-- A field of one bit is not zero where the bit is set. -/
theorem bit_bne_zero {k : Nat} (hk : k < 16) :
    (binaryConcat (hi ++ w) k k 0 != 0) = w.getLsbD k := by
  rw [bit_append hi w hk]
  cases w.getLsbD k <;> rfl

/-- The field that tells the rows between two registers apart. -/
theorem funct2_append : (binaryConcat (hi ++ w) 6 5 0).setWidth 2 = w.extractLsb 6 5 := by
  rw [field_append hi w (by decide) (by decide) (by decide)]
  exact BitVec.setWidth_eq _

/-- The bit that `signFill` tests is the sign. -/
theorem sign_setWidth {n : Nat} (v : BitVec (n + 1)) (hn : n < 64) :
    (v.setWidth 64 : Word) >>> n = if v.msb then 1 else 0 := by
  apply BitVec.eq_of_getLsbD_eq
  intro i hi
  rw [BitVec.getLsbD_ushiftRight, BitVec.getLsbD_setWidth]
  cases i with
  | zero =>
      rw [Nat.add_zero, BitVec.msb_eq_getLsbD_last, Nat.add_sub_cancel]
      cases v.getLsbD n <;> simp [hn]
  | succ i =>
      rw [BitVec.getLsbD_of_ge v (n + (i + 1)) (by omega)]
      cases v.msb <;> simp

/-- A field whose sign is filled in is the field extended by its sign. -/
theorem signFill_setWidth {n : Nat} (v : BitVec (n + 1)) (hn : n < 32) {fill : Word}
    (hfill : fill = BitVec.allOnes 64 <<< (n + 1)) :
    signFill n fill (v.setWidth 32) = v.signExtend 64 := by
  have h64 : (v.setWidth 32).setWidth 64 = v.setWidth 64 := BitVec.setWidth_setWidth (by omega)
  have hsign := sign_setWidth v (by omega)
  simp only [signFill, h64, hsign]
  apply BitVec.eq_of_getLsbD_eq
  intro i hi'
  rw [BitVec.getLsbD_signExtend]
  cases hm : v.msb with
  | true =>
      rw [if_pos (by decide), BitVec.getLsbD_or, hfill, BitVec.getLsbD_shiftLeft,
        BitVec.getLsbD_allOnes, BitVec.getLsbD_setWidth]
      by_cases hlow : i < n + 1
      · simp [hlow, hi']
      · have hs : i - (n + 1) < 64 := by omega
        simp [hlow, hi', hs]
  | false =>
      rw [if_neg (by decide), BitVec.getLsbD_setWidth]
      by_cases hlow : i < n + 1
      · simp [hlow, hi']
      · have hs : v.getLsbD i = false := BitVec.getLsbD_of_ge v i (by omega)
        simp [hlow, hi', hs]

/-! ### Immediates -/

open BitVec (setWidth_append_eq_shiftLeft_setWidth_or shiftLeft_or_distrib shiftLeft_add or_zero)

/-- The immediate of six bits, unsigned. -/
theorem imm6_append : imm6 (hi ++ w) = (Compressed.imm6 w).setWidth 32 := by
  simp (disch := decide) only [imm6, Compressed.imm6, binaryConcat_append,
    setWidth_append_eq_shiftLeft_setWidth_or, BitVec.shiftLeft_zero]

/-- The immediate of six bits as a shift amount. -/
theorem imm6_word : (imm6 (hi ++ w)).setWidth 64 = (Compressed.imm6 w).setWidth 64 := by
  rw [imm6_append]
  exact BitVec.setWidth_setWidth (by decide)

/-- The immediate of six bits, signed. -/
theorem immADDI_append : immADDI (hi ++ w) = (Compressed.imm6 w).signExtend 64 := by
  rw [immADDI, imm6_append]
  exact signFill_setWidth (Compressed.imm6 w) (by decide) rfl

/-- The immediate of `c.addi4spn`. -/
theorem immADDI4SPN_append : immADDI4SPN (hi ++ w) = (Compressed.uimmADDI4SPN w).setWidth 64 := by
  rw [← BitVec.setWidth_setWidth (w := 64) (v := 32) (by decide), immADDI4SPN]
  congr 1
  simp (disch := decide) only [binaryConcat_append, Compressed.uimmADDI4SPN,
    setWidth_append_eq_shiftLeft_setWidth_or, shiftLeft_or_distrib, ← shiftLeft_add,
    BitVec.setWidth_zero, or_zero]
  ac_rfl

/-- The offset of `c.lw` and `c.sw`. -/
theorem immLW_append : immLW (hi ++ w) = (Compressed.uimmLW w).setWidth 64 := by
  rw [← BitVec.setWidth_setWidth (w := 64) (v := 32) (by decide), immLW]
  congr 1
  simp (disch := decide) only [binaryConcat_append, Compressed.uimmLW,
    setWidth_append_eq_shiftLeft_setWidth_or, shiftLeft_or_distrib, ← shiftLeft_add,
    BitVec.setWidth_zero, or_zero]
  ac_rfl

/-- The offset of `c.ld` and `c.sd`. -/
theorem immLD_append : immLD (hi ++ w) = (Compressed.uimmLD w).setWidth 64 := by
  rw [← BitVec.setWidth_setWidth (w := 64) (v := 32) (by decide), immLD]
  congr 1
  simp (disch := decide) only [binaryConcat_append, Compressed.uimmLD,
    setWidth_append_eq_shiftLeft_setWidth_or, shiftLeft_or_distrib, ← shiftLeft_add,
    BitVec.setWidth_zero, or_zero]

/-- The offset of `c.lwsp`. -/
theorem immLWSP_append : immLWSP (hi ++ w) = (Compressed.uimmLWSP w).setWidth 64 := by
  rw [← BitVec.setWidth_setWidth (w := 64) (v := 32) (by decide), immLWSP]
  congr 1
  simp (disch := decide) only [binaryConcat_append, Compressed.uimmLWSP,
    setWidth_append_eq_shiftLeft_setWidth_or, shiftLeft_or_distrib, ← shiftLeft_add,
    BitVec.setWidth_zero, or_zero]
  ac_rfl

/-- The offset of `c.ldsp`. -/
theorem immLDSP_append : immLDSP (hi ++ w) = (Compressed.uimmLDSP w).setWidth 64 := by
  rw [← BitVec.setWidth_setWidth (w := 64) (v := 32) (by decide), immLDSP]
  congr 1
  simp (disch := decide) only [binaryConcat_append, Compressed.uimmLDSP,
    setWidth_append_eq_shiftLeft_setWidth_or, shiftLeft_or_distrib, ← shiftLeft_add,
    BitVec.setWidth_zero, or_zero]
  ac_rfl

/-- The offset of `c.swsp`. -/
theorem immSWSP_append : immSWSP (hi ++ w) = (Compressed.uimmSWSP w).setWidth 64 := by
  rw [← BitVec.setWidth_setWidth (w := 64) (v := 32) (by decide), immSWSP]
  congr 1
  simp (disch := decide) only [binaryConcat_append, Compressed.uimmSWSP,
    setWidth_append_eq_shiftLeft_setWidth_or, shiftLeft_or_distrib, ← shiftLeft_add,
    BitVec.setWidth_zero, or_zero]
  ac_rfl

/-- The offset of `c.sdsp`. -/
theorem immSDSP_append : immSDSP (hi ++ w) = (Compressed.uimmSDSP w).setWidth 64 := by
  rw [← BitVec.setWidth_setWidth (w := 64) (v := 32) (by decide), immSDSP]
  congr 1
  simp (disch := decide) only [binaryConcat_append, Compressed.uimmSDSP,
    setWidth_append_eq_shiftLeft_setWidth_or, shiftLeft_or_distrib, ← shiftLeft_add,
    BitVec.setWidth_zero, or_zero]
  ac_rfl

/-- The immediate of `c.addi16sp`. -/
theorem immADDI16SP_append :
    immADDI16SP (hi ++ w) = (Compressed.immADDI16SP w).signExtend 64 := by
  rw [← signFill_setWidth (Compressed.immADDI16SP w) (by decide) rfl, immADDI16SP]
  congr 1
  simp (disch := decide) only [binaryConcat_append, Compressed.immADDI16SP,
    setWidth_append_eq_shiftLeft_setWidth_or, shiftLeft_or_distrib, ← shiftLeft_add,
    BitVec.setWidth_zero, or_zero]
  ac_rfl

/-- The immediate of `c.lui`, which is that of six bits in the upper part. -/
theorem immLUI_append : immLUI (hi ++ w) = (Compressed.imm6 w ++ 0#12).signExtend 64 := by
  have h : binaryConcat (hi ++ w) 12 12 17 ||| binaryConcat (hi ++ w) 6 2 12
      = (Compressed.imm6 w ++ 0#12).setWidth 32 := by
    simp (disch := decide) only [binaryConcat_append, Compressed.imm6,
      setWidth_append_eq_shiftLeft_setWidth_or, shiftLeft_or_distrib, ← shiftLeft_add,
      BitVec.setWidth_zero, or_zero]
  rw [immLUI, h]
  exact signFill_setWidth (n := 17) (Compressed.imm6 w ++ 0#12) (by decide) rfl

/-- The offset of `c.j`. -/
theorem immJ_append : immJ (hi ++ w) = (Compressed.offJ w ++ 0#1).signExtend 64 := by
  rw [← signFill_setWidth (Compressed.offJ w ++ 0#1) (by decide) rfl, immJ]
  congr 1
  simp (disch := decide) only [binaryConcat_append, Compressed.offJ,
    setWidth_append_eq_shiftLeft_setWidth_or, shiftLeft_or_distrib, ← shiftLeft_add,
    BitVec.setWidth_zero, or_zero]
  ac_rfl

/-- The offset of `c.beqz` and `c.bnez`. -/
theorem immB_append : immB (hi ++ w) = (Compressed.offB w ++ 0#1).signExtend 64 := by
  rw [← signFill_setWidth (Compressed.offB w ++ 0#1) (by decide) rfl, immB]
  congr 1
  simp (disch := decide) only [binaryConcat_append, Compressed.offB,
    setWidth_append_eq_shiftLeft_setWidth_or, shiftLeft_or_distrib, ← shiftLeft_add,
    BitVec.setWidth_zero, or_zero]
  ac_rfl

end RVC

/-! ## Bit 12 -/

/-- Bit 12 as a field of one bit that is zero. -/
theorem bit12_of_zero (w : BitVec 16) (h : w.extractLsb 12 12 = 0#1) : w.getLsbD 12 = false := by
  have hbit : (w.extractLsb 12 12).getLsbD 0 = false := by rw [h]; rfl
  simpa using hbit

theorem one_of_ne_zero : ∀ v : BitVec 1, v ≠ 0#1 → v = 1#1 := by decide

/-- Bit 12 as a field of one bit that is not zero. -/
theorem bit12_of_ne (w : BitVec 16) (h : w.extractLsb 12 12 ≠ 0#1) : w.getLsbD 12 = true := by
  have hone : w.extractLsb 12 12 = 1#1 := one_of_ne_zero _ h
  have hbit : (w.extractLsb 12 12).getLsbD 0 = true := by rw [hone]; rfl
  simpa using hbit

/-! ## The switch -/

/-- The two lowest bits tell the lengths apart. -/
theorem isCompressedInst_append (hi : BitVec 16) {w : BitVec 16}
    (h : Compressed.quadrant w ≠ 0b11#2) : isCompressedInst (hi ++ w) = true := by
  have hlow : BitField.get 0 2 (hi ++ w) = Compressed.quadrant w :=
    BitVec.extractLsb'_append_eq_of_add_le (by decide)
  rw [isCompressedInst_eq, hlow]
  exact bne_iff_ne.mpr h

/-- The compressed switch, at a row of the opcode map. -/
theorem rvc_ofVal (hi w : BitVec 16) {c : RV64COpCode}
    (h : Compressed.quadrant w ++ Compressed.funct3 w = c.val) :
    RV64COpCode.ofVal (RVC.opcode (hi ++ w)) = some c := by
  rw [RVC.opcode_append, h, RV64COpCode.ofVal_val]

end MEmu
