import MEmu.Clint

/-!
# The register file of the core-local interruptor

The bus sees the three register blocks as ranges of bytes.  An access is accepted exactly
where it lies in one of them.  A write replaces the bytes of its range, and a write of the
software interrupts keeps only the lowest bit of each of their words.
-/

namespace MEmu

open Run (Sat)

namespace RVCoreLocalInt

variable {nr_hart : Nat} {c : RVCoreLocalInt nr_hart}

/-! ## Ranges of bytes -/

/-- The offset of a register block. -/
def Region.base : Region → Nat
  | mtime => 0xbff8
  | mtimecmp => 0x4000
  | msip => 0

/-- The bytes `start` to `start + size` lie in a register block. -/
def Region.Holds (nr_hart : Nat) (region : Region) (start size : Nat) : Prop :=
  region.base ≤ start ∧ start + size ≤ region.base + region.bytes nr_hart

/-- The bytes `start` to `start + size` lie in one of the register blocks. -/
def InRegs (nr_hart start size : Nat) : Prop := ∃ region : Region, region.Holds nr_hart start size

/-- What a register keeps of a byte that is written at an offset: of the software interrupts the
lowest bit of each word. -/
def kept (off : Nat) (b : Byte) : Byte :=
  if off < 0x4000 then if off % 4 = 0 then b &&& 1 else 0 else b

/-- The byte to read at `off` after a write, where `old` was read before it.  A write of the
software interrupts goes over all of their words. -/
def rewritten (start size : Nat) (buffer : List Byte) (off : Nat) (old : Byte) : Byte :=
  if start ≤ off ∧ off < start + size then kept off (buffer.getD (off - start) 0)
  else if start < 0x4000 then kept off old
  else old

/-- With a block in the way of none of the others, a decoded access lies in its block. -/
theorem decode_eq_some (h4095 : nr_hart ≤ 4095) {start_addr size : Word}
    (hsize : 1 ≤ size.toNat) (hwrap : start_addr.toNat + size.toNat < 2 ^ 64) (region : Region)
    (off : Nat) :
    decode nr_hart start_addr size = some (region, off) ↔
      region.Holds nr_hart start_addr.toNat size.toNat ∧ off = start_addr.toNat - region.base := by
  have hend : (start_addr + size).toNat = start_addr.toNat + size.toNat := by
    rw [BitVec.toNat_add, Nat.mod_eq_of_lt hwrap]
  have hbase : 0x4000 ≤ start_addr ↔ 0x4000 ≤ start_addr.toNat := BitVec.le_def
  have htime : 0xbff8 ≤ start_addr ↔ 0xbff8 ≤ start_addr.toNat := BitVec.le_def
  have hstop : start_addr + size ≤ 0xc000 ↔ start_addr.toNat + size.toNat ≤ 0xc000 := by
    rw [BitVec.le_def, hend]
    rfl
  simp only [decode, hbase, htime, hstop, hend]
  split_ifs <;> cases region <;> simp [Region.Holds, Region.base, Region.bytes] <;> omega

theorem decode_eq_none (h4095 : nr_hart ≤ 4095) {start_addr size : Word}
    (hsize : 1 ≤ size.toNat) (hwrap : start_addr.toNat + size.toNat < 2 ^ 64) :
    decode nr_hart start_addr size = none ↔ ¬InRegs nr_hart start_addr.toNat size.toNat := by
  have hdec := decode_eq_some h4095 hsize hwrap
  cases h : decode nr_hart start_addr size with
  | none =>
      refine iff_of_true rfl fun ⟨region, hin⟩ => ?_
      have := (hdec region _).mpr ⟨hin, rfl⟩
      rw [h] at this
      cases this
  | some p => exact iff_of_false nofun (not_not_intro ⟨p.1, ((hdec p.1 p.2).mp h).1⟩)

/-! ## Bytes after a write -/

theorem byte_and_one {j : Nat} (v : BitVec 32) :
    Bytes.byte j (v &&& 1) = if j = 0 then Bytes.byte j v &&& 1 else 0 := by
  apply BitVec.eq_of_getLsbD_eq
  intro i hi
  rw [Bytes.byte, BitVec.getLsbD_extractLsb', BitVec.getLsbD_and]
  by_cases hj : j = 0
  · subst hj
    simp [Bytes.byte, hi]
  · simp [hj]

/-- Masked words keep the lowest bit of their lowest bytes. -/
theorem arrayByte_and_one {len i : Nat} (a : Fin len → BitVec (8 * 4)) :
    arrayByte (n := 4) (fun k => a k &&& 1) i
      = if i % 4 = 0 then arrayByte a i &&& 1 else 0 := by
  unfold arrayByte
  split
  · exact byte_and_one _
  · simp

theorem kept_of_le {off : Nat} (h : 0x4000 ≤ off) (b : Byte) : kept off b = b :=
  if_neg (Nat.not_lt.mpr h)

/-- A byte of a register block after a write to the block. -/
theorem regByte_written (region : Region) {start size i : Nat} (buffer : List Byte)
    (hn : nr_hart ≤ 4095) (hstart : start < region.bytes nr_hart)
    (hi : i < region.bytes nr_hart) :
    (c.store region start size buffer).regByte region i
      = rewritten (region.base + start) size buffer (region.base + i) (c.regByte region i) := by
  have hrange : region.base + start ≤ region.base + i ∧ region.base + i < region.base + start + size
      ↔ start ≤ i ∧ i < start + size := by omega
  have hoff : region.base + i - (region.base + start) = i - start := by omega
  rw [rewritten, hoff]
  simp only [hrange]
  by_cases hregion : region = .msip
  · subst hregion
    have hlow : (Region.base .msip + start) < 0x4000 := by
      simp only [Region.bytes] at hstart
      simp only [Region.base]
      omega
    have hlow' : Region.base .msip + i < 0x4000 := by
      simp only [Region.bytes] at hi
      simp only [Region.base]
      omega
    have hmod : (Region.base .msip + i) % 4 = i % 4 := by rw [Region.base, Nat.zero_add]
    rw [if_pos hlow, kept, kept, if_pos hlow', if_pos hlow', hmod]
    show arrayByte (n := 4) (fun k => copyInto (n := 4) k (c.msip k) start size buffer &&& 1) i = _
    rw [arrayByte_and_one, arrayByte_copyInto (n := 4) c.msip buffer (by decide) (by decide) hi]
    show _ = if start ≤ i ∧ i < start + size then _
      else if i % 4 = 0 then arrayByte (n := 4) c.msip i &&& 1 else 0
    split_ifs <;> rfl
  · have hbase : 0x4000 ≤ region.base := by
      cases region with
      | mtime | mtimecmp => decide
      | msip => exact absurd rfl hregion
    have hnot : ¬region.base + start < 0x4000 := by omega
    rw [regByte_store hregion buffer hi, kept_of_le (hbase.trans (Nat.le_add_right _ _)),
      if_neg hnot]

/-- A write leaves the other blocks alone. -/
theorem regByte_other {region region' : Region} (hne : region' ≠ region) (start size i : Nat)
    (buffer : List Byte) :
    (c.store region start size buffer).regByte region' i = c.regByte region' i := by
  cases region <;> cases region' <;> first | rfl | exact absurd rfl hne

/-! ## Accesses -/

section Access

variable {start_addr size : Word}

/-- What the registers hold in a range. -/
def bytesOf (c : RVCoreLocalInt nr_hart) (region : Region) (start size : Nat) : List Byte :=
  (List.range size).map fun i => c.regByte region (start - region.base + i)

theorem run_doRead_of_holds (hn : nr_hart ≤ 4095) (hsize : 1 ≤ size.toNat)
    (hwrap : start_addr.toNat + size.toNat < 2 ^ 64) {region : Region}
    (hin : region.Holds nr_hart start_addr.toNat size.toNat) (buffer : List Byte)
    (c : RVCoreLocalInt nr_hart) :
    (doRead start_addr size buffer).run c
      = .ok (true, c.bytesOf region start_addr.toNat size.toNat ++ buffer.drop size.toNat) c := by
  have hdec := (decode_eq_some hn hsize hwrap region _).mpr ⟨hin, rfl⟩
  have hfits : start_addr.toNat - region.base + size.toNat ≤ region.bytes nr_hart := by
    have := hin.1
    have := hin.2
    omega
  simp only [doRead, hdec, if_pos hfits]
  rfl

theorem run_doWrite_of_holds (hn : nr_hart ≤ 4095) (hsize : 1 ≤ size.toNat)
    (hwrap : start_addr.toNat + size.toNat < 2 ^ 64) {region : Region}
    (hin : region.Holds nr_hart start_addr.toNat size.toNat) (buffer : List Byte)
    (c : RVCoreLocalInt nr_hart) :
    (doWrite start_addr size buffer).run c
      = .ok true (c.store region (start_addr.toNat - region.base) size.toNat buffer) := by
  have hdec := (decode_eq_some hn hsize hwrap region _).mpr ⟨hin, rfl⟩
  have hfits : start_addr.toNat - region.base + size.toNat ≤ region.bytes nr_hart := by
    have := hin.1
    have := hin.2
    omega
  simp only [doWrite, hdec, if_pos hfits]
  rfl

/-- A byte that a read of any block sees after a write to a block: the blocks do not meet, and
the mask is on the block of the write. -/
theorem regByte_store_rewritten (hn : nr_hart ≤ 4095) {region region' : Region} {start n off : Nat}
    (hin : region.Holds nr_hart start n) (hpos : 1 ≤ n) (hbase : region'.base ≤ off)
    (hoff : off < region'.base + region'.bytes nr_hart) (buffer : List Byte) :
    (c.store region (start - region.base) n buffer).regByte region' (off - region'.base)
      = rewritten start n buffer off (c.regByte region' (off - region'.base)) := by
  obtain ⟨hlo, hhi⟩ := hin
  by_cases hsame : region' = region
  · subst hsame
    rw [regByte_written region' buffer hn (by omega) (by omega), Nat.add_sub_cancel' hlo,
      Nat.add_sub_cancel' hbase]
  · have hdisjoint : ¬(start ≤ off ∧ off < start + n) ∧ (start < 0x4000 → 0x4000 ≤ off) := by
      cases region <;> cases region' <;>
        simp only [Region.base, Region.bytes, not_true_eq_false] at * <;> omega
    rw [regByte_other hsame, rewritten, if_neg hdisjoint.1]
    split
    · next hlt => rw [kept_of_le (hdisjoint.2 hlt)]
    · rfl

theorem kept_regByte (hbits : c.Bits) {region : Region} {off : Nat} (hbase : region.base ≤ off) :
    kept off (c.regByte region (off - region.base)) = c.regByte region (off - region.base) := by
  cases region with
  | mtime | mtimecmp => exact kept_of_le (le_trans (by decide) hbase) _
  | msip =>
      have hmask : (fun k => c.msip k &&& 1) = c.msip := funext hbits
      have hbyte := arrayByte_and_one (i := off) c.msip
      rw [hmask] at hbyte
      show kept off (arrayByte (n := 4) c.msip off) = arrayByte (n := 4) c.msip off
      unfold kept
      split
      · exact hbyte.symm
      · rfl

/-- An access is refused both ways without an effect. -/
def Refuses (c : RVCoreLocalInt nr_hart) (start_addr size : Word) (buffer : List Byte) : Prop :=
  (doRead start_addr size buffer).run c = .ok (false, buffer) c ∧
    (doWrite start_addr size buffer).run c = .ok false c

/-- An access is accepted both ways.  After the write any accepted read returns the bytes written
where the two meet, masked in the software interrupts, and the old ones elsewhere.  The mask
changes none of the old ones where the software interrupts are single bits. -/
def Accepts (c : RVCoreLocalInt nr_hart) (start_addr size : Word) (buffer : List Byte) : Prop :=
  (∃ read, (doRead start_addr size buffer).run c = .ok (true, read) c) ∧
  ∃ c', (doWrite start_addr size buffer).run c = .ok true c' ∧
    ∀ (start_addr' size' : Word) (buffer' : List Byte), 1 ≤ size'.toNat →
      start_addr'.toNat + size'.toNat < 2 ^ 64 →
      InRegs nr_hart start_addr'.toNat size'.toNat →
      ∃ old new, (doRead start_addr' size' buffer').run c = .ok (true, old) c ∧
        (doRead start_addr' size' buffer').run c' = .ok (true, new) c' ∧
        ∀ i < size'.toNat,
          new.getD i 0 = rewritten start_addr.toNat size.toNat buffer (start_addr'.toNat + i)
            (old.getD i 0) ∧
          (c.Bits → ¬(start_addr.toNat ≤ start_addr'.toNat + i ∧
            start_addr'.toNat + i < start_addr.toNat + size.toNat) → new.getD i 0 = old.getD i 0)

/-- The device is a byte-addressable register file: it accepts exactly the accesses that lie in a
block. -/
theorem register_file (hn : nr_hart ≤ 4095) (c : RVCoreLocalInt nr_hart)
    (hsize : 1 ≤ size.toNat) (hwrap : start_addr.toNat + size.toNat < 2 ^ 64)
    (buffer : List Byte) :
    (¬InRegs nr_hart start_addr.toNat size.toNat → c.Refuses start_addr size buffer) ∧
      (InRegs nr_hart start_addr.toNat size.toNat → c.Accepts start_addr size buffer) := by
  constructor
  · intro hout
    have hdec := (decode_eq_none hn hsize hwrap).mpr hout
    simp only [Refuses, doRead, doWrite, hdec]
    exact ⟨rfl, rfl⟩
  · rintro ⟨region, hin⟩
    refine ⟨⟨_, run_doRead_of_holds hn hsize hwrap hin buffer c⟩, _,
      run_doWrite_of_holds hn hsize hwrap hin buffer c, ?_⟩
    rintro start_addr' size' buffer' hsize' hwrap' ⟨region', hin'⟩
    refine ⟨_, _, run_doRead_of_holds hn hsize' hwrap' hin' buffer' c,
      run_doRead_of_holds hn hsize' hwrap' hin' buffer' _, fun i hi => ?_⟩
    have hget (c : RVCoreLocalInt nr_hart) :
        (c.bytesOf region' start_addr'.toNat size'.toNat ++ buffer'.drop size'.toNat).getD i 0
          = c.regByte region' (start_addr'.toNat + i - region'.base) := by
      have hsub : start_addr'.toNat + i - region'.base = start_addr'.toNat - region'.base + i :=
        Nat.sub_add_comm hin'.1
      simp [bytesOf, List.getD, List.getElem?_append, hi, hsub]
    have hbase : region'.base ≤ start_addr'.toNat + i := hin'.1.trans (Nat.le_add_right _ _)
    have hread := regByte_store_rewritten (c := c) hn hin hsize hbase
      (Nat.lt_of_lt_of_le (Nat.add_lt_add_left hi _) hin'.2) buffer
    rw [hget, hget, hread]
    refine ⟨rfl, fun hbits hout => ?_⟩
    rw [rewritten, if_neg hout, kept_regByte hbits hbase]
    split <;> rfl

/-- An access over the halves of two compare values. -/
theorem register_file_straddling :
    (new : RVCoreLocalInt 2).Accepts 0x4004 8 [1, 2, 3, 4, 5, 6, 7, 8] :=
  (register_file (by decide) new (by decide) (by decide) _).2 ⟨.mtimecmp, by decide, by decide⟩

end Access

end RVCoreLocalInt

end MEmu
