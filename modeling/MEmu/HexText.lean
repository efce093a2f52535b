import MEmu.GdbRsp

/-!
# Bytes in hexadecimal

What `%02x` writes and what `ParseByteStreamStr` reads.  A byte is two digits, in either case, and
the two functions are inverse.
-/

namespace MEmu

variable {b : Byte} {data digits : List Byte}

/-- The digits stand for the bytes, two for each, in either case. -/
inductive Spells : List Byte → List Byte → Prop where
  | nil : Spells [] []
  | cons {hi lo b : Byte} {digits data : List Byte} (hhi : isHexDigit hi = true)
      (hlo : isHexDigit lo = true) (hval : 16 * hexDigit hi + hexDigit lo = b.toNat)
      (h : Spells digits data) : Spells (hi :: lo :: digits) (b :: data)

/-! ## A byte -/

theorem hexChar_spec : ∀ n < 16, isHexDigit (hexChar n) = true ∧ hexDigit (hexChar n) = n := by
  decide

theorem hexValue_pair (hi lo : Byte) : hexValue [hi, lo] = 16 * hexDigit hi + hexDigit lo := by
  simp [hexValue]

theorem hexDigit_lt (h : isHexDigit b = true) : hexDigit b < 16 := by
  have hchars : '0'.toNat = 48 ∧ '9'.toNat = 57 ∧ 'A'.toNat = 65 ∧ 'F'.toNat = 70 ∧
      'a'.toNat = 97 ∧ 'f'.toNat = 102 := by decide
  simp only [isHexDigit, inChars, Bool.or_eq_true, Bool.and_eq_true, decide_eq_true_eq] at h
  simp only [hexDigit, inChars, Bool.and_eq_true, decide_eq_true_eq]
  split
  · omega
  · split <;> omega

theorem hexByte_spells (b : Byte) (h : Spells digits data) :
    Spells (hexByte b ++ digits) (b :: data) := by
  have hlt := b.isLt
  obtain ⟨hhi, hvhi⟩ := hexChar_spec (b.toNat / 16) (by omega)
  obtain ⟨hlo, hvlo⟩ := hexChar_spec (b.toNat % 16) (by omega)
  refine .cons hhi hlo ?_ h
  rw [hvhi, hvlo]
  omega

/-! ## Streams of bytes -/

/-- What is written stands for the bytes. -/
theorem hexBytes_spells (data : List Byte) : Spells (data.flatMap hexByte) data := by
  induction data with
  | nil => exact .nil
  | cons b data ih =>
      rw [List.flatMap_cons]
      exact hexByte_spells b ih

/-- What stands for the bytes is read as them. -/
theorem Spells.parse (h : Spells digits data) : parseByteStreamStr digits = data := by
  induction h with
  | nil => rfl
  | cons hhi hlo hval h ih =>
      rw [parseByteStreamStr, hexValue_pair, hval, ih, BitVec.ofNat_toNat, BitVec.setWidth_eq]

theorem Spells.length_eq (h : Spells digits data) : digits.length = 2 * data.length := by
  induction h with
  | nil => rfl
  | cons hhi hlo hval h ih =>
      simp only [List.length_cons, ih]
      omega

theorem Spells.allDigits (h : Spells digits data) : ∀ c ∈ digits, isHexDigit c = true := by
  induction h with
  | nil => exact nofun
  | cons hhi hlo hval h ih =>
      exact List.forall_mem_cons.mpr ⟨hhi, List.forall_mem_cons.mpr ⟨hlo, ih⟩⟩

/-- Digits of even number stand for what is read from them. -/
theorem spells_parse (hdigits : ∀ c ∈ digits, isHexDigit c = true) {n : Nat}
    (hlen : digits.length = 2 * n) : Spells digits (parseByteStreamStr digits) := by
  induction n generalizing digits with
  | zero =>
      obtain rfl := List.eq_nil_of_length_eq_zero hlen
      exact .nil
  | succ n ih =>
      obtain ⟨hi, digits, rfl⟩ := List.exists_cons_of_length_eq_add_one hlen
      rw [List.length_cons] at hlen
      obtain ⟨lo, digits, rfl⟩ := List.exists_cons_of_length_eq_add_one
        (show digits.length = 2 * n + 1 by omega)
      rw [List.length_cons] at hlen
      obtain ⟨hhi, hdigits⟩ := List.forall_mem_cons.mp hdigits
      obtain ⟨hlo, hdigits⟩ := List.forall_mem_cons.mp hdigits
      have hhi' := hexDigit_lt hhi
      have hlo' := hexDigit_lt hlo
      refine .cons hhi hlo ?_ (ih hdigits (by omega))
      rw [hexValue_pair, BitVec.toNat_ofNat]
      exact (Nat.mod_eq_of_lt (by omega)).symm

end MEmu
