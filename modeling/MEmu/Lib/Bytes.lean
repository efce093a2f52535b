import Mathlib.Data.BitVec

/-!
# Words as little-endian bytes

A buffer is a list of bytes.  `ofWord n v` is the `n` low bytes of `v`, least
significant first, which is what a copy of `n` bytes from a host integer reads.
`toWord` joins the bytes of a buffer of at most eight bytes into a word.
-/

namespace Bytes

/-- The `n` low bytes of `v`, least significant first. -/
def ofWord (n : Nat) (v : BitVec 64) : List (BitVec 8) :=
  (List.range n).map fun i => v.extractLsb' (8 * i) 8

/-- The word whose low bytes are the buffer, least significant first. -/
def toWord : List (BitVec 8) → BitVec 64
  | [] => 0
  | b :: bs => (toWord bs <<< 8) ||| b.setWidth 64

/-- The value of an `n`-byte C integer read from a buffer, as a 64-bit integer. -/
def extend (signed : Bool) (n : Nat) (buf : List (BitVec 8)) : BitVec 64 :=
  let v := (toWord buf).setWidth (8 * n)
  if signed then v.signExtend 64 else v.setWidth 64

/-- Byte `j` of a word. -/
def byte {w : Nat} (j : Nat) (v : BitVec w) : BitVec 8 := v.extractLsb' (8 * j) 8

/-- A bit of a joined word is a bit of the byte that it lies in. -/
theorem getLsbD_toWord (buf : List (BitVec 8)) (i : Nat) :
    (toWord buf).getLsbD i = (decide (i < 64) && (buf.getD (i / 8) 0).getLsbD (i % 8)) := by
  induction buf generalizing i with
  | nil => simp [toWord]
  | cons b bs ih =>
      rw [toWord, BitVec.getLsbD_or, BitVec.getLsbD_shiftLeft, BitVec.getLsbD_setWidth, ih]
      by_cases hi : i < 8
      · have hdiv : i / 8 = 0 := Nat.div_eq_of_lt hi
        have hmod : i % 8 = i := Nat.mod_eq_of_lt hi
        have h64 : i < 64 := by omega
        simp [hi, h64, hdiv, hmod]
      · have hdiv : i / 8 = (i - 8) / 8 + 1 := by omega
        have hmod : i % 8 = (i - 8) % 8 := by omega
        have hb : b.getLsbD i = false := BitVec.getLsbD_of_ge b i (by omega)
        by_cases h64 : i < 64
        · have h64' : i - 8 < 64 := by omega
          simp [hi, h64, h64', hdiv, hmod, hb]
        · simp [h64]

theorem byte_ext {n : Nat} {v v' : BitVec (8 * n)} (h : ∀ j < n, byte j v = byte j v') :
    v = v' := by
  apply BitVec.eq_of_getLsbD_eq
  intro i hi
  have hbit := congrArg (fun b => b.getLsbD (i % 8)) (h (i / 8) (by omega))
  have hadd : 8 * (i / 8) + i % 8 = i := by omega
  have hmod : i % 8 < 8 := Nat.mod_lt _ (by decide)
  simpa [byte, hadd, hmod] using hbit

/-- The bytes of a joined word. -/
theorem byte_toWord (buf : List (BitVec 8)) {n j : Nat} (hn : n ≤ 8) (hj : j < n) :
    byte j ((toWord buf).setWidth (8 * n)) = buf.getD j 0 := by
  apply BitVec.eq_of_getLsbD_eq
  intro i hi
  have hdiv : (8 * j + i) / 8 = j := by omega
  have hmod : (8 * j + i) % 8 = i := by omega
  have hlt : 8 * j + i < 8 * n := by omega
  have h64 : 8 * j + i < 64 := by omega
  rw [byte, BitVec.getLsbD_extractLsb', BitVec.getLsbD_setWidth, getLsbD_toWord, hdiv, hmod]
  simp [hi, hlt, h64]

/-- The bytes of a word cut to the length of the buffer. -/
theorem ofWord_eq (n : Nat) (v : BitVec 64) :
    ofWord n v = (List.range n).map fun j => byte j (v.setWidth (8 * n)) := by
  refine List.map_congr_left fun j hj => ?_
  have hj := List.mem_range.mp hj
  apply BitVec.eq_of_getLsbD_eq
  intro i hi
  have hlt : 8 * j + i < 8 * n := by omega
  simp [byte, hi, hlt]

theorem getD_ofWord {n j : Nat} (hj : j < n) (v : BitVec 64) :
    (ofWord n v).getD j 0 = byte j (v.setWidth (8 * n)) := by
  rw [ofWord_eq]
  simp [List.getD, hj]

end Bytes
