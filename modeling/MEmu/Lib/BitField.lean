import Mathlib.Data.BitVec

/-!
# Bit fields of a word

A C bit field of a union over a word is a range of bits of it.  `get lo w x` reads
the `w` bits of `x` from bit `lo` up, `set lo v x` replaces them by `v`, and
`setBit` is the one-bit case at a `Bool`.  `getLsbD_set` says what every bit of
the result is, and the laws of reading after writing follow from it: the field
itself (`get_set_same`), a field beside it (`get_set_of_disjoint`).
-/

namespace BitField

/-! ## Reading and writing a field -/

/-- The `w` bits of `x` from bit `lo` up. -/
def get {n : Nat} (lo w : Nat) (x : BitVec n) : BitVec w := x.extractLsb' lo w

/-- The bits of `x` from bit `lo` up, as many as `v` has, replaced by `v`. -/
def set {n w : Nat} (lo : Nat) (v : BitVec w) (x : BitVec n) : BitVec n :=
  (x &&& ~~~((BitVec.allOnes w).setWidth n <<< lo)) ||| (v.setWidth n <<< lo)

/-- Bit `i` of `x` replaced by `b`. -/
def setBit {n : Nat} (i : Nat) (b : Bool) (x : BitVec n) : BitVec n :=
  set i (BitVec.ofBool b) x

theorem getLsbD_get {n : Nat} (lo w : Nat) (x : BitVec n) (i : Nat) :
    (get lo w x).getLsbD i = (decide (i < w) && x.getLsbD (lo + i)) := by
  simp [get]

/-- Bit `i` after a write: a bit of `v` inside the field, the old bit outside. -/
theorem getLsbD_set {n w : Nat} (lo : Nat) (v : BitVec w) (x : BitVec n) (i : Nat) :
    (set lo v x).getLsbD i
      = if lo ≤ i ∧ i < lo + w then decide (i < n) && v.getLsbD (i - lo) else x.getLsbD i := by
  by_cases hn : i < n
  · by_cases hlo : lo ≤ i
    · by_cases hw : i < lo + w
      · have hw' : i - lo < w := by omega
        have hge : ¬ i < lo := by omega
        simp [set, hn, hlo, hw, hw', hge]
      · have hw' : w ≤ i - lo := by omega
        have hge : ¬ i < lo := by omega
        have hge' : ¬ i - lo < w := by omega
        simp [set, hn, hlo, hw, hge, hge', BitVec.getLsbD_of_ge v (i - lo) hw']
    · have hlt : i < lo := by omega
      simp [set, hn, hlo, hlt]
  · have hx : n ≤ i := by omega
    simp [BitVec.getLsbD_of_ge _ _ hx, hn]

theorem getLsbD_setBit {n : Nat} (i : Nat) (b : Bool) (x : BitVec n) (j : Nat) :
    (setBit i b x).getLsbD j = if j = i then decide (j < n) && b else x.getLsbD j := by
  rw [setBit, getLsbD_set]
  by_cases h : j = i
  · subst h
    simp
  · have hn : ¬ (i ≤ j ∧ j < i + 1) := by omega
    rw [if_neg h, if_neg hn]

theorem get_eq_zero_iff {n : Nat} (lo w : Nat) (x : BitVec n) :
    get lo w x = 0 ↔ ∀ i < w, x.getLsbD (lo + i) = false := by
  constructor
  · intro h i hi
    have hbit := getLsbD_get lo w x i
    rw [h, decide_eq_true hi, Bool.true_and] at hbit
    simpa using hbit.symm
  · intro h
    refine BitVec.eq_of_getLsbD_eq fun i hi => ?_
    rw [getLsbD_get, h i hi]
    simp

/-- A field is zero where its two parts are. -/
theorem get_add_eq_zero {n : Nat} (lo w w' : Nat) (x : BitVec n) :
    get lo (w + w') x = 0 ↔ get lo w x = 0 ∧ get (lo + w) w' x = 0 := by
  rw [get_eq_zero_iff, get_eq_zero_iff, get_eq_zero_iff]
  constructor
  · intro h
    refine ⟨fun i hi => h i (by omega), fun i hi => ?_⟩
    rw [Nat.add_assoc]
    exact h (w + i) (by omega)
  · rintro ⟨hlow, hhigh⟩ i hi
    by_cases hw : i < w
    · exact hlow i hw
    · have hi' := hhigh (i - w) (by omega)
      rwa [show lo + w + (i - w) = lo + i by omega] at hi'

/-! ## Reading after writing -/

@[simp] theorem get_set_same {n w : Nat} {lo : Nat} (v : BitVec w) (x : BitVec n)
    (h : lo + w ≤ n) : get lo w (set lo v x) = v := by
  apply BitVec.eq_of_getLsbD_eq
  intro i hi
  have hin : lo + i < n := by omega
  rw [getLsbD_get, getLsbD_set]
  simp [hi, hin]

/-- Writing one field leaves a disjoint field as it was. -/
theorem get_set_of_disjoint {n w lo : Nat} (lo' w' : Nat) (v : BitVec w) (x : BitVec n)
    (h : lo' + w' ≤ lo ∨ lo + w ≤ lo') : get lo' w' (set lo v x) = get lo' w' x := by
  apply BitVec.eq_of_getLsbD_eq
  intro i hi
  have hout : ¬ (lo ≤ lo' + i ∧ lo' + i < lo + w) := by omega
  rw [getLsbD_get, getLsbD_get, getLsbD_set, if_neg hout]

/-- Writing one bit leaves a field without that bit as it was. -/
theorem get_setBit_of_disjoint {n i : Nat} (lo w : Nat) (b : Bool) (x : BitVec n)
    (h : lo + w ≤ i ∨ i + 1 ≤ lo) : get lo w (setBit i b x) = get lo w x :=
  get_set_of_disjoint lo w _ x h

/-- Reading inside the field just written reads the value written. -/
theorem get_set_inside {n w : Nat} (lo k w' : Nat) (v : BitVec w) (x : BitVec n)
    (h : k + w' ≤ w) (hn : lo + w ≤ n) : get (lo + k) w' (set lo v x) = get k w' v := by
  apply BitVec.eq_of_getLsbD_eq
  intro i hi
  have hin : lo ≤ lo + k + i ∧ lo + k + i < lo + w := by omega
  have hlt : lo + k + i < n := by omega
  have hk : lo + k + i - lo = k + i := by omega
  rw [getLsbD_get, getLsbD_get, getLsbD_set, if_pos hin, hk]
  simp [hlt]

/-- A field of a field. -/
theorem get_get {n : Nat} (lo w lo' w' : Nat) (x : BitVec n) (h : lo' + w' ≤ w) :
    get lo' w' (get lo w x) = get (lo + lo') w' x := by
  apply BitVec.eq_of_getLsbD_eq
  intro i hi
  have hin : lo' + i < w := by omega
  rw [getLsbD_get, getLsbD_get, getLsbD_get, Nat.add_assoc]
  simp [hin]

/-! ## Copying fields -/

/-- A field copied into a view of the word it comes from widens the mask of the view. -/
theorem set_get_and {n : Nat} (lo w : Nat) (x mask : BitVec n) :
    set lo (get lo w x) (x &&& mask) = x &&& set lo (BitVec.allOnes w) mask := by
  apply BitVec.eq_of_getLsbD_eq
  intro i hi
  simp only [BitVec.getLsbD_and, getLsbD_set, getLsbD_get]
  split
  · next hin =>
      have hw : i - lo < w := by omega
      rw [Nat.add_sub_cancel' hin.1]
      simp [hi, hw]
  · rfl

theorem setBit_getLsbD_and {n : Nat} (i : Nat) (x mask : BitVec n) :
    setBit i (x.getLsbD i) (x &&& mask) = x &&& setBit i true mask := by
  apply BitVec.eq_of_getLsbD_eq
  intro j hj
  simp only [BitVec.getLsbD_and, getLsbD_setBit]
  split
  · next hji => simp [hji, hji ▸ hj]
  · rfl

/-- A word whose bits in `mask` are replaced by those of `v`. -/
def merge {n : Nat} (mask v x : BitVec n) : BitVec n := (x &&& ~~~mask) ||| (v &&& mask)

theorem getLsbD_merge {n : Nat} (mask v x : BitVec n) (i : Nat) :
    (merge mask v x).getLsbD i = if mask.getLsbD i then v.getLsbD i else x.getLsbD i := by
  by_cases hi : i < n
  · rw [merge, BitVec.getLsbD_or, BitVec.getLsbD_and, BitVec.getLsbD_and, BitVec.getLsbD_not]
    cases mask.getLsbD i <;> simp [hi]
  · have hge : n ≤ i := Nat.le_of_not_lt hi
    simp [BitVec.getLsbD_of_ge _ _ hge]

/-- A merge under one mask is done once. -/
theorem merge_merge {n : Nat} (mask v x : BitVec n) :
    merge mask v (merge mask v x) = merge mask v x := by
  apply BitVec.eq_of_getLsbD_eq
  intro i _
  rw [getLsbD_merge, getLsbD_merge]
  split <;> rfl

/-- Merging what is there changes nothing. -/
theorem merge_eq_self {n : Nat} {mask v x : BitVec n}
    (h : ∀ i, mask.getLsbD i = true → v.getLsbD i = x.getLsbD i) : merge mask v x = x := by
  apply BitVec.eq_of_getLsbD_eq
  intro i _
  rw [getLsbD_merge]
  split
  · exact h i ‹_›
  · rfl

theorem merge_zero {n : Nat} (v x : BitVec n) : merge 0 v x = x :=
  merge_eq_self fun i hi => by simp at hi

/-- Copying one more field of `v` adds the field to the mask. -/
theorem set_get_merge {n : Nat} (lo w : Nat) (mask v x : BitVec n) :
    set lo (get lo w v) (merge mask v x) = merge (set lo (BitVec.allOnes w) mask) v x := by
  apply BitVec.eq_of_getLsbD_eq
  intro j hj
  simp only [getLsbD_merge, getLsbD_set]
  split
  · next hin =>
      have hlt : j - lo < w := by omega
      rw [getLsbD_get, Nat.add_sub_cancel' hin.1]
      simp [hlt, hj]
  · rfl

/-- Copying one more bit of `v` adds it to the mask. -/
theorem setBit_getLsbD_merge {n : Nat} (i : Nat) (mask v x : BitVec n) :
    setBit i (v.getLsbD i) (merge mask v x) = merge (setBit i true mask) v x := by
  apply BitVec.eq_of_getLsbD_eq
  intro j hj
  simp only [getLsbD_merge, getLsbD_setBit]
  split
  · next hji => simp [hji, hji ▸ hj]
  · rfl

/-- A merge under a mask within another, merged under the other. -/
theorem merge_of_merge {n : Nat} {mask mask' : BitVec n} (v x : BitVec n)
    (h : mask &&& mask' = mask) : merge mask' (merge mask v x) x = merge mask v x := by
  apply BitVec.eq_of_getLsbD_eq
  intro i _
  rw [getLsbD_merge]
  split
  · rfl
  · next hout =>
      have hin : mask.getLsbD i = false := by
        rw [← h, BitVec.getLsbD_and, Bool.eq_false_iff.mpr hout, Bool.and_false]
      rw [getLsbD_merge, hin, if_neg Bool.false_ne_true]

/-! ## Words that agree outside a set of bits -/

/-- `y` has the bits of `x`, but for those in `bits`. -/
def EqOutside {n : Nat} (bits : List Nat) (x y : BitVec n) : Prop :=
  ∀ i, i ∉ bits → y.getLsbD i = x.getLsbD i

namespace EqOutside

variable {n : Nat} {bits : List Nat} {x y z : BitVec n}

theorem of_lt (h : ∀ i < n, i ∉ bits → y.getLsbD i = x.getLsbD i) : EqOutside bits x y := by
  intro i hi
  by_cases hn : i < n
  · exact h i hn hi
  · rw [BitVec.getLsbD_of_ge y i (by omega), BitVec.getLsbD_of_ge x i (by omega)]

instance : Decidable (EqOutside bits x y) :=
  decidable_of_iff (∀ i < n, i ∉ bits → y.getLsbD i = x.getLsbD i) ⟨of_lt, fun h i _ => h i⟩

theorem refl (x : BitVec n) : EqOutside bits x x := fun _ _ => rfl

theorem trans (h : EqOutside bits x y) (h' : EqOutside bits y z) : EqOutside bits x z :=
  fun i hi => (h' i hi).trans (h i hi)

theorem set {w lo : Nat} (hin : ∀ k < w, lo + k ∈ bits) (v : BitVec w) (x : BitVec n) :
    EqOutside bits x (set lo v x) := by
  intro i hi
  rw [getLsbD_set, if_neg]
  rintro ⟨hlo, hw⟩
  have hmem := hin (i - lo) (by omega)
  rw [Nat.add_sub_cancel' hlo] at hmem
  exact hi hmem

theorem setBit {i : Nat} (hin : i ∈ bits) (b : Bool) (x : BitVec n) :
    EqOutside bits x (setBit i b x) := by
  refine EqOutside.set (fun k hk => ?_) _ x
  have hk : k = 0 := by omega
  rw [hk]
  exact hin

/-- A field with no bit in the set. -/
theorem get {lo w : Nat} (h : EqOutside bits x y) (hout : ∀ k < w, lo + k ∉ bits) :
    get lo w y = get lo w x := by
  apply BitVec.eq_of_getLsbD_eq
  intro i hi
  rw [getLsbD_get, getLsbD_get, h _ (hout i hi)]

/-- A word under a mask has bits of the mask only. -/
theorem and {mask : BitVec n} (h : EqOutside bits 0 mask) (v : BitVec n) :
    EqOutside bits 0 (v &&& mask) := by
  intro i hi
  rw [BitVec.getLsbD_and, h i hi]
  simp

theorem or (h : EqOutside bits 0 x) (h' : EqOutside bits 0 y) : EqOutside bits 0 (x ||| y) := by
  intro i hi
  rw [BitVec.getLsbD_or, h i hi, h' i hi, Bool.or_self]

/-- Clearing bits adds none. -/
theorem and_left (h : EqOutside bits 0 x) (v : BitVec n) : EqOutside bits 0 (x &&& v) := by
  rw [BitVec.and_comm]
  exact h.and v

end EqOutside

/-! ## Joining fields -/

/-- The sign of a joined word is the sign of its upper part. -/
theorem signExtend_append {n k : Nat} (m : Nat) (x : BitVec n) (y : BitVec k) (h : 0 < n) :
    (x ++ y).signExtend m = (x.signExtend m <<< k) ||| y.setWidth m := by
  apply BitVec.eq_of_getLsbD_eq
  intro i hi
  have hmsb : (x ++ y).msb = x.msb := by
    rw [BitVec.msb_append]
    simp
    omega
  simp only [BitVec.getLsbD_signExtend, BitVec.getLsbD_append, BitVec.getLsbD_or,
    BitVec.getLsbD_shiftLeft, BitVec.getLsbD_setWidth, hmsb, hi, decide_true, Bool.true_and]
  by_cases hk : i < k
  · have hn : i < n + k := by omega
    simp [hk, hn]
  · have hy : y.getLsbD i = false := BitVec.getLsbD_of_ge y i (by omega)
    have hlt : i < n + k ↔ i - k < n := by omega
    have hm : i - k < m := by omega
    simp [hk, hy, hlt, hm]

/-- Extending twice extends once. -/
theorem signExtend_signExtend {n m : Nat} (k : Nat) (x : BitVec n) (h : n ≤ m) :
    (x.signExtend m).signExtend k = x.signExtend k := by
  obtain rfl | hlt := Nat.eq_or_lt_of_le h
  · rw [BitVec.signExtend_eq]
  apply BitVec.eq_of_getLsbD_eq
  intro i hi
  have hpos : 0 < m := by omega
  have hmsb : (x.signExtend m).msb = x.msb := by
    rw [BitVec.msb_signExtend, if_neg (by omega)]
    simp [hpos]
  simp only [BitVec.getLsbD_signExtend, hmsb, hi, decide_true, Bool.true_and]
  by_cases hm : i < m
  · simp [hm]
  · have hn : ¬ i < n := by omega
    simp [hm, hn]

/-- A word that was widened with zeros has no sign. -/
theorem signExtend_setWidth {n m : Nat} (k : Nat) (x : BitVec n) (h : n < m) :
    (x.setWidth m).signExtend k = x.setWidth k := by
  have hmsb : (x.setWidth m).msb = false := by
    rw [BitVec.msb_setWidth, BitVec.getLsbD_of_ge x (m - 1) (by omega), Bool.and_false]
  rw [BitVec.signExtend_eq_setWidth_of_msb_false hmsb]
  exact BitVec.setWidth_setWidth (by omega)

theorem setWidth_eq_zero {n m : Nat} {x : BitVec n} (h : n ≤ m) (hz : x.setWidth m = 0) :
    x = 0 := by
  have hback : (x.setWidth m).setWidth n = x := BitVec.setWidth_setWidth (by omega) |>.trans
    (BitVec.setWidth_eq x)
  rw [← hback, hz]
  simp

theorem signExtend_eq_zero {n m : Nat} {x : BitVec n} (h : n ≤ m) (hz : x.signExtend m = 0) :
    x = 0 := by
  have hback : (x.signExtend m).signExtend n = x := by
    rw [signExtend_signExtend n x h, BitVec.signExtend_eq]
  rw [← hback, hz, BitVec.signExtend_eq_setWidth_of_le _ h]
  simp

end BitField
