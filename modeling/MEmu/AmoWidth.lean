import MEmu.Alu
import MEmu.Translation

/-!
# The width of an atomic operation

`pa_amo_op` has one datapath of 64 bits for both widths.  Its switch is the
operation of `RiscV.AmoOp` at 64 bits, the value of four bytes is sign-extended
into it, and the register operand goes in whole.  An operation that orders nothing
does not notice.  A comparison at 64 bits sees the upper half of the register, and
`SameSide` says when it comes out as the comparison of the words.
-/

namespace MEmu

open Run (Sat)
open RiscV (AmoOp)

/-- The case of the switch for an operation. -/
def AMOFunct.ofAmo : AmoOp → AMOFunct
  | .swap => swap
  | .add => add
  | .and => and
  | .or => or
  | .xor => xor
  | .min => min
  | .max => max
  | .minu => minu
  | .maxu => maxu

/-- The switch is the operation at 64 bits. -/
theorem AMOFunct.apply_ofAmo (op : AmoOp) (src res : Word) :
    (AMOFunct.ofAmo op).apply src res = some (op.eval src res) := by
  cases op with
  | swap => rfl
  | add =>
      show some (src + res) = some (BitVec.ofInt 64 (res.toInt + src.toInt))
      rw [BitVec.ofInt_add, BitVec.ofInt_toInt, BitVec.ofInt_toInt, BitVec.add_comm]
  | and => exact congrArg some (BitVec.and_comm src res)
  | or => exact congrArg some (BitVec.or_comm src res)
  | xor => exact congrArg some (BitVec.xor_comm src res)
  | min | max =>
      simp only [ofAmo, apply, AmoOp.eval, BitVec.slt, decide_eq_true_eq]
  | minu | maxu => rfl

/-! ## The comparison of the words -/

/-- The register is on the same side of the memory value as its low half: it is
that half sign-extended, or it lies beyond all the words, which are extended to the
middle of the signed order and to both ends of the unsigned one, where the half
lies beyond the memory value. -/
def SameSide (op : AmoOp) (src : Word) (mem : BitVec 32) : Prop :=
  let lo := src.setWidth 32
  match op with
  | .min | .max =>
      src = lo.signExtend 64 ∨ (src.toInt < 0 ∧ lo.toInt ≤ mem.toInt) ∨
        (0 ≤ src.toInt ∧ mem.toInt ≤ lo.toInt)
  | .minu | .maxu =>
      src = lo.signExtend 64 ∨ (mem.toInt < 0 ∧ lo.toNat ≤ mem.toNat) ∨
        (0 ≤ mem.toInt ∧ mem.toNat ≤ lo.toNat)
  | _ => True

instance (op : AmoOp) (src : Word) (mem : BitVec 32) : Decidable (SameSide op src mem) :=
  match op with
  | .min | .max | .minu | .maxu => inferInstanceAs (Decidable (_ ∨ _ ∧ _ ∨ _ ∧ _))
  | .swap | .add | .and | .or | .xor => inferInstanceAs (Decidable True)

theorem sameSide_of_not_comparison {op : AmoOp} (h : op.isComparison = false) (src : Word)
    (mem : BitVec 32) : SameSide op src mem := by
  cases op with
  | swap | add | and | or | xor => trivial
  | min | max | minu | maxu => cases h

theorem ite_eq_ite_iff {c c' : Prop} [Decidable c] [Decidable c'] (x y : BitVec 32) :
    (if c then x else y) = (if c' then x else y) ↔ ((c ↔ c') ∨ x = y) := by
  by_cases hc : c <;> by_cases hc' : c' <;> simp [hc, hc', eq_comm]

/-- The operation at 64 bits, cut to a word, is the operation on the words exactly
when the register is on the side of its low half. -/
theorem eval_word_iff (op : AmoOp) (src : Word) (mem : BitVec 32) :
    (op.eval src (mem.signExtend 64)).setWidth 32 = op.eval (src.setWidth 32) mem ↔
      SameSide op src mem := by
  have hmem : (mem.signExtend 64).setWidth 32 = mem := setWidth_signExtend mem
  by_cases hop : op.isComparison = false
  · rw [AmoOp.eval_setWidth (by decide) hop, hmem]
    exact iff_of_true rfl (sameSide_of_not_comparison hop src mem)
  have hext : (mem.signExtend 64).toInt = mem.toInt := signExtend_toInt mem
  have hlo : (src.setWidth 32).toNat = src.toNat % 2 ^ 32 := BitVec.toNat_setWidth ..
  have hnarrow : src = (src.setWidth 32).signExtend 64 ↔ src.toInt = (src.setWidth 32).toInt := by
    rw [← BitVec.toInt_inj, signExtend_toInt]
  have heq : mem = src.setWidth 32 ↔ mem.toNat = (src.setWidth 32).toNat := BitVec.toNat_inj.symm
  have hsrcInt := BitVec.toInt_eq_toNat_cond src
  have hloInt := BitVec.toInt_eq_toNat_cond (src.setWidth 32)
  have hmemInt := BitVec.toInt_eq_toNat_cond mem
  have hextInt := BitVec.toInt_eq_toNat_cond (mem.signExtend 64)
  have hsrcLt := src.isLt
  have hmemLt := mem.isLt
  have hextLt := (mem.signExtend 64).isLt
  cases op with
  | swap | add | and | or | xor => exact absurd rfl hop
  | min | max =>
      simp only [AmoOp.eval, SameSide, apply_ite (BitVec.setWidth 32), hmem, ite_eq_ite_iff, hext,
        hnarrow, heq]
      generalize src.setWidth 32 = lo at *
      omega
  | minu | maxu =>
      simp only [AmoOp.eval, SameSide, apply_ite (BitVec.setWidth 32), hmem, ite_eq_ite_iff,
        hnarrow, heq]
      generalize src.setWidth 32 = lo at *
      generalize mem.signExtend 64 = ext at *
      omega

/-! ## The operation on RAM -/

namespace MMIOMem

/-- The integer of `size` bytes at index `off`. -/
def loaded (m : MMIOMem) (off size : Word) : BitVec (8 * size.toNat) :=
  (Bytes.toWord (m.bytesAt off size)).setWidth (8 * size.toNat)

/-- The memory with the integer `v` stored at index `off`. -/
def stored (m : MMIOMem) (off size : Word) (v : BitVec (8 * size.toNat)) : MMIOMem :=
  m.store off size (Bytes.ofWord size.toNat (v.setWidth 64))

/-- Two stores leave the same memory only where they store the same integer. -/
theorem store_ofWord_iff (m : MMIOMem) (off size : Word) (v v' : Word) :
    m.store off size (Bytes.ofWord size.toNat v) = m.store off size (Bytes.ofWord size.toNat v') ↔
      v.setWidth (8 * size.toNat) = v'.setWidth (8 * size.toNat) := by
  constructor
  · intro h
    apply Bytes.byte_ext
    intro j hj
    have hat := congrFun (congrArg memData h) (off.toNat + j)
    have hin : off.toNat ≤ off.toNat + j ∧ off.toNat + j < off.toNat + size.toNat := by omega
    simp only [store, if_pos hin, Nat.add_sub_cancel_left] at hat
    rw [← Bytes.getD_ofWord hj, hat, Bytes.getD_ofWord hj]
  · intro h
    rw [Bytes.ofWord_eq, h, ← Bytes.ofWord_eq]

end MMIOMem

/-- What an atomic operation owes: the value returned is the old integer, extended
with its sign, and in place of it stands the result of the operation on integers of
its size.  Every other byte of every device is what it was. -/
structure AmoAtWidth (s : MMUSys RAMBus) (h : DevHandle) (off size : Word) (op : AmoOp)
    (src : Word) (r : Bool × Word) (s' : MMUSys RAMBus) : Prop where
  returned : r = (true, ((s.sysBus.obj h).dev.loaded off size).signExtend 64)
  memory : s'.sysBus.obj = (s.sysBus.setObj h { s.sysBus.obj h with
    dev := (s.sysBus.obj h).dev.stored off size
      (op.eval (src.setWidth (8 * size.toNat)) ((s.sysBus.obj h).dev.loaded off size)) }).obj

section Operation

variable {env : MMUEnv} {s : MMUSys RAMBus} {pa size src : Word} {h : DevHandle}

/-- What `pa_amo_op` does on RAM: the switch at 64 bits, between a read and a write. -/
theorem paAmoOp_ram (env : MMUEnv) (src : Word) (op : AmoOp)
    (hdev : (s.sysBus.findDevAccordingToAddr pa).1 = some h)
    (hin : (s.sysBus.obj h).dev.inBuffer (pa - (s.sysBus.obj h).devBaseAddr) size) :
    let off := pa - (s.sysBus.obj h).devBaseAddr
    let res := ((s.sysBus.obj h).dev.loaded off size).signExtend 64
    ∃ s', (MMUSys.paAmoOp env pa size (.ofAmo op) src).run s = .ok (true, res) s' ∧
      s'.sysBus.obj = (s.sysBus.setObj h { s.sysBus.obj h with
        dev := (s.sysBus.obj h).dev.store off size
          (Bytes.ofWord size.toNat (op.eval src res)) }).obj := by
  intro off res
  have hview := RAMBus.sameView_find pa s.sysBus
  have hdev' : ((s.sysBus.findDevAccordingToAddr pa).2.findDevAccordingToAddr pa).1 = some h :=
    (hview.route pa).trans hdev
  simp only [MMUSys.paAmoOp, busRead, busWrite, EStateM.run_bind, run_busCall, RAMBus.run_read, hdev,
    if_pos hin, AMOFunct.apply_ofAmo, ne_eq, not_true_eq_false, if_false, RAMBus.run_write, hdev',
    hview.obj, EStateM.run_pure]
  refine ⟨_, rfl, ?_⟩
  simp only [MEmuMMIOBus.setObj, MEmuMMIOBus.findDev_obj]
  rfl

/-- A store into a device of the bus, seen in the devices. -/
theorem setObj_dev_iff (b : RAMBus) (h : DevHandle) (m m' : MMIOMem) :
    (b.setObj h { b.obj h with dev := m }).obj = (b.setObj h { b.obj h with dev := m' }).obj ↔
      m = m' := by
  constructor
  · intro heq
    have hat := congrArg MMIODev.dev (congrFun heq h)
    simpa only [MEmuMMIOBus.setObj, if_pos] using hat
  · intro hm
    rw [hm]

/-- The operation is right exactly where the low bits of its value at 64 bits are its
value at the width of the access. -/
theorem paAmoOp_atWidth_iff (op : AmoOp)
    (hdev : (s.sysBus.findDevAccordingToAddr pa).1 = some h)
    (hin : (s.sysBus.obj h).dev.inBuffer (pa - (s.sysBus.obj h).devBaseAddr) size)
    (hsize : size.toNat ≤ 8) {old : BitVec (8 * size.toNat)}
    (hold : (s.sysBus.obj h).dev.loaded (pa - (s.sysBus.obj h).devBaseAddr) size = old) :
    Sat s (MMUSys.paAmoOp env pa size (.ofAmo op) src)
        (AmoAtWidth s h (pa - (s.sysBus.obj h).devBaseAddr) size op src) (fun _ _ => False) ↔
      (op.eval src (old.signExtend 64)).setWidth (8 * size.toNat)
        = op.eval (src.setWidth (8 * size.toNat)) old := by
  obtain ⟨s', hrun, hobj⟩ := paAmoOp_ram env src op hdev hin
  have hcut (v : BitVec (8 * size.toNat)) : (v.setWidth 64).setWidth (8 * size.toNat) = v := by
    rw [BitVec.setWidth_setWidth_of_le v (by omega), BitVec.setWidth_eq]
  have hstored := MMIOMem.store_ofWord_iff (s.sysBus.obj h).dev
    (pa - (s.sysBus.obj h).devBaseAddr) size (op.eval src (old.signExtend 64))
    ((op.eval (src.setWidth (8 * size.toNat)) old).setWidth 64)
  rw [hold] at hobj
  rw [hcut] at hstored
  rw [← hstored, ← setObj_dev_iff s.sysBus h, Sat, hrun]
  constructor
  · intro hamo
    have hmemory := hamo.memory
    rw [hold] at hmemory
    exact hobj.symm.trans hmemory
  · intro heq
    refine ⟨rfl, ?_⟩
    rw [hold]
    exact hobj.trans heq

end Operation

/-- At both widths an atomic operation on RAM is the operation at its width, except
that a comparison of words is wrong where the register is not on the side of its
low half. -/
theorem amo_at_width_iff (env : MMUEnv) (s : MMUSys RAMBus) (pa size : Word) (op : AmoOp)
    (src : Word) (h : DevHandle) (hdev : (s.sysBus.findDevAccordingToAddr pa).1 = some h)
    (hin : (s.sysBus.obj h).dev.inBuffer (pa - (s.sysBus.obj h).devBaseAddr) size)
    (hsize : size = 4 ∨ size = 8) :
    Sat s (MMUSys.paAmoOp env pa size (.ofAmo op) src)
        (AmoAtWidth s h (pa - (s.sysBus.obj h).devBaseAddr) size op src) (fun _ _ => False) ↔
      (size = 4 → SameSide op src
        (((s.sysBus.obj h).dev.loaded (pa - (s.sysBus.obj h).devBaseAddr) size).setWidth 32)) := by
  generalize hold : (s.sysBus.obj h).dev.loaded (pa - (s.sysBus.obj h).devBaseAddr) size = old
  obtain rfl | rfl := hsize
  · have hword : old.setWidth 32 = old := BitVec.setWidth_eq old
    rw [paAmoOp_atWidth_iff op hdev hin (by decide) hold, forall_prop_of_true rfl, hword]
    exact eval_word_iff op src old
  · have hext : old.signExtend 64 = old := BitVec.signExtend_eq old
    have hcut (v : Word) : v.setWidth (8 * (8 : Word).toNat) = v := BitVec.setWidth_eq v
    rw [paAmoOp_atWidth_iff op hdev hin (by decide) hold, hext, hcut, hcut]
    exact iff_of_true rfl fun h4 => absurd h4 (by decide)

/-- A system whose memory is sixteen zero bytes at address 0. -/
def zeroRAM : MMUSys RAMBus := ⟨default, MEmuMMIOBus.oneDevice, []⟩

theorem amo_at_width_iff_maxu :
    Sat zeroRAM (MMUSys.paAmoOp default 8 4 (.ofAmo .maxu) 7)
      (AmoAtWidth zeroRAM 0 8 4 .maxu 7) (fun _ _ => False) :=
  (amo_at_width_iff default zeroRAM 8 4 .maxu 7 0 rfl (by decide) (.inl rfl)).mpr fun _ => by decide

/-- `amomax.w` with the least word in the register, zero-extended: 64 bits take it
for the greater of it and 0. -/
theorem amomax_zero_extended :
    ¬ ∀ (env : MMUEnv) (s : MMUSys RAMBus) (pa size : Word) (op : AmoOp) (src : Word)
      (h : DevHandle), (s.sysBus.findDevAccordingToAddr pa).1 = some h →
      (s.sysBus.obj h).dev.inBuffer (pa - (s.sysBus.obj h).devBaseAddr) size →
      size = 4 ∨ size = 8 →
      Sat s (MMUSys.paAmoOp env pa size (.ofAmo op) src)
        (AmoAtWidth s h (pa - (s.sysBus.obj h).devBaseAddr) size op src) (fun _ _ => False) := by
  intro hall
  have hamo := hall default zeroRAM 8 4 .max 0x80000000 0 rfl (by decide) (.inl rfl)
  have hold : ((zeroRAM.sysBus.obj 0).dev.loaded (8 - (zeroRAM.sysBus.obj 0).devBaseAddr) 4) = 0 := by
    decide
  rw [paAmoOp_atWidth_iff .max rfl (by decide) (by decide) hold] at hamo
  revert hamo
  decide

end MEmu
