import MEmu.Mmu
import MEmu.Lib.Run

/-!
# The core-local interruptor

`RVCoreLocalInt`, for any number of harts, and `CemuClintAdapter`, which drives the timer
and software lines of two cores from one of two harts.  The registers are C integers, and
an access copies any bytes of them.

An update ticks and then samples the lines.  The timer line is to be raised from the
compare value on, and the source raises it one tick later.
-/

namespace MEmu

open Run (Sat)

/-- What ends the process in the device. -/
inductive ClintAbort where
  /-- `ReadBuffer_MMIODev_API` and `WriteBuffer_MMIODev_API`: the range assertion. -/
  | region
  /-- `memcpy` outside the registers. -/
  | outOfRegs
  /-- `m_s_irq` and `m_t_irq`: `assert(false)`. -/
  | hart
deriving DecidableEq

/-- `RVCoreLocalInt<nr_hart>`. -/
structure RVCoreLocalInt (nr_hart : Nat) where
  mtime : Word
  mtimecmp : Fin nr_hart → Word
  msip : Fin nr_hart → BitVec 32

/-! ## Copies -/

/-- The bytes of an array of `n`-byte integers, from its first byte on. -/
def arrayByte {len n : Nat} (a : Fin len → BitVec (8 * n)) (i : Nat) : Byte :=
  if h : i / n < len then Bytes.byte (i % n) (a ⟨i / n, h⟩) else 0

/-- Integer `k` of an array of `n`-byte integers after `size` bytes from `start` are taken from
the buffer. -/
def copyInto {n : Nat} (k : Nat) (v : BitVec (8 * n)) (start size : Nat) (buffer : List Byte) :
    BitVec (8 * n) :=
  (Bytes.toWord ((List.range n).map fun j =>
    if start ≤ n * k + j ∧ n * k + j < start + size then buffer.getD (n * k + j - start) 0
    else Bytes.byte j v)).setWidth (8 * n)

/-- A byte of a register after a partial write. -/
theorem byte_copyInto {n k start size j : Nat} (v : BitVec (8 * n)) (buffer : List Byte)
    (hn : n ≤ 8) (hj : j < n) :
    Bytes.byte j (copyInto k v start size buffer)
      = if start ≤ n * k + j ∧ n * k + j < start + size then buffer.getD (n * k + j - start) 0
        else Bytes.byte j v := by
  rw [copyInto, Bytes.byte_toWord _ hn hj]
  simp [List.getD, hj]

/-- A copy into an array replaces the bytes of its range and leaves the others. -/
theorem arrayByte_copyInto {len n start size i : Nat} (a : Fin len → BitVec (8 * n))
    (buffer : List Byte) (hn : n ≤ 8) (hn0 : 0 < n) (hi : i < n * len) :
    arrayByte (fun k => copyInto k (a k) start size buffer) i
      = if start ≤ i ∧ i < start + size then buffer.getD (i - start) 0 else arrayByte a i := by
  have hk : i / n < len := Nat.div_lt_of_lt_mul hi
  have hsum : n * (i / n) + i % n = i := Nat.div_add_mod i n
  rw [arrayByte, arrayByte, dif_pos hk, dif_pos hk, byte_copyInto _ _ hn (Nat.mod_lt _ hn0), hsum]

/-! ## The device -/

/-- A computation on the device. -/
abbrev ClintM (nr_hart : Nat) := EStateM ClintAbort (RVCoreLocalInt nr_hart)

namespace RVCoreLocalInt

variable {nr_hart : Nat}

/-- The constructor. -/
def new : RVCoreLocalInt nr_hart :=
  { mtime := 0
    mtimecmp := fun _ => 0
    msip := fun _ => 0 }

/-- A register file, as an access decodes it. -/
inductive Region where
  | mtime
  | mtimecmp
  | msip

/-- The registers that an access of `size` bytes names, with the offset into them. -/
def decode (nr_hart : Nat) (start_addr size : Word) : Option (Region × Nat) :=
  if 0x4000 ≤ start_addr then
    if 0xbff8 ≤ start_addr ∧ start_addr + size ≤ 0xc000 then
      some (.mtime, (start_addr - 0xbff8).toNat)
    else if (start_addr + size).toNat ≤ 0x4000 + 8 * nr_hart then
      some (.mtimecmp, (start_addr - 0x4000).toNat)
    else none
  else if (start_addr + size).toNat ≤ 4 * nr_hart then some (.msip, start_addr.toNat)
  else none

/-- The size of a register file. -/
def Region.bytes (nr_hart : Nat) : Region → Nat
  | mtime => 8
  | mtimecmp => 8 * nr_hart
  | msip => 4 * nr_hart

/-- A byte of a register file. -/
def regByte (c : RVCoreLocalInt nr_hart) : Region → Nat → Byte
  | .mtime => arrayByte (n := 8) (fun _ : Fin 1 => c.mtime)
  | .mtimecmp => arrayByte (n := 8) c.mtimecmp
  | .msip => arrayByte (n := 4) c.msip

/-- The copy of `do_write`, and the mask on the software interrupts behind it. -/
def store (c : RVCoreLocalInt nr_hart) (region : Region) (start size : Nat)
    (buffer : List Byte) : RVCoreLocalInt nr_hart :=
  match region with
  | .mtime => { c with mtime := copyInto (n := 8) 0 c.mtime start size buffer }
  | .mtimecmp =>
      { c with mtimecmp := fun k => copyInto (n := 8) k (c.mtimecmp k) start size buffer }
  | .msip => { c with msip := fun k => copyInto (n := 4) k (c.msip k) start size buffer &&& 1 }

/-- `do_read`: whether the access is answered, and the buffer after it. -/
def doRead (start_addr size : Word) (buffer : List Byte) : ClintM nr_hart (Bool × List Byte) := do
  match decode nr_hart start_addr size with
  | none => pure (false, buffer)
  | some (region, start) =>
      -- the end of the access can wrap around
      if start + size.toNat ≤ region.bytes nr_hart then
        let c ← get
        let read := (List.range size.toNat).map fun i => c.regByte region (start + i)
        pure (true, read ++ buffer.drop size.toNat)
      else throw .outOfRegs

/-- `do_write`: whether the access is answered. -/
def doWrite (start_addr size : Word) (buffer : List Byte) : ClintM nr_hart Bool := do
  match decode nr_hart start_addr size with
  | none => pure false
  | some (region, start) =>
      if start + size.toNat ≤ region.bytes nr_hart then
        modify fun c => c.store region start size.toNat buffer
        pure true
      else throw .outOfRegs

/-- `tick`. -/
def tick : ClintM nr_hart Unit := modify fun c => { c with mtime := c.mtime + 1 }

/-- `m_s_irq`. -/
def mSIrq (hart_id : Nat) : ClintM nr_hart Bool := do
  let c ← get
  if h : hart_id < nr_hart then pure (c.msip ⟨hart_id, h⟩ &&& 1 != 0) else throw .hart

/-- `m_t_irq`. -/
def mTIrq (hart_id : Nat) : ClintM nr_hart Bool := do
  let c ← get
  if h : hart_id < nr_hart then pure (decide (c.mtimecmp ⟨hart_id, h⟩ < c.mtime))
  else throw .hart

/-! ### What the accesses do -/

variable {c : RVCoreLocalInt nr_hart}

/-- A byte of a block after a write to it. -/
theorem regByte_store {region : Region} (hregion : region ≠ .msip) {start size i : Nat}
    (buffer : List Byte) (hi : i < region.bytes nr_hart) :
    (c.store region start size buffer).regByte region i
      = if start ≤ i ∧ i < start + size then buffer.getD (i - start) 0
        else c.regByte region i := by
  cases region with
  | mtime =>
      have hcopy : (fun _ : Fin 1 => copyInto (n := 8) 0 c.mtime start size buffer)
          = fun k : Fin 1 => copyInto (n := 8) k c.mtime start size buffer := by
        funext k
        rw [Fin.val_eq_zero k]
      exact (congrArg (fun a => arrayByte (n := 8) a i) hcopy).trans
        (arrayByte_copyInto (n := 8) (fun _ : Fin 1 => c.mtime) buffer (by decide) (by decide) hi)
  | mtimecmp =>
      exact arrayByte_copyInto (n := 8) c.mtimecmp buffer (by decide) (by decide) hi
  | msip => exact absurd rfl hregion

/-- The software interrupts are single bits. -/
def Bits (c : RVCoreLocalInt nr_hart) : Prop := ∀ h, c.msip h &&& 1 = c.msip h

theorem Bits.store (h : c.Bits) (region : Region) (start size : Nat) (buffer : List Byte) :
    (c.store region start size buffer).Bits := by
  cases region with
  | mtime | mtimecmp => exact h
  | msip =>
      intro k
      show (_ &&& 1) &&& 1 = _ &&& 1
      rw [BitVec.and_assoc, BitVec.and_self]

/-- A write leaves one bit in each software interrupt register. -/
theorem doWrite_bits (h : c.Bits) (start_addr size : Word) (buffer : List Byte) :
    Sat c (doWrite start_addr size buffer) (fun _ => Bits) (fun _ _ => True) := by
  unfold doWrite
  cases decode nr_hart start_addr size with
  | none => exact .pure h
  | some p =>
      exact .ite (fun _ => .bind (.modify (.pure (h.store p.1 p.2 size.toNat buffer))))
        fun _ => .throw trivial

/-- A read changes nothing. -/
theorem doRead_same (start_addr size : Word) (buffer : List Byte) :
    Sat c (doRead start_addr size buffer) (fun _ c' => c' = c) (fun _ _ => True) := by
  unfold doRead
  cases decode nr_hart start_addr size with
  | none => exact .pure rfl
  | some p => exact .ite (fun _ => .bind (.get (.pure rfl))) fun _ => .throw trivial

/-- The line of the software interrupt is the bit of its register. -/
theorem mSIrq_line (h : Fin nr_hart) :
    Sat c (mSIrq h.val) (fun b c' => b = (c.msip h &&& 1 != 0) ∧ c' = c) (fun _ _ => False) := by
  refine .bind (.get ?_)
  rw [dif_pos h.isLt]
  exact .pure ⟨rfl, rfl⟩

/-- The line of the timer compares as the source does. -/
theorem mTIrq_line (h : Fin nr_hart) :
    Sat c (mTIrq h.val) (fun b c' => b = decide (c.mtimecmp h < c.mtime) ∧ c' = c)
      (fun _ _ => False) := by
  refine .bind (.get ?_)
  rw [dif_pos h.isLt]
  exact .pure ⟨rfl, rfl⟩

end RVCoreLocalInt

/-! ## The adapter -/

/-- `CemuClintAdapter`, with what its pointers to the interrupt lines of the cores lead to. -/
structure CemuClintAdapter where
  addrRegionSize : Word
  intCtrl : RVCoreLocalInt 2
  core0IntStatus : IntStatus
  core1IntStatus : IntStatus

namespace CemuClintAdapter

abbrev ClintAdapterM := EStateM ClintAbort CemuClintAdapter

/-- The adapter that `GetInstance_API` makes, with the lines of two cores attached. -/
def new (core0 core1 : IntStatus) : CemuClintAdapter :=
  { addrRegionSize := 0x10000
    intCtrl := .new
    core0IntStatus := core0
    core1IntStatus := core1 }

/-- A computation on the device, on the one of the adapter. -/
def onDev {α : Type} (x : ClintM 2 α) : ClintAdapterM α := fun a =>
  match x.run a.intCtrl with
  | .ok r c => .ok r { a with intCtrl := c }
  | .error e c => .error e { a with intCtrl := c }

/-- `ReadBuffer_MMIODev_API`. -/
def readBuffer (begin_addr size : Word) (buffer : List Byte) :
    ClintAdapterM (FuncReturnFeedback × List Byte) := do
  let a ← get
  if begin_addr + size ≤ a.addrRegionSize then
    let r ← onDev (RVCoreLocalInt.doRead begin_addr size buffer)
    pure (if r.1 then .ok else .unknown, r.2)
  else throw .region

/-- `WriteBuffer_MMIODev_API`. -/
def writeBuffer (begin_addr size : Word) (buffer : List Byte) :
    ClintAdapterM FuncReturnFeedback := do
  let a ← get
  if begin_addr + size ≤ a.addrRegionSize then
    let feedback ← onDev (RVCoreLocalInt.doWrite begin_addr size buffer)
    pure (if feedback then .ok else .unknown)
  else throw .region

/-- `UpdateIntState_IntCtrl_API`. -/
def updateIntState : ClintAdapterM FuncReturnFeedback := do
  onDev RVCoreLocalInt.tick
  let msip ← onDev (RVCoreLocalInt.mSIrq 0)
  modify fun a => { a with core0IntStatus.msip := msip }
  let mtip ← onDev (RVCoreLocalInt.mTIrq 0)
  modify fun a => { a with core0IntStatus.mtip := mtip }
  let msip ← onDev (RVCoreLocalInt.mSIrq 1)
  modify fun a => { a with core1IntStatus.msip := msip }
  let mtip ← onDev (RVCoreLocalInt.mTIrq 1)
  modify fun a => { a with core1IntStatus.mtip := mtip }
  pure .ok

variable {a : CemuClintAdapter}

theorem onDev_sat {α : Type} {x : ClintM 2 α} {Q : α → CemuClintAdapter → Prop}
    {E : ClintAbort → CemuClintAdapter → Prop}
    (h : Sat a.intCtrl x (fun r c => Q r { a with intCtrl := c })
      (fun e c => E e { a with intCtrl := c })) : Sat a (onDev x) Q E := by
  have hrun : (onDev x).run a = match x.run a.intCtrl with
      | .ok r c => .ok r { a with intCtrl := c }
      | .error e c => .error e { a with intCtrl := c } := rfl
  exact .part (fun r c hr => by rw [hrun, hr]) (fun e c hr => by rw [hrun, hr]) h

/-- The timer line of a hart. -/
def mtip (a : CemuClintAdapter) : Fin 2 → Bool
  | 0 => a.core0IntStatus.mtip
  | 1 => a.core1IntStatus.mtip

/-- The software line of a hart. -/
def msip (a : CemuClintAdapter) : Fin 2 → Bool
  | 0 => a.core0IntStatus.msip
  | 1 => a.core1IntStatus.msip

/-- An update ticks, and leaves the external lines alone. -/
theorem updateIntState_sat :
    Sat a updateIntState
      (fun _ a' => a'.intCtrl = { a.intCtrl with mtime := a.intCtrl.mtime + 1 } ∧
        (∀ h, a'.mtip h = decide (a.intCtrl.mtimecmp h < a.intCtrl.mtime + 1)) ∧
        (∀ h, a'.msip h = (a.intCtrl.msip h &&& 1 != 0)) ∧
        a'.core0IntStatus.meip = a.core0IntStatus.meip ∧
        a'.core0IntStatus.seip = a.core0IntStatus.seip ∧
        a'.core1IntStatus.meip = a.core1IntStatus.meip ∧
        a'.core1IntStatus.seip = a.core1IntStatus.seip) (fun _ _ => False) := by
  refine .bind (onDev_sat (.modify ?_))
  refine .bind (onDev_sat ((RVCoreLocalInt.mSIrq_line 0).mono ?_ fun _ _ => False.elim))
  rintro _ _ ⟨rfl, rfl⟩
  refine .bind (.modify (.bind (onDev_sat
    ((RVCoreLocalInt.mTIrq_line 0).mono ?_ fun _ _ => False.elim))))
  rintro _ _ ⟨rfl, rfl⟩
  refine .bind (.modify (.bind (onDev_sat
    ((RVCoreLocalInt.mSIrq_line 1).mono ?_ fun _ _ => False.elim))))
  rintro _ _ ⟨rfl, rfl⟩
  refine .bind (.modify (.bind (onDev_sat
    ((RVCoreLocalInt.mTIrq_line 1).mono ?_ fun _ _ => False.elim))))
  rintro _ _ ⟨rfl, rfl⟩
  refine .bind (.modify (.pure ⟨rfl, ?_, ?_, rfl, rfl, rfl, rfl⟩))
  · intro h
    match h with
    | 0 | 1 => rfl
  · intro h
    match h with
    | 0 | 1 => rfl

end CemuClintAdapter

/-! ## Runs -/

/-- An operation on the adapter. -/
inductive ClintOp where
  | update
  | read (begin_addr size : Word) (buffer : List Byte)
  | write (begin_addr size : Word) (buffer : List Byte)

def ClintOp.call : ClintOp → CemuClintAdapter.ClintAdapterM FuncReturnFeedback
  | update => CemuClintAdapter.updateIntState
  | read begin_addr size buffer => do
      let r ← CemuClintAdapter.readBuffer begin_addr size buffer
      pure r.1
  | write begin_addr size buffer => CemuClintAdapter.writeBuffer begin_addr size buffer

/-- An operation of a run, and the adapter after it, none where it did not return. -/
structure ClintRecord where
  op : ClintOp
  before : CemuClintAdapter
  after : Option CemuClintAdapter

/-- The record of an operation on `a`. -/
def clintRecord (op : ClintOp) (a : CemuClintAdapter) : ClintRecord :=
  { op := op
    before := a
    after := match op.call.run a with
      | .ok _ a' => some a'
      | .error _ _ => none }

/-- A run of a new adapter: any operations in any order, up to one that does not return. -/
inductive ClintRun : List ClintRecord → Option CemuClintAdapter → Prop where
  | new (core0 core1 : IntStatus) : ClintRun [] (some (.new core0 core1))
  | step {trace : List ClintRecord} {a : CemuClintAdapter} (hr : ClintRun trace (some a))
      (op : ClintOp) : ClintRun (trace ++ [clintRecord op a]) (clintRecord op a).after

namespace ClintRecord

/-- After an update the timer lines are raised from the compare values on, and the software
lines are the lowest bits of their registers. -/
def FollowsTimer (r : ClintRecord) : Prop :=
  r.op = .update → ∀ a', r.after = some a' → ∀ h : Fin 2,
    a'.mtip h = decide (a'.intCtrl.mtimecmp h ≤ a'.intCtrl.mtime) ∧
      a'.msip h = (a'.intCtrl.msip h).getLsbD 0

/-- An update does not tick onto a compare value. -/
def OffBoundary (r : ClintRecord) : Prop :=
  r.op = .update → ∀ h : Fin 2, r.before.intCtrl.mtime + 1 ≠ r.before.intCtrl.mtimecmp h

end ClintRecord

section Runs

variable {trace : List ClintRecord} {last : Option CemuClintAdapter} {a a' : CemuClintAdapter}

/-- The strict comparison is the one from the compare value on, but on the value itself. -/
theorem lt_eq_le_iff (cmp time : Word) : (decide (cmp < time) = decide (cmp ≤ time)) ↔
    time ≠ cmp := by
  rw [decide_eq_decide]
  constructor
  · rintro h rfl
    exact absurd (h.mpr (BitVec.le_refl _)) (BitVec.lt_irrefl _)
  · intro hne
    exact ⟨BitVec.le_of_lt, fun hle => BitVec.lt_of_le_ne hle (Ne.symm hne)⟩

theorem and_one_bne (x : BitVec 32) : (x &&& 1 != 0) = x.getLsbD 0 := by
  have hone : x &&& 1 = (BitVec.ofBool (x.getLsbD 0)).setWidth 32 :=
    BitVec.and_one_eq_setWidth_ofBool_getLsbD
  rw [hone]
  cases x.getLsbD 0 <;> rfl

/-- An update follows the timer unless the timer is at its compare value. -/
theorem update_followsTimer (a : CemuClintAdapter) :
    (clintRecord .update a).FollowsTimer ↔ (clintRecord .update a).OffBoundary := by
  have hsat := CemuClintAdapter.updateIntState_sat (a := a)
  obtain ⟨r, s, hrun, hctrl, hmtip, hmsip, -⟩ := hsat.exists_ok
  have hafter : (clintRecord .update a).after = some s := by
    rw [clintRecord, ClintOp.call, hrun]
  have hiff (h : Fin 2) : (s.mtip h = decide (s.intCtrl.mtimecmp h ≤ s.intCtrl.mtime) ∧
      s.msip h = (s.intCtrl.msip h).getLsbD 0) ↔
        a.intCtrl.mtime + 1 ≠ a.intCtrl.mtimecmp h := by
    rw [hmtip, hmsip, hctrl, and_one_bne]
    exact (and_iff_left rfl).trans (lt_eq_le_iff _ _)
  constructor
  · intro hfollows _ h
    exact (hiff h).mp (hfollows rfl s hafter h)
  · intro hoff _ a' ha' h
    rw [hafter] at ha'
    cases ha'
    exact (hiff h).mpr (hoff rfl h)

/-- In a run the lines follow the timer after every update exactly where no update ticks onto
a compare value. -/
theorem follows_timer_iff (hr : ClintRun trace last) :
    (∀ r ∈ trace, r.FollowsTimer) ↔ ∀ r ∈ trace, r.OffBoundary := by
  induction hr with
  | new core0 core1 => exact iff_of_true (List.forall_mem_nil _) (List.forall_mem_nil _)
  | @step trace a hr op ih =>
      have hlast : (clintRecord op a).FollowsTimer ↔ (clintRecord op a).OffBoundary := by
        cases op with
        | update => exact update_followsTimer a
        | _ => exact iff_of_true (fun h => by cases h) (fun h => by cases h)
      rw [List.forall_mem_append, List.forall_mem_append, ih, List.forall_mem_singleton,
        List.forall_mem_singleton, hlast]

end Runs

/-- The adapter after an operation that returns. -/
def ClintOp.finish (op : ClintOp) (a : CemuClintAdapter) : CemuClintAdapter :=
  Run.final (op.call.run a)

/-- A run goes on with any call that ends well. -/
theorem ClintRun.next {trace : List ClintRecord} {a : CemuClintAdapter}
    (hr : ClintRun trace (some a)) (op : ClintOp)
    (hok : (clintRecord op a).after = some (op.finish a)) :
    ClintRun (trace ++ [clintRecord op a]) (some (op.finish a)) :=
  hok ▸ hr.step op

/-- Stores between two updates: the compare value of hart 0 falls behind the time, and hart 1 gets
a software interrupt. -/
theorem follows_timer_iff_past :
    ∃ trace a, ClintRun trace (some a) ∧ trace.length = 4 ∧ a.mtip 0 = true ∧ a.msip 1 = true ∧
      ∀ r ∈ trace, r.FollowsTimer := by
  have h₁ := (ClintRun.new default default).next .update (by rfl)
  have h₂ := h₁.next (.write 0x4000 8 [1, 0, 0, 0, 0, 0, 0, 0]) (by rfl)
  have h₃ := h₂.next (.write 4 4 [1, 0, 0, 0]) (by rfl)
  have h₄ := h₃.next .update (by rfl)
  refine ⟨_, _, h₄, rfl, by decide, by decide, (follows_timer_iff h₄).mpr ?_⟩
  simp only [List.forall_mem_append, List.forall_mem_singleton, List.nil_append]
  refine ⟨⟨⟨?_, fun h => by cases h⟩, fun h => by cases h⟩, ?_⟩
  · rintro - h
    match h with
    | 0 | 1 => decide
  · rintro - h
    match h with
    | 0 | 1 => decide

/-- One tick away from the compare value 1 of hart 0 the line stays low. -/
theorem timer_line_late :
    ∃ trace last, ClintRun trace last ∧ ¬∀ r ∈ trace, r.FollowsTimer := by
  have hw : (clintRecord (.write 0x4000 8 [1, 0, 0, 0, 0, 0, 0, 0]) (.new default default)).after
      = some (Run.final ((ClintOp.write 0x4000 8 [1, 0, 0, 0, 0, 0, 0, 0]).call.run
          (.new default default))) := by rfl
  have hr := (ClintRun.new default default).step (.write 0x4000 8 [1, 0, 0, 0, 0, 0, 0, 0])
  rw [hw] at hr
  refine ⟨_, _, hr.step .update, fun hall => ?_⟩
  have hoff := (update_followsTimer _).mp
    (hall _ (List.mem_append_right _ (List.mem_singleton.mpr rfl)))
  exact hoff rfl 0 (by decide)

end MEmu
