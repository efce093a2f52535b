import MEmu.Transmit

/-!
# The characters that the serial port receives

A run of characters put and registers read.  The interval test of `do_read` is that of
`do_write`, but no access ends before the first register, so a read takes a character
exactly where it starts at `rx_fifo`.  What the reads take and what is left in the queue
are together what was put.
-/

namespace MEmu

/-! ## Runs -/

/-- A character that the other side puts, or a read of the bus. -/
inductive RxOp where
  | putc (c : Byte)
  | read (start_addr size : Word) (buffer : List Byte)

namespace RxOp

/-- A read stays in the registers and reads at least a byte. -/
def InRange : RxOp → Prop
  | putc _ => True
  | read start_addr size _ => start_addr.toNat + size.toNat ≤ 16 ∧ 1 ≤ size.toNat

/-- The operation, with the buffer after it. -/
def call : RxOp → UartM (List Byte)
  | putc c => do
      Uartlite.putc c
      pure []
  | read start_addr size buffer => do
      let r ← Uartlite.doRead start_addr size buffer
      pure r.2

end RxOp

/-- An operation of a run. -/
structure RxRecord where
  op : RxOp
  before : Uartlite
  out : List Byte
  after : Uartlite

namespace RxRecord

/-- The character that is put. -/
def put (r : RxRecord) : Option Byte :=
  match r.op with
  | .putc c => some c
  | .read _ _ _ => none

/-- The character that a read at offset 0 returns while there is one: the low byte of `rx_fifo`. -/
def taken (r : RxRecord) : Option Byte :=
  match r.op with
  | .putc _ => none
  | .read start_addr _ _ =>
      if start_addr = 0 ∧ r.before.rx ≠ [] then some (r.out.getD 0 0) else none

/-- A read at another offset leaves the queue alone. -/
def Consumes (r : RxRecord) : Prop :=
  ∀ start_addr size buffer, r.op = .read start_addr size buffer → start_addr ≠ 0 →
    r.after.rx = r.before.rx

/-- A read that covers `status` shows `SR_RX_FIFO_VALID_DATA` exactly where a character waits. -/
def Shows (r : RxRecord) : Prop :=
  ∀ start_addr size buffer, r.op = .read start_addr size buffer →
    Covers start_addr size Uartlite.status →
      ((r.out.getD (Uartlite.status - start_addr.toNat) 0).getLsbD 0 = true ↔ r.before.rx ≠ [])

end RxRecord

/-- A run of a device: any operations in range, in any order. -/
inductive RxRun (u₀ : Uartlite) : List RxRecord → Uartlite → Prop where
  | start : RxRun u₀ [] u₀
  | step {trace : List RxRecord} {u u' : Uartlite} {out : List Byte} (hr : RxRun u₀ trace u)
      (op : RxOp) (hin : op.InRange) (hok : op.call.run u = .ok out u') :
      RxRun u₀ (trace ++ [⟨op, u, out, u'⟩]) u'

/-! ## What a read shows -/

section Shown

variable {u : Uartlite} {start_addr size : Word} {buffer : List Byte}

/-- A `char` sign-extended into the register is its low byte. -/
theorem showRx_rxFifo {c : Byte} {rest : List Byte} (h : u.rx = c :: rest) :
    u.showRx.regs Uartlite.rxFifo = c := by
  have hlow : (c.signExtend 32).extractLsb' (8 * 0) 8 = c := by
    apply BitVec.eq_of_getElem_eq
    intro i hi
    have h32 : i < 32 := by omega
    simp [BitVec.getElem_signExtend, hi, h32]
  have hregs : u.showRx.regs Uartlite.rxFifo = (c.signExtend 32).extractLsb' (8 * 0) 8 := by
    rw [Uartlite.showRx, h]
    rfl
  rw [hregs, hlow]

theorem showRx_status (u : Uartlite) :
    (u.showRx.regs Uartlite.status).getLsbD 0 = true ↔ u.rx ≠ [] := by
  cases hrx : u.rx with
  | nil =>
      have hregs : u.showRx.regs Uartlite.status = u.regs Uartlite.status &&& ~~~0x01 := by
        rw [Uartlite.showRx, hrx]
        rfl
      rw [hregs]
      simp
  | cons c rest =>
      have hregs : u.showRx.regs Uartlite.status = u.regs Uartlite.status ||| 0x01 := by
        rw [Uartlite.showRx, hrx]
        rfl
      rw [hregs]
      simp

/-- What a read in range leaves in the buffer and in the queue. -/
theorem run_read (hin : start_addr.toNat + size.toNat ≤ 16) (buffer : List Byte) (u : Uartlite) :
    ∃ out u', (RxOp.read start_addr size buffer).call.run u = .ok out u' ∧
      (∀ i < size.toNat, out.getD i 0 = u.showRx.regs (start_addr.toNat + i)) ∧
      u'.rx = if start_addr = 0 then u.rx.tail else u.rx := by
  have hasked : ({ u.showRx with wait_ack := false }.popRx start_addr (start_addr + size)).rx
      = _ := congrArg Line.rx (read_asked [])
  refine ⟨(List.range size.toNat).map (fun i => u.showRx.regs (start_addr.toNat + i)) ++
    buffer.drop size.toNat, _, ?_, fun i hi => ?_, hasked.trans ?_⟩
  · simp only [RxOp.call, Uartlite.doRead, if_neg (not_past_regs hin), copied_eq hin, cassert,
      if_pos hin]
    rfl
  · simp [List.getD, List.getElem?_append, hi]
  · split <;> rfl

end Shown

/-! ## What one operation does -/

section Step

variable {u u' : Uartlite} {op : RxOp} {out : List Byte}

theorem RxOp.returns (hin : op.InRange) (u : Uartlite) : ∃ out u', op.call.run u = .ok out u' := by
  cases op with
  | putc c => exact ⟨_, _, rfl⟩
  | read start_addr size buffer =>
      obtain ⟨out, u', hok, -, -⟩ := run_read hin.1 buffer u
      exact ⟨out, u', hok⟩

/-- The queue gains what is put and loses what is taken. -/
theorem RxRecord.conserves (hin : op.InRange) (hok : op.call.run u = .ok out u') :
    u.rx ++ (⟨op, u, out, u'⟩ : RxRecord).put.toList
      = (⟨op, u, out, u'⟩ : RxRecord).taken.toList ++ u'.rx := by
  cases op with
  | putc c =>
      cases hok
      rfl
  | read start_addr size buffer =>
      obtain ⟨_, _, hrun, hout, hrx⟩ := run_read hin.1 buffer u
      rw [hrun] at hok
      cases hok
      simp only [RxRecord.put, RxRecord.taken, Option.toList_none, List.append_nil, hrx]
      by_cases hzero : start_addr = 0
      · subst hzero
        cases hq : u.rx with
        | nil => simp
        | cons c rest =>
            have hlow : out.getD 0 0 = c := (hout 0 hin.2).trans (showRx_rxFifo hq)
            rw [if_pos ⟨rfl, List.cons_ne_nil c rest⟩, hlow, if_pos rfl]
            rfl
      · rw [if_neg fun h => hzero h.1, if_neg hzero]
        rfl

theorem RxRecord.consumes (hin : op.InRange) (hok : op.call.run u = .ok out u') :
    (⟨op, u, out, u'⟩ : RxRecord).Consumes := by
  rintro start_addr size buffer rfl hne
  obtain ⟨_, _, hrun, -, hrx⟩ := run_read hin.1 buffer u
  rw [hrun] at hok
  cases hok
  exact hrx.trans (if_neg hne)

theorem RxRecord.shows (hin : op.InRange) (hok : op.call.run u = .ok out u') :
    (⟨op, u, out, u'⟩ : RxRecord).Shows := by
  rintro start_addr size buffer rfl hcovers
  obtain ⟨_, _, hrun, hout, -⟩ := run_read hin.1 buffer u
  rw [hrun] at hok
  cases hok
  have hle : start_addr.toNat ≤ Uartlite.status := hcovers.1
  have hlt : Uartlite.status - start_addr.toNat < size.toNat := by
    have := hcovers.2
    omega
  show (out.getD (Uartlite.status - start_addr.toNat) 0).getLsbD 0 = true ↔ u.rx ≠ []
  rw [hout _ hlt, Nat.add_sub_cancel' hle]
  exact showRx_status u

end Step

/-! ## Runs lose and repeat nothing -/

section Run

variable {u₀ u : Uartlite} {trace : List RxRecord}

theorem RxRun.conserves (hr : RxRun u₀ trace u) :
    u₀.rx ++ trace.filterMap RxRecord.put = trace.filterMap RxRecord.taken ++ u.rx := by
  induction hr with
  | start => simp
  | @step trace u u' out hr op hin hok ih =>
      have hstep := RxRecord.conserves hin hok
      have hlast {f : RxRecord → Option Byte} (r : RxRecord) :
          (trace ++ [r]).filterMap f = trace.filterMap f ++ (f r).toList := by
        rw [List.filterMap_append]
        cases hf : f r <;> simp [hf]
      rw [hlast, hlast, ← List.append_assoc, ih, List.append_assoc, hstep, List.append_assoc]

theorem RxRun.each (hr : RxRun u₀ trace u) : ∀ r ∈ trace, r.Consumes ∧ r.Shows := by
  induction hr with
  | start => exact List.forall_mem_nil _
  | step hr op hin hok ih =>
      refine List.forall_mem_append.mpr ⟨ih, List.forall_mem_singleton.mpr ?_⟩
      exact ⟨RxRecord.consumes hin hok, RxRecord.shows hin hok⟩

/-- The device receives faithfully: what is put into an empty queue is what the reads at offset 0
have taken and then what is still queued, no other read consumes, `status` tells whether a
character waits, and no operation in range fails. -/
theorem receives (hr : RxRun u₀ trace u) (hempty : u₀.rx = []) :
    trace.filterMap RxRecord.put = trace.filterMap RxRecord.taken ++ u.rx ∧
      (∀ r ∈ trace, r.Consumes ∧ r.Shows) ∧
      ∀ op : RxOp, op.InRange → ∃ out u', op.call.run u = .ok out u' := by
  refine ⟨?_, hr.each, fun op hin => RxOp.returns hin u⟩
  have h := hr.conserves
  rwa [hempty, List.nil_append] at h

/-- Two characters are put, and one is read. -/
theorem receives_typed :
    ∃ trace u, RxRun .new trace u ∧ trace.filterMap RxRecord.taken = [0x41] ∧
      (trace.filterMap RxRecord.put = trace.filterMap RxRecord.taken ++ u.rx ∧
        (∀ r ∈ trace, r.Consumes ∧ r.Shows) ∧
        ∀ op : RxOp, op.InRange → ∃ out u', op.call.run u = .ok out u') := by
  have hput : RxRun .new _ _ := RxRun.start.step (.putc 0x41) trivial rfl
  have hput' := hput.step (.putc 0x42) trivial rfl
  have hread := hput'.step (.read 0 4 [0, 0, 0, 0])
    (show 0 + 4 ≤ 16 ∧ 1 ≤ 4 by decide) rfl
  exact ⟨_, _, hread, rfl, receives hread rfl⟩

end Run

end MEmu
