import MEmu.Uart
import MEmu.Lib.Trace

/-!
# The characters that the serial port sends

What the bytes of each access ask of the two queues, and how far the device does as asked.
The interval tests of `do_write` count the end of an access as covered, so a write that ends
at `tx_fifo` pushes the character that the register held before, and one that ends at
`control` carries out the resets that were written there last.
-/

namespace MEmu

open Run (Sat)
open Trace (Each each_nil each_snoc)

/-! ## Runs of the device -/

/-- An operation on the device: an access of the bus, or a character taken or brought by the other
side. -/
inductive UartOp where
  | write (start_addr size : Word) (buffer : List Byte)
  | read (start_addr size : Word) (buffer : List Byte)
  | getc
  | putc (c : Byte)

namespace UartOp

/-- An access stays in the registers. -/
def InRange : UartOp → Prop
  | write start_addr size _ | read start_addr size _ => start_addr.toNat + size.toNat ≤ 16
  | getc | putc _ => True

/-- The operation, with the character that it delivers. -/
def call : UartOp → UartM (Option Byte)
  | write start_addr size buffer => do
      let _ ← Uartlite.doWrite start_addr size buffer
      pure none
  | read start_addr size buffer => do
      let _ ← Uartlite.doRead start_addr size buffer
      pure none
  | getc => do
      let u ← get
      let c ← Uartlite.getc
      pure (if u.existTx then some c else none)
  | putc c => do
      Uartlite.putc c
      pure none

end UartOp

/-- An operation of a run. -/
structure UartRecord where
  op : UartOp
  before : Uartlite
  out : Option Byte
  after : Uartlite

/-- A run of a new device: any operations in range, in any order. -/
inductive UartRun : List UartRecord → Uartlite → Prop where
  | new : UartRun [] .new
  | step {trace : List UartRecord} {u u' : Uartlite} {out : Option Byte} (hr : UartRun trace u)
      (op : UartOp) (hin : op.InRange) (hok : op.call.run u = .ok out u') :
      UartRun (trace ++ [⟨op, u, out, u'⟩]) u'

/-! ## What the operations ask -/

/-- The queues, and the characters delivered so far. -/
structure Line where
  rx : List Byte
  tx : List Byte
  delivered : List Byte
deriving DecidableEq

/-- The access covers the byte at offset `off`. -/
def Covers (start_addr size : Word) (off : Nat) : Prop :=
  start_addr.toNat ≤ off ∧ off < start_addr.toNat + size.toNat

instance (start_addr size : Word) (off : Nat) : Decidable (Covers start_addr size off) :=
  inferInstanceAs (Decidable (_ ∧ _))

/-- The byte that a write puts at offset `off`. -/
def byteAt (start_addr : Word) (buffer : List Byte) (off : Nat) : Byte :=
  buffer.getD (off - start_addr.toNat) 0

/-- What a write asks: a character that covers `tx_fifo` is queued, and then a control word that
covers `control` resets what it says. -/
def Line.write (l : Line) (start_addr size : Word) (buffer : List Byte) : Line :=
  let tx := if Covers start_addr size Uartlite.txFifo then
    l.tx ++ [byteAt start_addr buffer Uartlite.txFifo] else l.tx
  if Covers start_addr size Uartlite.control then
    let control := byteAt start_addr buffer Uartlite.control
    { l with
      rx := if control.getLsbD 1 then [] else l.rx
      tx := if control.getLsbD 0 then [] else tx }
  else { l with tx := tx }

/-- What an operation asks. -/
def UartOp.asks (l : Line) : UartOp → Line
  | write start_addr size buffer => l.write start_addr size buffer
  | read start_addr _ _ => if start_addr = 0 then { l with rx := l.rx.tail } else l
  | getc => { l with tx := l.tx.tail, delivered := l.delivered ++ l.tx.head?.toList }
  | putc c => { l with rx := l.rx ++ [c] }

/-- The line after some operations that do as asked. -/
def asked (ops : List UartOp) : Line := ops.foldl UartOp.asks ⟨[], [], []⟩

/-- The line after a run. -/
def lineAfter (trace : List UartRecord) (u : Uartlite) : Line :=
  { rx := u.rx, tx := u.tx, delivered := trace.filterMap UartRecord.out }

/-- At every point of the run the queues hold, and the drains have delivered, what the operations
so far ask. -/
def Faithful (trace : List UartRecord) : Prop :=
  Each (fun pre r => lineAfter (pre ++ [r]) r.after = asked ((pre ++ [r]).map UartRecord.op)) trace

/-- A write does not end at `tx_fifo`, and one that ends at `control` finds no reset there that
would discard a character. -/
def UartRecord.Clean (r : UartRecord) : Prop :=
  ∀ start_addr size buffer, r.op = .write start_addr size buffer →
    start_addr.toNat + size.toNat ≠ Uartlite.txFifo ∧
      (start_addr.toNat + size.toNat = Uartlite.control →
        (r.before.rstTx = true → r.before.tx = [] ∧ Uartlite.txFifo < start_addr.toNat) ∧
          (r.before.rstRx = true → r.before.rx = []))

/-! ## What one operation does -/

section Step

variable {u u' : Uartlite} {out : Option Byte} {start_addr size : Word}

/-- The end of an access in range does not wrap. -/
theorem end_toNat (hin : start_addr.toNat + size.toNat ≤ 16) :
    (start_addr + size).toNat = start_addr.toNat + size.toNat := by
  rw [BitVec.toNat_add, Nat.mod_eq_of_lt]
  omega

theorem not_past_regs (hin : start_addr.toNat + size.toNat ≤ 16) :
    ¬Uartlite.sizeofRegs < start_addr + size := by
  rw [BitVec.lt_def, end_toNat hin]
  show ¬16 < _
  omega

theorem copied_eq (hin : start_addr.toNat + size.toNat ≤ 16) :
    Uartlite.copied start_addr size = size.toNat := by
  have hsub : (Uartlite.sizeofRegs - start_addr).toNat = 16 - start_addr.toNat :=
    BitVec.toNat_sub_of_le (BitVec.le_def.mpr (show start_addr.toNat ≤ 16 by omega))
  rw [Uartlite.copied, if_pos]
  rw [BitVec.le_def, hsub]
  omega

/-- The device after a write in range. -/
def Uartlite.wrote (u : Uartlite) (start_addr size : Word) (buffer : List Byte) : Uartlite :=
  let copy : Uartlite := { u with regs := copyIn u.regs start_addr.toNat size.toNat buffer }
  (copy.pushChar start_addr (start_addr + size)).resetFifos start_addr (start_addr + size)

theorem run_doWrite (hin : start_addr.toNat + size.toNat ≤ 16) (buffer : List Byte)
    (u : Uartlite) :
    (Uartlite.doWrite start_addr size buffer).run u
      = .ok true (u.wrote start_addr size buffer) := by
  simp only [Uartlite.doWrite, if_neg (not_past_regs hin), copied_eq hin, cassert, if_pos hin]
  rfl

/-- The device after a read in range. -/
theorem run_doRead (hin : start_addr.toNat + size.toNat ≤ 16) (buffer : List Byte)
    (u : Uartlite) :
    ∃ r, (Uartlite.doRead start_addr size buffer).run u
      = .ok r ({ u.showRx with wait_ack := false }.popRx start_addr (start_addr + size)) := by
  simp only [Uartlite.doRead, if_neg (not_past_regs hin), copied_eq hin, cassert, if_pos hin]
  exact ⟨_, rfl⟩

/-- A copy leaves the bytes past its end as they were. -/
theorem copyIn_of_le {regs : Nat → Byte} {start n i : Nat} (h : start + n ≤ i)
    (buffer : List Byte) : Uartlite.copyIn regs start n buffer i = regs i :=
  if_neg fun hi => Nat.not_le_of_lt hi.2 h

theorem copyIn_of_covers {regs : Nat → Byte} {off : Nat} (h : Covers start_addr size off)
    (buffer : List Byte) :
    Uartlite.copyIn regs start_addr.toNat size.toNat buffer off = byteAt start_addr buffer off :=
  if_pos h

/-- A write that ends at `tx_fifo` pushes what the register holds. -/
theorem wrote_tx_of_end (hin : start_addr.toNat + size.toNat ≤ 16)
    (hend : start_addr.toNat + size.toNat = Uartlite.txFifo) (buffer : List Byte) :
    (u.wrote start_addr size buffer).tx = u.tx ++ [u.regs Uartlite.txFifo] := by
  have hpush : start_addr.toNat ≤ Uartlite.txFifo ∧
      Uartlite.txFifo ≤ start_addr.toNat + size.toNat := by omega
  have hreset : ¬(start_addr.toNat ≤ Uartlite.control ∧
      Uartlite.control ≤ start_addr.toNat + size.toNat) := by
    rw [hend]
    exact fun h => absurd h.2 (by decide)
  simp only [Uartlite.wrote, Uartlite.resetFifos, Uartlite.pushChar, end_toNat hin, if_pos hpush,
    if_neg hreset, copyIn_of_le (Nat.le_of_eq hend)]

/-- Any other write pushes the character that it covers. -/
theorem pushChar_of_copy (hin : start_addr.toNat + size.toNat ≤ 16)
    (hne : start_addr.toNat + size.toNat ≠ Uartlite.txFifo) {buffer : List Byte} {v : Uartlite}
    (hregs : v.regs = Uartlite.copyIn u.regs start_addr.toNat size.toNat buffer) :
    v.pushChar start_addr (start_addr + size) =
      { v with
        tx := if Covers start_addr size Uartlite.txFifo then
          v.tx ++ [byteAt start_addr buffer Uartlite.txFifo] else v.tx } := by
  rw [Uartlite.pushChar, end_toNat hin]
  by_cases hc : Covers start_addr size Uartlite.txFifo
  · rw [if_pos ⟨hc.1, Nat.le_of_lt hc.2⟩, if_pos hc, hregs, copyIn_of_covers hc]
  · rw [if_neg fun h => hc ⟨h.1, Nat.lt_of_le_of_ne h.2 (Ne.symm hne)⟩, if_neg hc]

/-- A write that ends at `control` resets what the register says. -/
theorem resetFifos_of_end (hin : start_addr.toNat + size.toNat ≤ 16)
    (hend : start_addr.toNat + size.toNat = Uartlite.control) {buffer : List Byte} {v : Uartlite}
    (hregs : v.regs = Uartlite.copyIn u.regs start_addr.toNat size.toNat buffer) :
    v.resetFifos start_addr (start_addr + size) =
      { v with
        tx := if u.rstTx then [] else v.tx
        rx := if u.rstRx then [] else v.rx } := by
  have hreset : start_addr.toNat ≤ Uartlite.control ∧
      Uartlite.control ≤ start_addr.toNat + size.toNat := by omega
  have hcontrol : v.regs Uartlite.control = u.regs Uartlite.control := by
    rw [hregs, copyIn_of_le (Nat.le_of_eq hend)]
  rw [Uartlite.resetFifos, end_toNat hin, if_pos hreset, Uartlite.rstTx, Uartlite.rstRx, hcontrol]
  rfl

/-- Any other write resets what the control word that it covers says. -/
theorem resetFifos_of_copy (hin : start_addr.toNat + size.toNat ≤ 16)
    (hne : start_addr.toNat + size.toNat ≠ Uartlite.control) {buffer : List Byte} {v : Uartlite}
    (hregs : v.regs = Uartlite.copyIn u.regs start_addr.toNat size.toNat buffer) :
    v.resetFifos start_addr (start_addr + size) =
      if Covers start_addr size Uartlite.control then
        { v with
          tx := if (byteAt start_addr buffer Uartlite.control).getLsbD 0 then [] else v.tx
          rx := if (byteAt start_addr buffer Uartlite.control).getLsbD 1 then [] else v.rx }
      else v := by
  rw [Uartlite.resetFifos, end_toNat hin]
  by_cases hc : Covers start_addr size Uartlite.control
  · rw [if_pos ⟨hc.1, Nat.le_of_lt hc.2⟩, if_pos hc, Uartlite.rstTx, Uartlite.rstRx, hregs,
      copyIn_of_covers hc]
  · rw [if_neg fun h => hc ⟨h.1, Nat.lt_of_le_of_ne h.2 (Ne.symm hne)⟩, if_neg hc]

/-- A reset changes nothing exactly where there is nothing to discard. -/
theorem discard_eq_self_iff {b : Bool} {l : List Byte} :
    (if b then [] else l) = l ↔ (b = true → l = []) := by
  cases b with
  | true => simp [eq_comm]
  | false => simp

/-- A write does what its bytes ask exactly where it is clean: the others send one character
too many, or obey a reset that was written before. -/
theorem write_asked_iff (hin : start_addr.toNat + size.toNat ≤ 16) (buffer delivered : List Byte) :
    (⟨(u.wrote start_addr size buffer).rx, (u.wrote start_addr size buffer).tx, delivered⟩ : Line)
        = Line.write ⟨u.rx, u.tx, delivered⟩ start_addr size buffer ↔
      start_addr.toNat + size.toNat ≠ Uartlite.txFifo ∧
        (start_addr.toNat + size.toNat = Uartlite.control →
          (u.rstTx = true → u.tx = [] ∧ Uartlite.txFifo < start_addr.toNat) ∧
            (u.rstRx = true → u.rx = [])) := by
  by_cases htx : start_addr.toNat + size.toNat = Uartlite.txFifo
  · have hno : ¬Covers start_addr size Uartlite.txFifo := fun h => Nat.ne_of_gt h.2 htx
    have hno' : ¬Covers start_addr size Uartlite.control := fun h =>
      absurd (htx ▸ h.2) (by decide)
    refine iff_of_false (fun h => ?_) fun h => h.1 htx
    have htx' := congrArg Line.tx h
    simp only [Line.write, if_neg hno, if_neg hno', wrote_tx_of_end hin htx] at htx'
    exact List.cons_ne_nil _ _ (List.append_right_eq_self.mp htx')
  · have hpush := pushChar_of_copy (u := u) (v := { u with
      regs := Uartlite.copyIn u.regs start_addr.toNat size.toNat buffer }) hin htx rfl
    rw [Uartlite.wrote, hpush, Line.write]
    by_cases hctl : start_addr.toNat + size.toNat = Uartlite.control
    · have hno : ¬Covers start_addr size Uartlite.control := fun h => Nat.ne_of_gt h.2 hctl
      rw [resetFifos_of_end (u := u) hin hctl rfl]
      have hcovers : Covers start_addr size Uartlite.txFifo ↔
          ¬Uartlite.txFifo < start_addr.toNat := by
        rw [Covers, hctl, Nat.not_lt]
        exact and_iff_left (by decide)
      have hempty : (if Covers start_addr size Uartlite.txFifo then
          u.tx ++ [byteAt start_addr buffer Uartlite.txFifo] else u.tx) = [] ↔
            u.tx = [] ∧ Uartlite.txFifo < start_addr.toNat := by
        by_cases hlt : Uartlite.txFifo < start_addr.toNat
        · rw [if_neg fun h => hcovers.mp h hlt, and_iff_left hlt]
        · rw [if_pos (hcovers.mpr hlt)]
          exact iff_of_false (by simp) fun h => hlt h.2
      dsimp only
      rw [if_neg hno, Line.mk.injEq, discard_eq_self_iff, discard_eq_self_iff, hempty]
      constructor
      · rintro ⟨hrx, htx', -⟩
        exact ⟨htx, fun _ => ⟨htx', hrx⟩⟩
      · rintro ⟨-, h⟩
        exact ⟨(h hctl).2, (h hctl).1, rfl⟩
    · rw [resetFifos_of_copy (u := u) hin hctl rfl]
      refine iff_of_true ?_ ⟨htx, fun h => absurd h hctl⟩
      dsimp only
      split
      · rfl
      · rfl

/-- The registers that a read shows do not matter to the queues. -/
theorem read_asked (delivered : List Byte) :
    (⟨({ u.showRx with wait_ack := false }.popRx start_addr (start_addr + size)).rx,
        ({ u.showRx with wait_ack := false }.popRx start_addr (start_addr + size)).tx,
        delivered⟩ : Line)
      = if start_addr = 0 then ⟨u.rx.tail, u.tx, delivered⟩ else ⟨u.rx, u.tx, delivered⟩ := by
  have hrx : u.showRx.rx = u.rx ∧ u.showRx.tx = u.tx := by
    rw [Uartlite.showRx]
    split
    · exact ⟨rfl, rfl⟩
    · exact ⟨rfl, rfl⟩
  have hzero : start_addr.toNat ≤ Uartlite.rxFifo ∧ Uartlite.rxFifo ≤ (start_addr + size).toNat ↔
      start_addr = 0 := by
    rw [and_iff_left (Nat.zero_le _), Nat.le_zero]
    exact BitVec.toNat_inj (y := 0)
  rw [Uartlite.popRx]
  by_cases h : start_addr = 0
  · rw [if_pos (hzero.mpr h), if_pos h, hrx.1, hrx.2]
  · rw [if_neg (mt hzero.mp h), if_neg h, hrx.1, hrx.2]

theorem call_write (hin : start_addr.toNat + size.toNat ≤ 16) (buffer : List Byte)
    (u : Uartlite) :
    (UartOp.write start_addr size buffer).call.run u
      = .ok none (u.wrote start_addr size buffer) := by
  rw [UartOp.call, EStateM.run_bind, run_doWrite hin]
  rfl

/-- One operation does as asked exactly where it is clean. -/
theorem op_asked_iff {op : UartOp} (hin : op.InRange) (hok : op.call.run u = .ok out u')
    (delivered : List Byte) :
    (⟨u'.rx, u'.tx, delivered ++ out.toList⟩ : Line) = op.asks ⟨u.rx, u.tx, delivered⟩ ↔
      (⟨op, u, out, u'⟩ : UartRecord).Clean := by
  cases op with
  | write start_addr size buffer =>
      rw [call_write hin] at hok
      cases hok
      rw [Option.toList_none, List.append_nil, UartOp.asks, write_asked_iff hin]
      constructor
      · rintro h _ _ _ ⟨⟩
        exact h
      · intro h
        exact h _ _ _ rfl
  | read start_addr size buffer =>
      obtain ⟨r, hr⟩ := run_doRead hin buffer u
      rw [UartOp.call, EStateM.run_bind, hr] at hok
      cases hok
      rw [Option.toList_none, List.append_nil, UartOp.asks, read_asked]
      exact iff_of_true rfl nofun
  | getc =>
      refine iff_of_true ?_ nofun
      obtain ⟨regs, rx, tx, wait_ack⟩ := u
      cases tx with
      | nil =>
          cases hok
          simp [UartOp.asks, Uartlite.existTx]
      | cons c tx =>
          cases hok
          rfl
  | putc c =>
      cases hok
      exact iff_of_true (by simp [UartOp.asks]) nofun

end Step

/-! ## Runs -/

section Run

variable {trace : List UartRecord} {u : Uartlite}

theorem lineAfter_snoc (u : Uartlite) (r : UartRecord) (u' : Uartlite) :
    lineAfter (trace ++ [r]) u'
      = ⟨u'.rx, u'.tx, (lineAfter trace u).delivered ++ r.out.toList⟩ := by
  rw [lineAfter, lineAfter, List.filterMap_append]
  cases hr : r.out <;> simp [hr]

theorem asked_snoc (r : UartRecord) :
    asked ((trace ++ [r]).map UartRecord.op) = r.op.asks (asked (trace.map UartRecord.op)) := by
  simp [asked]

/-- After a run that does as asked, the line is as asked. -/
theorem Faithful.line (h : Faithful trace) (hr : UartRun trace u) :
    lineAfter trace u = asked (trace.map UartRecord.op) := by
  cases hr with
  | new => rfl
  | step hr op hin hok => exact (each_snoc.mp h).2

/-- The device sends what it is asked to send exactly where its writes are clean. -/
theorem faithful_iff_clean (hr : UartRun trace u) : Faithful trace ↔ ∀ r ∈ trace, r.Clean := by
  induction hr with
  | new => exact iff_of_true each_nil (List.forall_mem_nil _)
  | @step trace u u' out hr op hin hok ih =>
      rw [List.forall_mem_append, List.forall_mem_singleton, ← ih, Faithful, each_snoc]
      refine and_congr_right fun h => ?_
      rw [lineAfter_snoc u, asked_snoc, ← Faithful.line h hr]
      exact op_asked_iff hin hok _

end Run

/-- A character is written and sent. -/
theorem faithful_iff_clean_sent :
    ∃ trace u, UartRun trace u ∧ Faithful trace ∧ (lineAfter trace u).delivered = [0x41] := by
  have hwrite := UartRun.new.step (.write 4 4 [0x41, 0, 0, 0])
    (show 4 + 4 ≤ 16 by decide) (call_write (by decide) _ _)
  have hrun := hwrite.step .getc trivial rfl
  refine ⟨_, _, hrun, (faithful_iff_clean hrun).mpr fun r hr => ?_, by decide⟩
  simp only [List.nil_append, List.mem_append, List.mem_singleton] at hr
  rcases hr with rfl | rfl
  · rintro _ _ _ ⟨⟩
    decide
  · exact nofun

/-- A write of `rx_fifo` alone queues a character. -/
theorem pushed_past_end : ∃ trace u, UartRun trace u ∧ ¬Faithful trace := by
  have hrun := UartRun.new.step (.write 0 4 [0, 0, 0, 0])
    (show 0 + 4 ≤ 16 by decide) (call_write (by decide) _ _)
  refine ⟨_, _, hrun, fun h => ?_⟩
  have htx := congrArg Line.tx (h.line hrun)
  exact absurd htx (by decide)

/-! ## The adapter -/

section Adapter

variable {trace : List UartRecord} {a : CemuUartAdapter}

/-- `Step_MMIODev_API` sends all that is queued, by drains of the device. -/
theorem send_drains (n : Nat) (hr : UartRun trace a.cemuUartliteDev)
    (hn : a.cemuUartliteDev.tx.length ≤ n) :
    ∃ new a', (CemuUartAdapter.send n).run a = .ok () a' ∧
      UartRun (trace ++ new) a'.cemuUartliteDev ∧ a'.cemuUartliteDev.tx = [] ∧
      a'.char_dev_file = a.char_dev_file ++ new.filterMap UartRecord.out := by
  induction n generalizing trace a with
  | zero =>
      refine ⟨[], a, rfl, ?_, List.length_eq_zero_iff.mp (Nat.le_zero.mp hn), ?_⟩
      · rwa [List.append_nil]
      · rw [List.filterMap_nil, List.append_nil]
  | succ n ih =>
      obtain ⟨addrRegionSize, ⟨regs, rx, tx, wait_ack⟩, char_dev_file⟩ := a
      cases tx with
      | nil =>
          refine ⟨[], _, rfl, ?_, rfl, ?_⟩
          · rwa [List.append_nil]
          · rw [List.filterMap_nil, List.append_nil]
      | cons c tx =>
          have hget := hr.step .getc trivial rfl
          obtain ⟨new, a', hrun, hr', htx, hfile⟩ := ih
            (a := ⟨addrRegionSize, ⟨regs, rx, tx, wait_ack || tx.isEmpty⟩, char_dev_file ++ [c]⟩)
            hget (Nat.le_of_succ_le_succ hn)
          refine ⟨⟨.getc, ⟨regs, rx, c :: tx, wait_ack⟩, some c,
            ⟨regs, rx, tx, wait_ack || tx.isEmpty⟩⟩ :: new, a', hrun, ?_, htx, ?_⟩
          · rw [List.append_cons]
            exact hr'
          · rw [hfile, List.append_assoc]
            rfl

theorem receive_puts (read : List Byte) (hr : UartRun trace a.cemuUartliteDev) :
    ∃ new a', (CemuUartAdapter.receive read).run a = .ok () a' ∧
      UartRun (trace ++ new) a'.cemuUartliteDev ∧
      a'.cemuUartliteDev.tx = a.cemuUartliteDev.tx ∧
      a'.char_dev_file = a.char_dev_file ∧ new.filterMap UartRecord.out = [] := by
  induction read generalizing trace a with
  | nil =>
      refine ⟨[], a, rfl, ?_, rfl, rfl, rfl⟩
      rwa [List.append_nil]
  | cons c rest ih =>
      obtain ⟨addrRegionSize, ⟨regs, rx, tx, wait_ack⟩, char_dev_file⟩ := a
      have hput := hr.step (.putc c) trivial rfl
      obtain ⟨new, a', hrun, hr', htx, hfile, hnew⟩ := ih
        (a := ⟨addrRegionSize, ⟨regs, rx ++ [c], tx, wait_ack⟩, char_dev_file⟩) hput
      refine ⟨⟨.putc c, ⟨regs, rx, tx, wait_ack⟩, none, ⟨regs, rx ++ [c], tx, wait_ack⟩⟩ :: new, a',
        hrun, ?_, htx, hfile, ?_⟩
      · rw [List.append_cons]
        exact hr'
      · rw [List.filterMap_cons]
        exact hnew

/-- A step of the adapter is a run of the device, which puts to the character device what it
delivers. -/
theorem stepMMIODev_run (hr : UartRun trace a.cemuUartliteDev) (read : List Byte) :
    ∃ new a', (CemuUartAdapter.stepMMIODev read).run a = .ok .ok a' ∧
      UartRun (trace ++ new) a'.cemuUartliteDev ∧ a'.cemuUartliteDev.tx = [] ∧
      a'.char_dev_file = a.char_dev_file ++ new.filterMap UartRecord.out := by
  obtain ⟨sent, a₁, hsend, hr₁, htx₁, hfile₁⟩ := send_drains _ hr (Nat.le_refl _)
  obtain ⟨put, a₂, hput, hr₂, htx₂, hfile₂, hnone⟩ := receive_puts (read.take 32) hr₁
  refine ⟨sent ++ put, a₂, ?_, ?_, htx₂.trans htx₁, ?_⟩
  · rw [CemuUartAdapter.stepMMIODev, EStateM.run_bind, EStateM.run_get]
    dsimp only
    rw [EStateM.run_bind, hsend]
    dsimp only
    rw [EStateM.run_bind, hput]
    rfl
  · rwa [← List.append_assoc]
  · rw [hfile₂, hfile₁, List.filterMap_append, hnone, List.append_nil]

end Adapter

end MEmu
