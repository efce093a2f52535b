import MEmu.Receive
import MEmu.PlatformInterrupts

/-!
# The console of the platform

What the harts ask of the serial port, as one line of characters: the port is shared, and both
harts queue their characters in the one order of their accesses.  Every hundredth turn
sends what is queued to the character device and brings what that has to read.  As long as no
write ends at a register that it does not cover, the port does as asked (`console`).
-/

namespace MEmu

open Labelled (Steps)
open MEmuMMIOBus
open Run (Sat)
open Trace (Each each_nil)

/-! ## What a move asks of the queues -/

/-- The line of the port. -/
def CemuUartAdapter.line (a : CemuUartAdapter) : Line :=
  { rx := a.cemuUartliteDev.rx
    tx := a.cemuUartliteDev.tx
    delivered := a.char_dev_file }

namespace DevMove

/-- What the move asks: an access past the registers is refused and asks nothing. -/
def asks (l : Line) : DevMove → Line
  | .access (.read off size _ _) =>
      if off.toNat + size.toNat ≤ 16 then
        if off = 0 then { l with rx := l.rx.tail } else l
      else l
  | .access (.write off size data) =>
      if off.toNat + size.toNat ≤ 16 then l.write off size data else l
  | .call (.stepMMIODev read) =>
      { rx := l.rx ++ read.take 32
        tx := []
        delivered := l.delivered ++ l.tx }
  | .call (.updateIntState _ _ _) => l

/-- A write ends neither at `tx_fifo` nor at `control`. -/
def Clean : DevMove → Prop
  | .access (.write off size _) =>
      off.toNat + size.toNat ≠ Uartlite.txFifo ∧ off.toNat + size.toNat ≠ Uartlite.control
  | _ => True

/-- An access has a byte and does not wrap. -/
def Fits : DevMove → Prop
  | .access (.read off size _ _) | .access (.write off size _) =>
      1 ≤ size.toNat ∧ off.toNat + size.toNat < 2 ^ 64
  | .call _ => True

/-- What a read gets while the line is `l`: at offset 0 the character that waits, and in `status`
whether there is one. -/
def ReadsLine (l : Line) : DevMove → Prop
  | .access (.read off size _ data) => off.toNat + size.toNat ≤ 16 →
      (∀ c rest, off = 0 → l.rx = c :: rest → data.getD 0 0 = c) ∧
        (Covers off size Uartlite.status →
          ((data.getD (Uartlite.status - off.toNat) 0).getLsbD 0 = true ↔ l.rx ≠ []))
  | _ => True

end DevMove

/-! ## What a move does -/

section Device

variable {u u' : CemuUartAdapter} {a : DevMove} {moves : List DevMove} {off size : Word}

/-- An access past the registers is refused. -/
theorem past_regs (hfits : off.toNat + size.toNat < 2 ^ 64)
    (hout : ¬off.toNat + size.toNat ≤ 16) : Uartlite.sizeofRegs < off + size := by
  rw [BitVec.lt_def, BitVec.toNat_add, Nat.mod_eq_of_lt hfits]
  exact Nat.lt_of_not_le hout

/-- A read that returns is one of the device. -/
theorem uart_readBuffer_ok {buffer : List Byte} {r : FuncReturnFeedback × List Byte}
    (hr : (CemuUartAdapter.readBuffer off size buffer).run u = .ok r u') :
    (∃ b, (Uartlite.doRead off size buffer).run u.cemuUartliteDev
      = .ok (b, r.2) u'.cemuUartliteDev) ∧ u'.char_dev_file = u.char_dev_file := by
  have hsat : Sat u (CemuUartAdapter.readBuffer off size buffer)
      (fun r u' => (∃ b, (Uartlite.doRead off size buffer).run u.cemuUartliteDev
        = .ok (b, r.2) u'.cemuUartliteDev) ∧ u'.char_dev_file = u.char_dev_file)
      (fun _ _ => True) := by
    refine .bind (.get (.bind (cassert_sat (fun _ => .bind (CemuUartAdapter.onDev_sat ?_))
      fun _ => trivial)))
    exact .intro (fun r v hread => .pure ⟨⟨r.1, hread⟩, rfl⟩) fun _ _ _ => trivial
  exact hsat.ok hr

/-- A write that the bus delivers is one of the device. -/
theorem uart_writeBuffer_ok {data : List Byte} {fb : FuncReturnFeedback}
    (hr : (CemuUartAdapter.writeBuffer off size data).run u = .ok fb u') :
    (∃ b, (Uartlite.doWrite off size data).run u.cemuUartliteDev = .ok b u'.cemuUartliteDev) ∧
      u'.char_dev_file = u.char_dev_file := by
  have hsat : Sat u (CemuUartAdapter.writeBuffer off size data)
      (fun _ u' => (∃ b, (Uartlite.doWrite off size data).run u.cemuUartliteDev
        = .ok b u'.cemuUartliteDev) ∧ u'.char_dev_file = u.char_dev_file) (fun _ _ => True) := by
    refine .bind (.get (.bind (cassert_sat (fun _ => .bind (CemuUartAdapter.onDev_sat ?_))
      fun _ => trivial)))
    exact .intro (fun b v hwrite => .pure ⟨⟨b, hwrite⟩, rfl⟩) fun _ _ _ => trivial
  exact hsat.ok hr

/-- The loop that sends leaves nothing queued. -/
theorem run_send (n : Nat) (hn : u.cemuUartliteDev.tx.length ≤ n) :
    ∃ u', (CemuUartAdapter.send n).run u = .ok () u' ∧
      u'.line = { u.line with tx := [], delivered := u.line.delivered ++ u.line.tx } := by
  induction n generalizing u with
  | zero =>
      refine ⟨u, rfl, ?_⟩
      have htx := List.length_eq_zero_iff.mp (Nat.le_zero.mp hn)
      simp only [CemuUartAdapter.line, htx, List.append_nil]
  | succ n ih =>
      obtain ⟨addrRegionSize, ⟨regs, rx, tx, wait_ack⟩, char_dev_file⟩ := u
      cases tx with
      | nil => exact ⟨_, rfl, by simp only [CemuUartAdapter.line, List.append_nil]⟩
      | cons c tx =>
          obtain ⟨u', hrun, hline⟩ := ih
            (u := ⟨addrRegionSize, ⟨regs, rx, tx, wait_ack || tx.isEmpty⟩, char_dev_file ++ [c]⟩)
            (Nat.le_of_succ_le_succ hn)
          refine ⟨u', hrun, hline.trans ?_⟩
          simp only [CemuUartAdapter.line, List.append_assoc, List.singleton_append]

/-- The loop that receives queues what was read. -/
theorem run_receive (read : List Byte) :
    ∃ u', (CemuUartAdapter.receive read).run u = .ok () u' ∧
      u'.line = { u.line with rx := u.line.rx ++ read } := by
  induction read generalizing u with
  | nil => exact ⟨u, rfl, by simp only [List.append_nil]⟩
  | cons c rest ih =>
      obtain ⟨addrRegionSize, ⟨regs, rx, tx, wait_ack⟩, char_dev_file⟩ := u
      obtain ⟨u', hrun, hline⟩ := ih
        (u := ⟨addrRegionSize, ⟨regs, rx ++ [c], tx, wait_ack⟩, char_dev_file⟩)
      refine ⟨u', hrun, hline.trans ?_⟩
      simp only [CemuUartAdapter.line, List.append_assoc, List.singleton_append]

/-- The service of the device does with its line what it asks. -/
theorem stepMMIODev_line {read : List Byte} {fb : FuncReturnFeedback}
    (hr : (CemuUartAdapter.stepMMIODev read).run u = .ok fb u') :
    u'.line = DevMove.asks u.line (.call (.stepMMIODev read)) := by
  obtain ⟨u₁, hsend, hline₁⟩ := run_send (u := u) _ (Nat.le_refl _)
  obtain ⟨u₂, hreceive, hline₂⟩ := run_receive (u := u₁) (read.take 32)
  have hrun : (CemuUartAdapter.stepMMIODev read).run u = .ok .ok u₂ := by
    rw [CemuUartAdapter.stepMMIODev, EStateM.run_bind, EStateM.run_get]
    dsimp only
    rw [EStateM.run_bind, hsend]
    dsimp only
    rw [EStateM.run_bind, hreceive]
    rfl
  cases hrun.symm.trans hr
  rw [hline₂, hline₁, DevMove.asks]

/-- A clean move does as asked. -/
theorem UartMove.line (h : UartMove u a u') (hfits : a.Fits) (hclean : a.Clean) :
    u'.line = a.asks u.line := by
  cases h with
  | @read off size buffer data fb _ hr =>
      obtain ⟨⟨b, hread⟩, hfile⟩ := uart_readBuffer_ok hr
      rw [DevMove.asks]
      by_cases hin : off.toNat + size.toNat ≤ 16
      · obtain ⟨r, hrun⟩ := run_doRead hin buffer u.cemuUartliteDev
        have hdev := (EStateM.Result.ok.inj (hrun.symm.trans hread)).2
        rw [if_pos hin]
        show (⟨_, _, _⟩ : Line) = _
        rw [← hdev, hfile, read_asked]
        rfl
      · rw [Uartlite.doRead, if_pos (past_regs hfits.2 hin)] at hread
        rw [if_neg hin]
        show (⟨_, _, _⟩ : Line) = _
        rw [← (EStateM.Result.ok.inj hread).2, hfile]
        rfl
  | @write off size data fb _ hr =>
      obtain ⟨⟨b, hwrite⟩, hfile⟩ := uart_writeBuffer_ok hr
      rw [DevMove.asks]
      by_cases hin : off.toNat + size.toNat ≤ 16
      · rw [run_doWrite hin] at hwrite
        rw [if_pos hin]
        show (⟨_, _, _⟩ : Line) = _
        rw [← (EStateM.Result.ok.inj hwrite).2, hfile]
        exact (write_asked_iff hin data u.char_dev_file).mpr
          ⟨hclean.1, fun hend => absurd hend hclean.2⟩
      · rw [Uartlite.doWrite, if_pos (past_regs hfits.2 hin)] at hwrite
        rw [if_neg hin]
        show (⟨_, _, _⟩ : Line) = _
        rw [← (EStateM.Result.ok.inj hwrite).2, hfile]
        rfl
  | update => rfl
  | step hr => exact stepMMIODev_line hr

/-- What a read gets. -/
theorem UartMove.readsLine (h : UartMove u a u') (hfits : a.Fits) : a.ReadsLine u.line := by
  cases h with
  | @read off size buffer data fb _ hr =>
      intro hin
      obtain ⟨⟨b, hread⟩, -⟩ := uart_readBuffer_ok hr
      obtain ⟨out, v, hrun, hout, -⟩ := run_read hin buffer u.cemuUartliteDev
      have hcall : (RxOp.read off size buffer).call.run u.cemuUartliteDev
          = .ok data u'.cemuUartliteDev := by
        rw [RxOp.call, EStateM.run_bind, hread]
        rfl
      have hdata := (EStateM.Result.ok.inj (hrun.symm.trans hcall)).1
      rw [← hdata]
      refine ⟨fun c rest hzero hrx => ?_, fun hcovers => ?_⟩
      · subst hzero
        exact (hout 0 hfits.1).trans (showRx_rxFifo hrx)
      · have hlt : Uartlite.status - off.toNat < size.toNat := by
          have hle := hcovers.1
          have hlt := hcovers.2
          omega
        rw [hout _ hlt, Nat.add_sub_cancel' hcovers.1]
        exact showRx_status u.cemuUartliteDev
  | write | update | step => trivial

/-- The port does as asked over a run of clean moves. -/
theorem uart_line (h : Steps UartMove u moves u') (hfits : ∀ a ∈ moves, a.Fits)
    (hclean : ∀ a ∈ moves, a.Clean) :
    u'.line = moves.foldl DevMove.asks u.line ∧
      Each (fun pre a => a.ReadsLine (pre.foldl DevMove.asks u.line)) moves := by
  induction h with
  | nil => exact ⟨rfl, each_nil⟩
  | snoc _ hmove ih =>
      obtain ⟨hfits, hfit⟩ := List.forall_mem_append.mp hfits
      obtain ⟨hclean, hcl⟩ := List.forall_mem_append.mp hclean
      have hfit := hfit _ List.mem_cons_self
      obtain ⟨hline, heach⟩ := ih hfits hclean
      refine ⟨?_, heach.snoc (hline ▸ hmove.readsLine hfit)⟩
      rw [hmove.line hfit (hcl _ List.mem_cons_self), hline, List.foldl_append]
      rfl

end Device

/-! ## Runs -/

namespace DefaultPlatform

/-- What happens to the serial port. -/
abbrev uartMoves (events : List PlatformEvent) : List DevMove :=
  events.filterMap (PlatformEvent.concerns uartlite)

/-- The line of the port after some events that do as asked. -/
def consoleAt (events : List PlatformEvent) : Line :=
  (uartMoves events).foldl DevMove.asks ⟨[], [], []⟩

section Runs

variable {memData : Nat → Byte} {beyond : Nat → List Byte} {bin_data : List Byte}
  {turns : List Turn} {p p' : DefaultPlatform} {t : Turn}

/-- Every access of a turn is of one to eight bytes. -/
theorem TurnEffect.size {read : List Byte} {new : List PlatformEvent}
    (h : TurnEffect p read p' new) {k : HartId} {e : BusEvent} (he : .access k e ∈ new) :
    AtMostWord e.access.size := by
  cases h with
  | mk _ _ hcore0 hcore1 hserved _ _ _ =>
      cases k with
      | core0 => exact hcore0.events.size e (by simpa [hserved.no_access] using he)
      | core1 => exact hcore1.events.size e (by simpa [hserved.no_access] using he)

/-- Every access of a run is of a word at most. -/
theorem Reaches.size (h : Reaches memData beyond bin_data turns p) {k : HartId} {e : BusEvent}
    (he : .access k e ∈ trace turns) : AtMostWord e.access.size := by
  obtain ⟨hsize, hbuilt, hturns⟩ := h
  obtain ⟨t, ht, he⟩ := List.mem_flatMap.mp he
  obtain ⟨p, p', htakes⟩ := hturns.mem ht
  exact htakes.effect.size he

/-- The offsets of the serial port lie in its region. -/
theorem offset_uartlite {addr : Word} (h : deviceAt addr = some uartlite) :
    (addr - (regionOf uartlite).1).toNat ≤ 0x100000 := by
  have hin : 0x60100000 ≤ addr ∧ addr ≤ 0x60200000 := by
    unfold deviceAt at h
    split at h
    · cases h
    split at h
    · cases h
    split at h
    · assumption
    split at h
    · cases h
    · cases h
  rw [show (regionOf uartlite).1 = 0x60100000 from rfl, BitVec.toNat_sub_of_le hin.1]
  exact Nat.sub_le_sub_right (BitVec.le_def.mp hin.2) _

/-- No access of the port wraps. -/
theorem Reaches.fits (h : Reaches memData beyond bin_data turns p) :
    ∀ a ∈ uartMoves (trace turns), a.Fits := by
  intro a ha
  obtain ⟨e, he, hconcerns⟩ := List.mem_filterMap.mp ha
  cases e with
  | call k c =>
      rw [PlatformEvent.concerns] at hconcerns
      split at hconcerns <;> cases hconcerns
      trivial
  | access k e =>
      obtain ⟨hat, rfl⟩ := PlatformEvent.concerns_access.mp hconcerns
      have hsize := h.size he
      have hoff := offset_uartlite hat
      cases e <;> exact ⟨hsize.1, Nat.lt_of_le_of_lt (Nat.add_le_add hoff hsize.2) (by decide)⟩

/-- In every run in which no write ends at `tx_fifo` or at `control` the serial port does what the
accesses of both harts and the services of the platform ask, in the order of the trace, and every
read of it gets what waits then. -/
theorem console (h : Reaches memData beyond bin_data turns p)
    (hclean : ∀ a ∈ uartMoves (trace turns), a.Clean) :
    (∃ u, (p.sysBus.obj uartlite).dev = .inr (.uartlite u) ∧ u.line = consoleAt (trace turns)) ∧
      Each (fun pre e => ∀ a, e.concerns uartlite = some a → a.ReadsLine (consoleAt pre))
        (trace turns) := by
  obtain ⟨u, hu, hrun⟩ := uart_run h
  obtain ⟨hline, heach⟩ := uart_line hrun h.fits hclean
  exact ⟨⟨u, hu, hline⟩, heach.of_filterMap⟩

/-- `lui x1, 0x60100; addi x2, x0, 0x41; sw x2, 4(x1); lw x3, 0(x1); j .-4` -/
def letterImage : List Byte :=
  [0xb7, 0x00, 0x10, 0x60, 0x13, 0x01, 0x10, 0x04, 0x23, 0xa2, 0x20, 0x00, 0x83, 0xa1, 0x00, 0x00,
    0x6f, 0xf0, 0xdf, 0xff]

/-- The character device has a letter to read when it is served. -/
def letterReads : List (List Byte) := List.replicate 99 [] ++ [[0x42], [], [], []]

/-- Both letters have been delivered and the other one read, and the harts have written nothing
else to the port. -/
def exchangedLetters (p : DefaultPlatform) : Bool :=
  p.log.all (fun r => decide (deviceAt r.2.addr = some uartlite → r.2.kind.isWrite = true →
    r.2.addr = 0x60100004 ∧ r.2.size = 4)) &&
  (match (p.sysBus.obj uartlite).dev with
    | .inr (.uartlite u) => u.char_dev_file == [0x41, 0x41]
    | _ => false) &&
  (p.hart .core0).core.GPR 3 == 0x42

theorem console_letter :
    ∃ turns p, Reaches (fun _ => 0) (fun _ => []) letterImage turns p ∧
      turns.map Turn.read = letterReads ∧ exchangedLetters p = true ∧
      (∃ u, (p.sysBus.obj uartlite).dev = .inr (.uartlite u) ∧ u.line = consoleAt (trace turns)) ∧
        Each (fun pre e => ∀ a, e.concerns uartlite = some a → a.ReadsLine (consoleAt pre))
          (trace turns) := by
  obtain ⟨turns, p, hreads, hq, h⟩ := exists_reaches (fun _ => 0) (fun _ => []) letterImage
    (fun _ => ⟨default, .construct default⟩) letterReads exchangedLetters (by decide)
    (by decide +kernel)
  refine ⟨turns, p, h, hreads, hq, console h fun a ha => ?_⟩
  cases a with
  | call c => trivial
  | access a =>
      obtain ⟨hart, e, rfl, hat, ⟨b, b', hstep⟩, hlog⟩ := h.access_log ha
      rw [exchangedLetters, Bool.and_eq_true, Bool.and_eq_true, List.all_eq_true] at hq
      have hone := of_decide_eq_true (hq.1.1 _ hlog) hat
      cases hstep with
      | read => trivial
      | @write _ kind addr size data fb hkind =>
          obtain ⟨haddr, hsize⟩ := hone hkind
          obtain rfl : addr = 0x60100004 := haddr
          obtain rfl : size = 4 := hsize
          exact ⟨by decide, by decide⟩

end Runs

end DefaultPlatform

end MEmu
