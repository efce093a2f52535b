import MEmu.Mmu
import MEmu.Lib.Run

/-!
# The serial port

`uartlite`, a block of four registers in front of a receive and a transmit queue, and
`CemuUartAdapter`, which puts it on the bus and moves characters between the queues and a
character device.  The registers are the bytes of `uartlite_regs`, because an access copies
any of them.  The locks make each method one step.
-/

namespace MEmu

open Run (Sat)

/-- `uartlite`. -/
structure Uartlite where
  /-- The bytes of `uartlite_regs`. -/
  regs : Nat → Byte
  rx : List Byte
  tx : List Byte
  wait_ack : Bool

/-- A computation on the device. -/
abbrev UartM := EStateM Abort Uartlite

namespace Uartlite

/-- The offsets of the registers, and `sizeof(regs)`. -/
abbrev rxFifo : Nat := 0
abbrev txFifo : Nat := 4
abbrev status : Nat := 8
abbrev control : Nat := 12
abbrev sizeofRegs : Word := 16

/-- The constructor: `status` is `SR_TX_FIFO_EMPTY`. -/
def new : Uartlite :=
  { regs := fun i => if i = status then 0x04 else 0
    rx := []
    tx := []
    wait_ack := false }

/-- `ULITE_CONTROL_RST_TX` is set in `control`. -/
def rstTx (u : Uartlite) : Bool := (u.regs control).getLsbD 0

/-- `ULITE_CONTROL_RST_RX` is set in `control`. -/
def rstRx (u : Uartlite) : Bool := (u.regs control).getLsbD 1

/-- `rx_fifo` set to a `char`, which is signed. -/
def setRxFifo (u : Uartlite) (c : Byte) : Uartlite :=
  { u with regs := fun i => if i < 4 then (c.signExtend 32).extractLsb' (8 * i) 8 else u.regs i }

/-- `SR_RX_FIFO_VALID_DATA` of `status`. -/
def setValidData (u : Uartlite) (valid : Bool) : Uartlite :=
  { u with
    regs := fun i =>
      if i = status then (if valid then u.regs i ||| 0x01 else u.regs i &&& ~~~0x01) else u.regs i }

/-- `std::min(size, sizeof(regs) - start_addr)`. -/
def copied (start_addr size : Word) : Nat :=
  if size ≤ sizeofRegs - start_addr then size.toNat else (sizeofRegs - start_addr).toNat

/-- The registers after `n` bytes from `start` are taken from the buffer. -/
def copyIn (regs : Nat → Byte) (start n : Nat) (buffer : List Byte) : Nat → Byte := fun i =>
  if start ≤ i ∧ i < start + n then buffer.getD (i - start) 0 else regs i

/-- The update of the registers by `do_read`. -/
def showRx (u : Uartlite) : Uartlite :=
  match u.rx with
  | c :: _ => (u.setValidData true).setRxFifo c
  | [] => u.setValidData false

/-- The pop of `do_read`. -/
def popRx (u : Uartlite) (start_addr stop_addr : Word) : Uartlite :=
  if start_addr.toNat ≤ rxFifo ∧ rxFifo ≤ stop_addr.toNat then { u with rx := u.rx.tail } else u

/-- `do_read`: whether the access is answered, and the buffer after it. -/
def doRead (start_addr size : Word) (buffer : List Byte) : UartM (Bool × List Byte) := do
  if sizeofRegs < start_addr + size then pure (false, buffer)
  else
    modify showRx
    let n := copied start_addr size
    cassert (start_addr.toNat + n ≤ 16) .outOfBuffer
    let u ← get
    let read := (List.range n).map fun i => u.regs (start_addr.toNat + i)
    modify fun u => { u with wait_ack := false }
    modify fun u => u.popRx start_addr (start_addr + size)
    pure (true, read ++ buffer.drop n)

/-- The push of `do_write`.  The end of the access counts as covered. -/
def pushChar (u : Uartlite) (start_addr stop_addr : Word) : Uartlite :=
  if start_addr.toNat ≤ txFifo ∧ txFifo ≤ stop_addr.toNat then
    { u with tx := u.tx ++ [u.regs txFifo] }
  else u

/-- The resets of `do_write`, by the control word as it is then. -/
def resetFifos (u : Uartlite) (start_addr stop_addr : Word) : Uartlite :=
  if start_addr.toNat ≤ control ∧ control ≤ stop_addr.toNat then
    { u with
      tx := if u.rstTx then [] else u.tx
      rx := if u.rstRx then [] else u.rx }
  else u

/-- `do_write`: whether the access is answered. -/
def doWrite (start_addr size : Word) (buffer : List Byte) : UartM Bool := do
  if sizeofRegs < start_addr + size then pure false
  else
    let n := copied start_addr size
    cassert (start_addr.toNat + n ≤ 16) .outOfBuffer
    modify fun u => { u with regs := copyIn u.regs start_addr.toNat n buffer }
    modify fun u => u.pushChar start_addr (start_addr + size)
    modify fun u => u.resetFifos start_addr (start_addr + size)
    pure true

/-- `putc`. -/
def putc (c : Byte) : UartM Unit := modify fun u => { u with rx := u.rx ++ [c] }

/-- `getc`, which returns `EOF` where there is nothing to send. -/
def getc : UartM Byte := modifyGet fun u =>
  match u.tx with
  | c :: tx => (c, { u with tx := tx, wait_ack := u.wait_ack || tx.isEmpty })
  | [] => (0xff, u)

/-- `exist_tx`. -/
def existTx (u : Uartlite) : Bool := !u.tx.isEmpty

/-- `irq`. -/
def irq (u : Uartlite) : Bool := !u.rx.isEmpty || u.wait_ack

end Uartlite

/-! ## The adapter -/

/-- `CemuUartAdapter`, with the characters that it has put to `char_dev_file`. -/
structure CemuUartAdapter where
  addrRegionSize : Word
  cemuUartliteDev : Uartlite
  char_dev_file : List Byte

namespace CemuUartAdapter

/-- The adapter that `GetInstance_API` makes. -/
def new : CemuUartAdapter :=
  { addrRegionSize := 1024 * 1024
    cemuUartliteDev := .new
    char_dev_file := [] }

/-- A computation on the device, on the one of the adapter. -/
def onDev {α : Type} (x : UartM α) : EStateM Abort CemuUartAdapter α := fun a =>
  match x.run a.cemuUartliteDev with
  | .ok r u => .ok r { a with cemuUartliteDev := u }
  | .error e u => .error e { a with cemuUartliteDev := u }

theorem onDev_sat {α : Type} {x : UartM α} {a : CemuUartAdapter}
    {Q : α → CemuUartAdapter → Prop} {E : Abort → CemuUartAdapter → Prop}
    (h : Sat a.cemuUartliteDev x (fun r u => Q r { a with cemuUartliteDev := u })
      (fun e u => E e { a with cemuUartliteDev := u })) : Sat a (onDev x) Q E := by
  have hrun : (onDev x).run a = match x.run a.cemuUartliteDev with
      | .ok r u => .ok r { a with cemuUartliteDev := u }
      | .error e u => .error e { a with cemuUartliteDev := u } := rfl
  exact .part (fun r u hr => by rw [hrun, hr]) (fun e u hr => by rw [hrun, hr]) h

/-- `ReadBuffer_MMIODev_API`.  An access outside the region fails an assertion. -/
def readBuffer (begin_addr size : Word) (buffer : List Byte) :
    EStateM Abort CemuUartAdapter (FuncReturnFeedback × List Byte) := do
  let a ← get
  cassert (begin_addr + size ≤ a.addrRegionSize) .outOfBuffer
  let r ← onDev (Uartlite.doRead begin_addr size buffer)
  pure (if r.1 then .ok else .unknown, r.2)

/-- `WriteBuffer_MMIODev_API`. -/
def writeBuffer (begin_addr size : Word) (buffer : List Byte) :
    EStateM Abort CemuUartAdapter FuncReturnFeedback := do
  let a ← get
  cassert (begin_addr + size ≤ a.addrRegionSize) .outOfBuffer
  let feedback ← onDev (Uartlite.doWrite begin_addr size buffer)
  pure (if feedback then .ok else .unknown)

instance : MMIODevI CemuUartAdapter where
  readBuffer := readBuffer
  writeBuffer := writeBuffer

/-- The loop of `Step_MMIODev_API` that sends, for as long as there is something to send.  Nothing
is added meanwhile, so it turns as often as there are characters. -/
def send : Nat → EStateM Abort CemuUartAdapter Unit
  | 0 => pure ()
  | n + 1 => do
      let a ← get
      if a.cemuUartliteDev.existTx then
        let c ← onDev Uartlite.getc
        modify fun a => { a with char_dev_file := a.char_dev_file ++ [c] }
        send n
      else pure ()

/-- The loop of `Step_MMIODev_API` over the characters that were read. -/
def receive : List Byte → EStateM Abort CemuUartAdapter Unit
  | [] => pure ()
  | c :: rest => do
      onDev (Uartlite.putc c)
      receive rest

/-- `Step_MMIODev_API`, where `read` is what the character device has to read, up to the 32 bytes
of `uartBuffer`. -/
def stepMMIODev (read : List Byte) : EStateM Abort CemuUartAdapter FuncReturnFeedback := do
  let a ← get
  send a.cemuUartliteDev.tx.length
  receive (read.take 32)
  pure .ok

end CemuUartAdapter

end MEmu
