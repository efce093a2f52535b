import MEmu.BusEvents
import MEmu.Clint
import MEmu.Plic
import MEmu.Refusals
import MEmu.Registers
import MEmu.Reservation
import MEmu.Transmit

/-!
# The default platform

`DefaultPlatform`: two cores over one bus with RAM, a serial port and the two interrupt
controllers.  The constructor places the image, maps the devices and wires the interrupts.
The loop of `Run_Platform_API` then takes its turns for ever: both controllers update the
interrupt lines, each core makes a step, and every hundredth turn serves the serial port.

The controllers hold pointers to the interrupt lines of the cores.  Here the lines are
those of the cores, and an update is given them and hands them back.
-/

namespace MEmu

open MEmuMMIOBus (callDev)

/-! ## The devices -/

/-- The devices beside RAM.  `CemuPlicAdapter` reads a word of every buffer that it is given to
write, and `beyond` is what lies in memory behind the buffers, in the order of the writes. -/
inductive Peripheral where
  | uartlite (a : CemuUartAdapter)
  | rvCLInt (a : CemuClintAdapter)
  | rvPLIC (a : CemuPlicAdapter) (beyond : Nat → List Byte)

/-- The devices of the platform. -/
abbrev PlatformDev := MMIOMem ⊕ Peripheral

namespace Peripheral

/-- A call of a method of a device object.  The ways in which a device ends the process are one
to the bus. -/
def call {ε σ τ α : Type} (put : σ → τ) (a : σ) (x : EStateM ε σ α) : EStateM Abort τ α := fun _ =>
  match x.run a with
  | .ok r a' => .ok r (put a')
  | .error _ a' => .error .outOfBuffer (put a')

/-- The first word of a buffer. -/
def bufferWord (buffer : List Byte) : BitVec 32 := (Bytes.toWord (buffer.take 4)).setWidth 32

/-- `ReadBuffer_MMIODev_API`. -/
def readBuffer (begin_addr size : Word) (buffer : List Byte) :
    EStateM Abort Peripheral (FuncReturnFeedback × List Byte) := do
  match ← get with
  | .uartlite a => call .uartlite a (CemuUartAdapter.readBuffer begin_addr size buffer)
  | .rvCLInt a => call .rvCLInt a (CemuClintAdapter.readBuffer begin_addr size buffer)
  | .rvPLIC a beyond =>
      let r ← call (.rvPLIC · beyond) a
        (CemuPlicAdapter.readBuffer begin_addr size (bufferWord buffer))
      pure (r.1, if r.1 = .ok then Bytes.ofWord 4 (r.2.setWidth 64) ++ buffer.drop 4 else buffer)

/-- `WriteBuffer_MMIODev_API`. -/
def writeBuffer (begin_addr size : Word) (buffer : List Byte) :
    EStateM Abort Peripheral FuncReturnFeedback := do
  match ← get with
  | .uartlite a => call .uartlite a (CemuUartAdapter.writeBuffer begin_addr size buffer)
  | .rvCLInt a => call .rvCLInt a (CemuClintAdapter.writeBuffer begin_addr size buffer)
  | .rvPLIC a beyond =>
      call (.rvPLIC · fun n => beyond (n + 1)) a
        (CemuPlicAdapter.writeBuffer begin_addr size (bufferWord (buffer ++ beyond 0)))

instance : MMIODevI Peripheral where
  readBuffer := readBuffer
  writeBuffer := writeBuffer

end Peripheral

namespace PlatformDev

open Peripheral (call)

/-- `GetIrqStatus`. -/
def getIrqStatus : PlatformDev → Bool
  | .inr (.uartlite a) => a.cemuUartliteDev.irq
  | _ => false

/-- `Step_MMIODev_API`, where `read` is what the character device has to read. -/
def stepMMIODev (read : List Byte) : EStateM Abort PlatformDev FuncReturnFeedback := do
  match ← get with
  | .inr (.uartlite a) => call (.inr ∘ .uartlite) a (CemuUartAdapter.stepMMIODev read)
  | _ => pure .ok

/-- `RegisterDev_IntCtrl_API` of the PLIC. -/
def registerDev (int_id : BitVec 32) (dev : DevHandle) :
    EStateM Abort PlatformDev FuncReturnFeedback := do
  match ← get with
  | .inr (.rvPLIC a beyond) =>
      call (fun a => .inr (.rvPLIC a beyond)) a (CemuPlicAdapter.registerDev int_id dev)
  | _ => pure .ok

/-- `UpdateIntState_IntCtrl_API`, from the interrupt lines of the two cores to those after it. -/
def updateIntState (irq : DevHandle → Bool) (core0 core1 : IntStatus) :
    EStateM Abort PlatformDev (IntStatus × IntStatus) := do
  match ← get with
  | .inr (.rvCLInt a) =>
      call (.inr ∘ .rvCLInt) { a with core0IntStatus := core0, core1IntStatus := core1 } do
        let _ ← CemuClintAdapter.updateIntState
        let a ← get
        pure (a.core0IntStatus, a.core1IntStatus)
  | .inr (.rvPLIC a beyond) =>
      call (fun a => .inr (.rvPLIC a beyond))
        { a with core0IntStatus := core0, core1IntStatus := core1 } do
          let _ ← CemuPlicAdapter.updateIntState irq
          let a ← get
          pure (a.core0IntStatus, a.core1IntStatus)
  | _ => pure (core0, core1)

end PlatformDev

/-! ## The platform -/

/-- `DefaultPlatform`.  `counter` is the static variable of `Run_Platform_API`. -/
structure DefaultPlatform extends Platform (MEmuMMIOBus PlatformDev) where
  counter : Nat

/-- A computation on the platform. -/
abbrev PlatformM := EStateM Abort DefaultPlatform

namespace DefaultPlatform

/-! The pointers to the device objects. -/

abbrev ram : DevHandle := 0
abbrev uartlite : DevHandle := 1
abbrev rvCLInt : DevHandle := 2
abbrev rvPLIC : DevHandle := 3

/-- The interrupt lines of a core. -/
def lines (p : DefaultPlatform) (h : HartId) : IntStatus := (p.hart h).core.intStatus

def setLines (core0 core1 : IntStatus) (p : DefaultPlatform) : DefaultPlatform :=
  { p with
    hart := fun h =>
      { p.hart h with
        core := { (p.hart h).core with
          intStatus := match h with
            | .core0 => core0
            | .core1 => core1 } } }

/-- A call of the bus. -/
def onBus {α : Type} (x : EStateM Abort (MEmuMMIOBus PlatformDev) α) : PlatformM α := fun p =>
  match x.run p.sysBus with
  | .ok a b => .ok a { p with sysBus := b }
  | .error e b => .error e { p with sysBus := b }

theorem run_onBus {α : Type} (x : EStateM Abort (MEmuMMIOBus PlatformDev) α)
    (p : DefaultPlatform) :
    (onBus x).run p = match x.run p.sysBus with
      | .ok a b => .ok a { p with sysBus := b }
      | .error e b => .error e { p with sysBus := b } := rfl

/-- A call of a core from outside. -/
def onHart {α : Type} (h : HartId) (x : CoreM α) : PlatformM α := fun p =>
  match x.run (p.hart h).core with
  | .ok a c => .ok a { p with hart := Function.update p.hart h { p.hart h with core := c } }
  | .error e c => .error e { p with hart := Function.update p.hart h { p.hart h with core := c } }

theorem run_onHart {α : Type} (h : HartId) (x : CoreM α) (p : DefaultPlatform) :
    (onHart h x).run p = match x.run (p.hart h).core with
      | .ok a c => .ok a { p with hart := Function.update p.hart h { p.hart h with core := c } }
      | .error e c =>
          .error e { p with hart := Function.update p.hart h { p.hart h with core := c } } := rfl

/-- A device object as the factory makes it. -/
def newObj (size : Word) (dev : PlatformDev) : MMIODev PlatformDev :=
  { devBaseAddr := 0
    addrRegionSize := size
    dev := dev }

/-- The device objects, with the storage that RAM is allocated in. -/
def newObjs (memData : Nat → Byte) (beyond : Nat → List Byte) : DevHandle → MMIODev PlatformDev
  | 0 => newObj 0x100000000 (.inl { memorySize := 0x100000000, memData := memData })
  | 1 => newObj 0x100000 (.inr (.uartlite .new))
  | 2 => newObj 0x10000 (.inr (.rvCLInt (.new default default)))
  | _ => newObj 0x4000000 (.inr (.rvPLIC (.new default default) beyond))

/-- `RV64Core`, the constructor, with its MMU, in the storage that they are allocated in. -/
def newHart (storage : Hart) (hart_id : BitVec 16) : Hart :=
  { core := RV64Core.reset { storage.core with
      rvHartID := hart_id.setWidth 64
      csrMCycleNum := 0
      needTrap := false
      intStatus := ⟨false, false, false, false⟩ }
    mmu := .construct storage.mmu }

/-- What the constructor gets from the factory. -/
def instances (storage : HartId → Hart) (memData : Nat → Byte) (beyond : Nat → List Byte) :
    DefaultPlatform :=
  { hart := fun h => match h with
      | .core0 => newHart (storage .core0) 0
      | .core1 => newHart (storage .core1) 1
    sysBus := .empty (newObjs memData beyond)
    log := []
    counter := 0 }

/-- `DefaultPlatform`, the constructor, from the instances on.  `bin_data` is the image. -/
def construct (bin_data : List Byte) : PlatformM Unit := do
  let _ ← onHart .core0 (RV64Core.writeProgramCounter 0x80000000)
  let _ ← onHart .core1 (RV64Core.writeProgramCounter 0x80000000)
  let _ ← onHart .core1 (RV64Core.setGPRByIndex 10 1)
  let _ ← onBus (callDev ram
    (MMIODevI.writeBuffer 0 (BitVec.ofNat 64 bin_data.length) bin_data))
  let _ ← onBus (MEmuMMIOBus.registerMMIODev ram 0x80000000)
  let _ ← onBus (MEmuMMIOBus.registerMMIODev uartlite 0x60100000)
  let _ ← onBus (callDev rvPLIC (PlatformDev.registerDev 1 uartlite))
  let _ ← onBus (MEmuMMIOBus.registerMMIODev rvCLInt 0x2000000)
  let _ ← onBus (MEmuMMIOBus.registerMMIODev rvPLIC 0xc000000)

/-- A controller updates the interrupt lines of the cores. -/
def updateIntState (k : DevHandle) : PlatformM Unit := do
  let p ← get
  let irq := fun d => PlatformDev.getIrqStatus (p.sysBus.obj d).dev
  let lines ← onBus (callDev k
    (PlatformDev.updateIntState irq (p.lines .core0) (p.lines .core1)))
  modify (setLines lines.1 lines.2)

/-- `Step_CoreAPI` of a core. -/
def stepCore (h : HartId) : PlatformM Unit := fun p =>
  match stepCoreAPI.run (p.machine h (p.lines h)) with
  | .ok _ m => .ok () { p with toPlatform := p.after h m }
  | .error e m => .error e { p with toPlatform := p.after h m }

/-- `Step_MMIODev_API` of the serial port, every hundredth time. -/
def devAction (read : List Byte) : PlatformM Unit := do
  modify fun p => { p with counter := p.counter + 1 }
  let p ← get
  if p.counter = 100 then
    modify fun p => { p with counter := 0 }
    let _ ← onBus (callDev uartlite (PlatformDev.stepMMIODev read))
  else pure ()

/-- One turn of the loop of `Run_Platform_API`.  `read` is what the character device has to read
by then. -/
def turn (read : List Byte) : PlatformM Unit := do
  updateIntState rvCLInt
  updateIntState rvPLIC
  stepCore .core0
  stepCore .core1
  devAction read

end DefaultPlatform

end MEmu
