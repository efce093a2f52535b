import MEmu.Structs
import Mathlib.Data.List.Sort

/-!
# The MMIO bus and its devices

`MMIOBus` is the interface `MMIOBus_I` and `MMIODevI` the interface `MMIODev_I`.
The core and its MMU are written against any bus, and the bus of the repository,
`MEmuMMIOBus`, against any device.  A call is a computation that may end in an
`Abort`, with the state reached by then.

The C++ bus holds pointers to device objects.  Here a pointer is a `DevHandle`,
and `obj` says which object each handle points at, so a base address set through
one pointer is seen through every other.  A lookup puts the handle it finds into
`devFindCache`, which is never invalidated.

`MMIOMem` is the RAM device.  Its `memcpy` has no bounds check.  Outside the host
buffer C++ promises nothing, and the model aborts.
-/

namespace MEmu

/-! ## The two interfaces -/

/-- `MMIOBus_I`.  A read is given the buffer as it is before the call, since a
device that refuses leaves it untouched. -/
class MMIOBus (β : Type) where
  /-- `PAddr_ReadBuffer_MMIOBus_API`. -/
  paddrReadBuffer (begin_addr size : Word) (buffer : List Byte) :
    EStateM Abort β (FuncReturnFeedback × List Byte)
  /-- `PAddr_WriteBuffer_MMIOBus_API`. -/
  paddrWriteBuffer (begin_addr size : Word) (buffer : List Byte) :
    EStateM Abort β FuncReturnFeedback

/-- The access functions of `MMIODev_I`. -/
class MMIODevI (δ : Type) where
  /-- `ReadBuffer_MMIODev_API`. -/
  readBuffer (begin_addr size : Word) (buffer : List Byte) :
    EStateM Abort δ (FuncReturnFeedback × List Byte)
  /-- `WriteBuffer_MMIODev_API`. -/
  writeBuffer (begin_addr size : Word) (buffer : List Byte) : EStateM Abort δ FuncReturnFeedback

/-- A device object: the fields of `MMIODev_I` and the state of the device. -/
structure MMIODev (δ : Type) where
  devBaseAddr : Word
  addrRegionSize : Word
  dev : δ

namespace MMIODev

variable {δ : Type}

/-- `isAddrRegionConflict`, where `this` is the device being registered. -/
def isAddrRegionConflict (this dev : MMIODev δ) : Bool :=
  let dev1_begin_addr := this.devBaseAddr
  let dev1_end_addr := dev1_begin_addr + this.addrRegionSize
  let dev2_begin_addr := dev.devBaseAddr
  let dev2_end_addr := dev2_begin_addr + dev.addrRegionSize
  (decide (dev1_begin_addr ≤ dev2_begin_addr) && decide (dev2_begin_addr ≤ dev1_end_addr)) ||
    (decide (dev1_begin_addr ≤ dev2_end_addr) && decide (dev2_end_addr ≤ dev1_end_addr))

/-- `isAddrInRange`. -/
def isAddrInRange (d : MMIODev δ) (addr : Word) : Bool :=
  decide (d.devBaseAddr ≤ addr) && decide (addr ≤ d.devBaseAddr + d.addrRegionSize)

end MMIODev

/-! ## The bus -/

/-- A pointer to a device object. -/
abbrev DevHandle := Nat

/-- `MEmu_MMIOBus`, with the device objects its pointers lead to. -/
structure MEmuMMIOBus (δ : Type) where
  /-- Registered devices, sorted by base address. -/
  mmioDevs : List DevHandle
  devFindCache : Word → Option DevHandle
  obj : DevHandle → MMIODev δ

namespace MEmuMMIOBus

variable {δ : Type}

/-- A bus without devices, over given device objects. -/
def empty (obj : DevHandle → MMIODev δ) : MEmuMMIOBus δ :=
  { mmioDevs := [], devFindCache := fun _ => none, obj := obj }

/-- The object of handle `h` replaced. -/
def setObj (b : MEmuMMIOBus δ) (h : DevHandle) (d : MMIODev δ) : MEmuMMIOBus δ :=
  { b with obj := fun k => if k = h then d else b.obj k }

/-- The linear scan of `findDevAccordingToAddr`. -/
def scanDevs (b : MEmuMMIOBus δ) (addr : Word) : Option DevHandle :=
  b.mmioDevs.find? fun h => (b.obj h).isAddrInRange addr

/-- `findDevAccordingToAddr`: the device found, and the bus with the lookup cached. -/
def findDevAccordingToAddr (addr : Word) (b : MEmuMMIOBus δ) :
    Option DevHandle × MEmuMMIOBus δ :=
  match b.devFindCache addr with
  | some h => (some h, b)
  | none =>
      match b.scanDevs addr with
      | some h =>
          (some h, { b with devFindCache := fun a => if a = addr then some h else b.devFindCache a })
      | none => (none, b)

/-- `RegisterMMIODev_MMIOBus_API`. -/
def registerMMIODev (h : DevHandle) (base_addr : Word) :
    EStateM Abort (MEmuMMIOBus δ) FuncReturnFeedback := do
  modify fun b => b.setObj h { b.obj h with devBaseAddr := base_addr }
  let b ← get
  if b.mmioDevs.any fun d => (b.obj h).isAddrRegionConflict (b.obj d) then
    throw .regionConflict
  else
    set { b with
      mmioDevs := (b.mmioDevs ++ [h]).insertionSort fun d1 d2 =>
        (b.obj d1).devBaseAddr ≤ (b.obj d2).devBaseAddr }
    pure .ok

variable [MMIODevI δ]

/-- A call of a method of the device object that `h` points at. -/
def callDev {α : Type} (h : DevHandle) (method : EStateM Abort δ α) :
    EStateM Abort (MEmuMMIOBus δ) α := fun b =>
  match method.run (b.obj h).dev with
  | .ok a dev => .ok a (b.setObj h { b.obj h with dev := dev })
  | .error e dev => .error e (b.setObj h { b.obj h with dev := dev })

/-- `PAddr_ReadBuffer_MMIOBus_API`.  What the device answers is not looked at. -/
def paddrReadBuffer (begin_addr size : Word) (buffer : List Byte) :
    EStateM Abort (MEmuMMIOBus δ) (FuncReturnFeedback × List Byte) := do
  let dev ← modifyGet (findDevAccordingToAddr begin_addr)
  match dev with
  | none => pure (.notAccessible, buffer)
  | some h => do
      let b ← get
      let r ← callDev h (MMIODevI.readBuffer (begin_addr - (b.obj h).devBaseAddr) size buffer)
      pure (.ok, r.2)

/-- `PAddr_WriteBuffer_MMIOBus_API`.  What the device answers is not looked at. -/
def paddrWriteBuffer (begin_addr size : Word) (buffer : List Byte) :
    EStateM Abort (MEmuMMIOBus δ) FuncReturnFeedback := do
  let dev ← modifyGet (findDevAccordingToAddr begin_addr)
  match dev with
  | none => pure .notAccessible
  | some h => do
      let b ← get
      let _ ← callDev h (MMIODevI.writeBuffer (begin_addr - (b.obj h).devBaseAddr) size buffer)
      pure .ok

instance : MMIOBus (MEmuMMIOBus δ) where
  paddrReadBuffer := paddrReadBuffer
  paddrWriteBuffer := paddrWriteBuffer

end MEmuMMIOBus

/-! ## RAM -/

/-- `MEmu_MMIO_Mem`. -/
structure MMIOMem where
  memorySize : Word
  memData : Nat → Byte

namespace MMIOMem

/-- `memcpy` of `size` bytes from index `begin_index` stays in the host buffer. -/
def inBuffer (m : MMIOMem) (begin_index size : Word) : Prop :=
  begin_index.toNat + size.toNat ≤ m.memorySize.toNat

instance (m : MMIOMem) (begin_index size : Word) : Decidable (m.inBuffer begin_index size) :=
  inferInstanceAs (Decidable (_ ≤ _))

/-- The `size` bytes from index `begin_index`. -/
def bytesAt (m : MMIOMem) (begin_index size : Word) : List Byte :=
  (List.range size.toNat).map fun i => m.memData (begin_index.toNat + i)

/-- The memory with `size` bytes from index `begin_index` taken from the buffer. -/
def store (m : MMIOMem) (begin_index size : Word) (buffer : List Byte) : MMIOMem :=
  { m with
    memData := fun i =>
      if begin_index.toNat ≤ i ∧ i < begin_index.toNat + size.toNat then
        buffer.getD (i - begin_index.toNat) 0
      else m.memData i }

/-- `ReadBuffer_MMIODev_API`. -/
def readBuffer (begin_addr size : Word) (_buffer : List Byte) :
    EStateM Abort MMIOMem (FuncReturnFeedback × List Byte) := do
  let m ← get
  if m.inBuffer begin_addr size then pure (.ok, m.bytesAt begin_addr size)
  else throw .outOfBuffer

/-- `WriteBuffer_MMIODev_API`. -/
def writeBuffer (begin_addr size : Word) (buffer : List Byte) :
    EStateM Abort MMIOMem FuncReturnFeedback := do
  let m ← get
  if m.inBuffer begin_addr size then
    set (m.store begin_addr size buffer)
    pure .ok
  else throw .outOfBuffer

instance : MMIODevI MMIOMem where
  readBuffer := readBuffer
  writeBuffer := writeBuffer

/-- A RAM device at address 0 that holds `bytes`. -/
def ofBytes (bytes : List Byte) : MMIODev MMIOMem :=
  { devBaseAddr := 0
    addrRegionSize := BitVec.ofNat 64 bytes.length
    dev := { memorySize := BitVec.ofNat 64 bytes.length, memData := fun i => bytes.getD i 0 } }

/-- A bus with that device alone. -/
def busOfBytes (bytes : List Byte) : MEmuMMIOBus MMIOMem :=
  { MEmuMMIOBus.empty fun _ => ofBytes bytes with mmioDevs := [0] }

end MMIOMem

end MEmu
