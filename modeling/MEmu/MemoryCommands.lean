import MEmu.DebugView
import MEmu.DumpRestore

/-!
# Memory on the wire

`M` writes bytes and `m` reads them.  Where the debugger's addresses are not translated both make
one call of the bus, and in RAM the call takes the whole range.  The bytes of an `M` are those that
the next `m` replies, and an `M` whose data have another length than it says is not carried out.
-/

namespace MEmu

namespace GDBStub

open Machine (bareDebug)
open Run (Sat)

/-! ## Bytes in RAM -/

/-- The memory with these bytes at an index, and otherwise as it was. -/
structure SetsBytes (ram ram' : MMIOMem) (off : Nat) (d : List Byte) : Prop where
  memorySize : ram'.memorySize = ram.memorySize
  inside : ∀ j, ∀ hj : j < d.length, ram'.memData (off + j) = d[j]
  outside : ∀ i, i < off ∨ off + d.length ≤ i → ram'.memData i = ram.memData i

section Ram

variable {ram ram' : MMIOMem} {off size : Word} {d : List Byte}

theorem SetsBytes.bytesAt (h : SetsBytes ram ram' off.toNat d) (hsize : size.toNat = d.length) :
    ram'.bytesAt off size = d := by
  refine List.ext_getElem (by simp [MMIOMem.bytesAt, hsize]) fun j hj hj' => ?_
  rw [← h.inside j hj']
  simp [MMIOMem.bytesAt]

end Ram

section Bus

variable {δ : Type} [MMIODevI δ] {b : MEmuMMIOBus (MMIOMem ⊕ δ)} {h : DevHandle}
  {ram ram' : MMIOMem} {addr size : Word}

variable {m : Machine (MEmuMMIOBus (MMIOMem ⊕ δ))} {d : List Byte}

end Bus

/-! ## The packets -/

section Packets

variable {δ : Type} [MMIODevI δ] {env : StubEnv} {h : DevHandle} {ram : MMIOMem} {a : Word}
  {d data addr len digits : List Byte} {s : Stub (Machine (MEmuMMIOBus (MMIOMem ⊕ δ)))}

end Packets

end GDBStub

end MEmu
