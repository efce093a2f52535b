import MEmu.PlatformRuns
import MEmu.Lib.Trace

/-!
# The memory of the platform

The events of a run are in one order, that of both harts.  By that order the RAM is one
memory: a load, a fetch or a page-table walk of either hart reads for each byte what was
stored to it last, by whichever hart, or what the image has there.  Nothing but a store of
a hart changes it, neither a device nor a turn of the platform.
-/

namespace MEmu

open Labelled (Steps)
open MEmuMMIOBus
open Run (Sat)
open Trace (Each each_nil)

namespace DefaultPlatform

/-- The byte that an event stores at the physical address `a`, in RAM. -/
def stores (a : Nat) : PlatformEvent → Option Byte
  | .access _ (.write _ addr size data _) =>
      if deviceAt addr = some ram ∧ addr.toNat ≤ a ∧ a < addr.toNat + size.toNat then
        some (data.getD (a - addr.toNat) 0)
      else none
  | _ => none

/-- The byte at `a` after some events: the one stored last, or `init a` before any. -/
def memoryAt (init : Nat → Byte) (events : List PlatformEvent) (a : Nat) : Byte :=
  events.foldl (fun v e => (stores a e).getD v) (init a)

/-- What is at the physical address `a` to begin with: RAM with the image. -/
def imageAt (memData : Nat → Byte) (bin_data : List Byte) (a : Nat) : Byte :=
  (imageRAM memData bin_data).memData (a - 0x80000000)

/-- The bytes from `addr` on after some events. -/
def bytesAt (init : Nat → Byte) (events : List PlatformEvent) (addr size : Word) : List Byte :=
  (List.range size.toNat).map fun i => memoryAt init events (addr.toNat + i)

/-- A read of RAM after the events `pre` gets the bytes that were stored last. -/
def ReadsLast (init : Nat → Byte) (pre : List PlatformEvent) (e : PlatformEvent) : Prop :=
  ∀ h kind addr size buffer answer, e = .access h (.read kind addr size buffer answer) →
    deviceAt addr = some ram → answer.2 = bytesAt init pre addr size

section Memory

variable {init : Nat → Byte} {b b' : MEmuMMIOBus PlatformDev} {events : List PlatformEvent}
  {e : PlatformEvent}

/-- One more event: what it stores, or what was there. -/
theorem memoryAt_snoc (a : Nat) :
    memoryAt init (events ++ [e]) a = (stores a e).getD (memoryAt init events a) := by
  rw [memoryAt, List.foldl_append]
  rfl

/-- RAM holds what was stored last. -/
def HoldsLast (init : Nat → Byte) (events : List PlatformEvent)
    (b : MEmuMMIOBus PlatformDev) : Prop :=
  ∃ m : MMIOMem, (b.obj ram).dev = .inl m ∧
    ∀ i, m.memData i = memoryAt init events (0x80000000 + i)

/-- What does not concern RAM stores nothing in it. -/
theorem stores_none (h : e.concerns ram = none) (a : Nat) : stores a e = none := by
  cases e with
  | call k c => rfl
  | access h e =>
      cases e with
      | read kind addr size buffer answer => rfl
      | write kind addr size data feedback =>
          refine if_neg fun hat => ?_
          cases h.symm.trans (PlatformEvent.concerns_access.mpr ⟨hat.1, rfl⟩)

/-- The offset of an address in RAM. -/
theorem toNat_offset {addr : Word} (h : deviceAt addr = some ram) :
    0x80000000 + (addr - (regionOf ram).1).toNat = addr.toNat := by
  have hle : 0x80000000 ≤ addr := by
    unfold deviceAt at h
    split at h
    · cases h
    split at h
    · cases h
    split at h
    · cases h
    split at h
    · exact (‹_ ∧ _› : _ ∧ _).1
    · cases h
  rw [show (regionOf ram).1 = 0x80000000 from rfl, BitVec.toNat_sub_of_le hle]
  exact Nat.add_sub_cancel' (BitVec.le_def.mp hle)

/-- A byte after a store to RAM. -/
theorem byte_store {m : MMIOMem} {h : HartId} {kind : AccessKind} {addr size : Word}
    {data : List Byte} {feedback : FuncReturnFeedback} (hat : deviceAt addr = some ram)
    (hlast : ∀ i, m.memData i = memoryAt init events (0x80000000 + i)) (i : Nat) :
    (m.store (addr - (regionOf ram).1) size data).memData i
      = (stores (0x80000000 + i) (.access h (.write kind addr size data feedback))).getD
          (memoryAt init events (0x80000000 + i)) := by
  have hoff := toNat_offset hat
  rw [MMIOMem.store, stores]
  generalize (addr - (regionOf ram).1).toNat = off at hoff ⊢
  show (if off ≤ i ∧ i < off + size.toNat then data.getD (i - off) 0 else m.memData i) = _
  by_cases hin : off ≤ i ∧ i < off + size.toNat
  · have hindex : 0x80000000 + i - addr.toNat = i - off := by omega
    rw [if_pos hin, if_pos ⟨hat, by omega, by omega⟩, Option.getD_some, hindex]
  · rw [if_neg hin, if_neg fun h => hin ⟨by omega, by omega⟩, Option.getD_none]
    exact hlast i

/-- What a move does to RAM. -/
inductive RamMove (m : MMIOMem) : DevMove → MMIOMem → Prop where
  | read {off size : Word} {buffer data : List Byte} (hdata : data = m.bytesAt off size) :
      RamMove m (.access (.read off size buffer data)) m
  | write {off size : Word} {data : List Byte} :
      RamMove m (.access (.write off size data)) (m.store off size data)
  | call {c : DevCall} : RamMove m (.call c) m

/-- RAM stays RAM. -/
theorem ram_goes {m : MMIOMem} {a : DevMove} {d : PlatformDev} (h : DevGoes (.inl m) a d) :
    ∃ m', d = .inl m' ∧ RamMove m a m' := by
  cases h with
  | @access _ e he =>
      cases he with
      | @read _ off size buffer data fb hr =>
          have hmem := RAMBus.mem_readBuffer m off size buffer
          split at hmem
          · rw [run_readBuffer_inl Peripheral hmem] at hr
            cases hr
            exact ⟨m, rfl, .read rfl⟩
          · rw [run_readBuffer_inl_error Peripheral hmem] at hr
            cases hr
      | @write _ off size data fb hr =>
          have hmem := RAMBus.mem_writeBuffer m off size data
          split at hmem
          · rw [run_writeBuffer_inl Peripheral hmem] at hr
            cases hr
            exact ⟨_, rfl, .write⟩
          · rw [run_writeBuffer_inl_error hmem] at hr
            cases hr
  | @call _ c hr =>
      cases c with
      | updateIntState irq core0 core1 =>
          cases hr
          exact ⟨m, rfl, .call⟩
      | stepMMIODev read =>
          cases hr
          exact ⟨m, rfl, .call⟩

/-- One event: RAM holds what was stored last, and a read of it gets that. -/
theorem HoldsLast.step (h : HoldsLast init events b) (hl : Laid allDevs b)
    (he : PlatformStep b e b') :
    ReadsLast init events e ∧ HoldsLast init (events ++ [e]) b' := by
  obtain ⟨m, hm, hlast⟩ := h
  obtain ⟨hnone, hsome⟩ := concerns_goes hl he ram
  cases hc : e.concerns ram with
  | none =>
      refine ⟨?_, m, (hnone hc).trans hm, fun i => ?_⟩
      · rintro h kind addr size buffer answer rfl hat
        cases hc.symm.trans (PlatformEvent.concerns_access.mpr ⟨hat, rfl⟩)
      · rw [memoryAt_snoc, stores_none hc]
        exact hlast i
  | some a =>
      have hgoes := hsome a hc
      rw [hm] at hgoes
      obtain ⟨m', hm', hmove⟩ := ram_goes hgoes
      cases e with
      | call k c =>
          have ha : a = .call c := by
            rw [PlatformEvent.concerns] at hc
            split at hc <;> cases hc
            rfl
          subst ha
          cases hmove
          refine ⟨(fun _ _ _ _ _ _ h => by cases h), m, hm', fun i => ?_⟩
          rw [memoryAt_snoc]
          exact hlast i
      | access h e =>
          obtain ⟨hat, rfl⟩ := PlatformEvent.concerns_access.mp hc
          have hoff := toNat_offset hat
          cases e with
          | read kind addr size buffer answer =>
              cases hmove with
              | read hdata =>
                  refine ⟨?_, m, hm', fun i => ?_⟩
                  · rintro _ _ _ _ _ _ ⟨⟩ -
                    rw [hdata, MMIOMem.bytesAt, bytesAt]
                    refine List.map_congr_left fun i _ => ?_
                    rw [hlast, ← Nat.add_assoc]
                    exact congrArg (fun n => memoryAt init events (n + i)) hoff
                  · rw [memoryAt_snoc]
                    exact hlast i
          | write kind addr size data feedback =>
              cases hmove
              refine ⟨(fun _ _ _ _ _ _ h => by cases h), _, hm', fun i => ?_⟩
              rw [memoryAt_snoc]
              exact byte_store hat hlast i

/-- Along the events of a run every read of RAM gets what was stored last, and RAM holds that. -/
theorem steps_holdsLast (h : HoldsLast init [] b) (hl : Laid allDevs b)
    (hrun : Steps PlatformStep b events b') :
    Each (ReadsLast init) events ∧ HoldsLast init events b' ∧ Laid allDevs b' := by
  induction hrun with
  | nil => exact ⟨each_nil, h, hl⟩
  | snoc _ he ih =>
      obtain ⟨heach, hholds, hlaid⟩ := ih
      obtain ⟨hreads, hholds'⟩ := hholds.step hlaid he
      exact ⟨heach.snoc hreads, hholds', hlaid.step he⟩

end Memory

section Runs

variable {memData : Nat → Byte} {beyond : Nat → List Byte} {bin_data : List Byte}
  {turns : List Turn} {p : DefaultPlatform}

/-- RAM as the constructor leaves it. -/
theorem Built.holdsLast {storage : HartId → Hart}
    (hb : Built storage memData beyond bin_data p) :
    HoldsLast (imageAt memData bin_data) [] p.sysBus := by
  refine ⟨imageRAM memData bin_data, hb.stage.dev ram, fun i => ?_⟩
  rw [memoryAt, List.foldl_nil, imageAt, Nat.add_sub_cancel_left]

/-- In every run RAM holds what was stored last. -/
theorem Reaches.holdsLast (h : Reaches memData beyond bin_data turns p) :
    HoldsLast (imageAt memData bin_data) (trace turns) p.sysBus := by
  obtain ⟨hsize, hbuilt, hturns⟩ := h
  have hb := (construct_built hsize).ok hbuilt
  exact (steps_holdsLast hb.holdsLast hb.stage.laid (steps_of_turns hturns).1).2.1

/-- In every run a read of RAM gets what was stored last. -/
theorem Reaches.readsLast (h : Reaches memData beyond bin_data turns p) :
    Each (ReadsLast (imageAt memData bin_data)) (trace turns) := by
  obtain ⟨hsize, hbuilt, hturns⟩ := h
  have hb := (construct_built hsize).ok hbuilt
  exact (steps_holdsLast hb.holdsLast hb.stage.laid (steps_of_turns hturns).1).1

/-- In every run of the platform each read of RAM by a hart gets what was stored last, in the one
order of the accesses of both harts, and the RAM ends with that. -/
theorem ram_sequentially_consistent (h : Reaches memData beyond bin_data turns p) :
    Each (ReadsLast (imageAt memData bin_data)) (trace turns) ∧
      HoldsLast (imageAt memData bin_data) (trace turns) p.sysBus :=
  ⟨h.readsLast, h.holdsLast⟩

/-- `auipc x1, 0; sw x1, 16(x1); lw x2, 16(x1); j .` -/
def storeLoadImage : List Byte :=
  [0x97, 0x00, 0x00, 0x00, 0x23, 0xa8, 0x10, 0x00, 0x03, 0xa1, 0x00, 0x01, 0x6f, 0x00, 0x00, 0x00]

theorem ram_sequentially_consistent_store_load :
    ∃ turns p, Reaches (fun _ => 0) (fun _ => []) storeLoadImage turns p ∧
      ((.core1, ⟨.load, 0x80000010, 4, true⟩) : HartId × BusAccess) ∈ p.log ∧
        Each (ReadsLast (imageAt (fun _ => 0) storeLoadImage)) (trace turns) := by
  obtain ⟨turns, p, -, hlog, h⟩ := exists_reaches (fun _ => 0) (fun _ => []) storeLoadImage
    (fun _ => ⟨default, .construct default⟩) [[], [], []]
    (fun p => decide (((.core1, ⟨.load, 0x80000010, 4, true⟩) : HartId × BusAccess) ∈ p.log))
    (by decide) (by decide +kernel)
  exact ⟨turns, p, h, of_decide_eq_true hlog, (ram_sequentially_consistent h).1⟩

end Runs

end DefaultPlatform

end MEmu
