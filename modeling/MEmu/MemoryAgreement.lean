import MEmu.PageWalk
import MEmu.StepLockstep

/-!
# Memories that agree on some bytes

A byte of RAM is a device and an index into its host buffer.  `AgreeOn V` ties two buses
together that have the same devices in the same regions and hold the same bytes in `V`.  A read
that stays in `V` finds the same on both, and a write keeps the tie wherever it goes.  What an
access reaches is `Reaches`, and a write changes nothing else.
-/

namespace MEmu

open Run (Sat Lock Keeps)

namespace RAMBus

variable {b b' b'' : RAMBus} {V : DevHandle → Nat → Prop} {addr size : Word}

/-- The two buses find the same devices, in the same regions and of the same size. -/
structure SameMap (b b' : RAMBus) : Prop where
  route : ∀ addr, (b'.findDevAccordingToAddr addr).1 = (b.findDevAccordingToAddr addr).1
  devBaseAddr : ∀ h, (b'.obj h).devBaseAddr = (b.obj h).devBaseAddr
  addrRegionSize : ∀ h, (b'.obj h).addrRegionSize = (b.obj h).addrRegionSize
  memorySize : ∀ h, (b'.obj h).dev.memorySize = (b.obj h).dev.memorySize

/-- The same devices, and the same bytes in `V`. -/
structure AgreeOn (V : DevHandle → Nat → Prop) (b b' : RAMBus) : Prop extends SameMap b b' where
  memData : ∀ h i, V h i → (b'.obj h).dev.memData i = (b.obj h).dev.memData i

/-- Byte `i` of the device `h` is among the `size` bytes at `addr`. -/
structure Reaches (b : RAMBus) (addr size : Word) (h : DevHandle) (i : Nat) : Prop where
  found : (b.findDevAccordingToAddr addr).1 = some h
  first : (addr - (b.obj h).devBaseAddr).toNat ≤ i
  last : i < (addr - (b.obj h).devBaseAddr).toNat + size.toNat

theorem SameMap.refl (b : RAMBus) : SameMap b b :=
  ⟨fun _ => rfl, fun _ => rfl, fun _ => rfl, fun _ => rfl⟩

theorem SameMap.symm (h : SameMap b b') : SameMap b' b :=
  ⟨fun a => (h.route a).symm, fun k => (h.devBaseAddr k).symm, fun k => (h.addrRegionSize k).symm,
    fun k => (h.memorySize k).symm⟩

theorem SameMap.trans (h : SameMap b b') (h' : SameMap b' b'') : SameMap b b'' :=
  ⟨fun a => (h'.route a).trans (h.route a), fun k => (h'.devBaseAddr k).trans (h.devBaseAddr k),
    fun k => (h'.addrRegionSize k).trans (h.addrRegionSize k),
    fun k => (h'.memorySize k).trans (h.memorySize k)⟩

theorem SameMap.inBuffer (hm : SameMap b b') (h : DevHandle) (begin_index size : Word) :
    (b'.obj h).dev.inBuffer begin_index size ↔ (b.obj h).dev.inBuffer begin_index size := by
  rw [MMIOMem.inBuffer, MMIOMem.inBuffer, hm.memorySize]

theorem SameMap.reaches (hm : SameMap b b') {h : DevHandle} {i : Nat}
    (hr : b.Reaches addr size h i) : b'.Reaches addr size h i := by
  refine ⟨(hm.route addr).trans hr.found, ?_, ?_⟩ <;> rw [hm.devBaseAddr]
  · exact hr.first
  · exact hr.last

theorem AgreeOn.refl (b : RAMBus) : AgreeOn V b b := ⟨.refl b, fun _ _ _ => rfl⟩

theorem AgreeOn.symm (h : AgreeOn V b b') : AgreeOn V b' b :=
  ⟨h.toSameMap.symm, fun k i hV => (h.memData k i hV).symm⟩

theorem AgreeOn.trans (h : AgreeOn V b b') (h' : AgreeOn V b' b'') : AgreeOn V b b'' :=
  ⟨h.toSameMap.trans h'.toSameMap, fun k i hV => (h'.memData k i hV).trans (h.memData k i hV)⟩

theorem AgreeOn.mono {W : DevHandle → Nat → Prop} (h : AgreeOn V b b')
    (hW : ∀ k i, W k i → V k i) : AgreeOn W b b' :=
  ⟨h.toSameMap, fun k i hk => h.memData k i (hW k i hk)⟩

theorem SameView.symm (h : SameView b b') : SameView b' b :=
  ⟨h.obj.symm, fun a => (h.route a).symm⟩

theorem SameView.agreeOn (h : SameView b b') : AgreeOn V b b' := by
  refine ⟨⟨h.route, fun k => ?_, fun k => ?_, fun k => ?_⟩, fun k i _ => ?_⟩ <;> rw [h.obj]

/-- Agreement on every byte is one view of memory. -/
theorem sameView_of_agreeOn (h : AgreeOn (fun _ _ => True) b b') : SameView b b' := by
  refine ⟨?_, h.route⟩
  funext k
  have hbase := h.devBaseAddr k
  have hregion := h.addrRegionSize k
  have hsize := h.memorySize k
  have hdata : (b'.obj k).dev.memData = (b.obj k).dev.memData :=
    funext fun i => h.memData k i trivial
  rcases hk : b.obj k with ⟨base, region, ⟨msize, data⟩⟩
  rcases hk' : b'.obj k with ⟨base', region', ⟨msize', data'⟩⟩
  rw [hk, hk'] at hbase hregion hsize hdata
  cases hbase
  cases hregion
  cases hsize
  cases hdata
  rfl

theorem agreeOn_find (addr : Word) (b : RAMBus) : AgreeOn V b (b.findDevAccordingToAddr addr).2 :=
  (sameView_find addr b).agreeOn

/-! ## Accesses -/

/-- A device that changes its bytes is found as before. -/
theorem sameMap_setObj (b : RAMBus) (h : DevHandle) {dev : MMIOMem}
    (hsize : dev.memorySize = (b.obj h).dev.memorySize) :
    SameMap b (b.setObj h { b.obj h with dev := dev }) := by
  have hfields (k : DevHandle) : (if k = h then { b.obj h with dev := dev } else b.obj k).devBaseAddr
        = (b.obj k).devBaseAddr ∧
      (if k = h then { b.obj h with dev := dev } else b.obj k).addrRegionSize
        = (b.obj k).addrRegionSize ∧
      (if k = h then { b.obj h with dev := dev } else b.obj k).dev.memorySize
        = (b.obj k).dev.memorySize := by
    split
    · rename_i hk
      subst hk
      exact ⟨rfl, rfl, hsize⟩
    · exact ⟨rfl, rfl, rfl⟩
  refine ⟨fun addr => ?_, fun k => (hfields k).1, fun k => (hfields k).2.1,
    fun k => (hfields k).2.2⟩
  have hrange (k : DevHandle) :
      ((b.setObj h { b.obj h with dev := dev }).obj k).isAddrInRange addr
        = (b.obj k).isAddrInRange addr := by
    rw [MMIODev.isAddrInRange, MMIODev.isAddrInRange]
    exact congrArg₂ (fun x y => decide (x ≤ addr) && decide (addr ≤ x + y)) (hfields k).1
      (hfields k).2.1
  rw [MEmuMMIOBus.findDev_fst, MEmuMMIOBus.findDev_fst, MEmuMMIOBus.scanDevs,
    MEmuMMIOBus.scanDevs]
  simp only [hrange]
  rfl

/-- The bus with bytes stored into the device `h`. -/
def stored (b : RAMBus) (h : DevHandle) (begin_index size : Word) (buffer : List Byte) : RAMBus :=
  b.setObj h { b.obj h with dev := (b.obj h).dev.store begin_index size buffer }

theorem sameMap_stored (b : RAMBus) (h : DevHandle) (begin_index size : Word)
    (buffer : List Byte) : SameMap b (stored b h begin_index size buffer) :=
  sameMap_setObj b h rfl

theorem memData_stored (b : RAMBus) (h k : DevHandle) (begin_index size : Word)
    (buffer : List Byte) (i : Nat) :
    ((stored b h begin_index size buffer).obj k).dev.memData i
      = if k = h ∧ begin_index.toNat ≤ i ∧ i < begin_index.toNat + size.toNat then
          buffer.getD (i - begin_index.toNat) 0
        else (b.obj k).dev.memData i := by
  simp only [stored, MEmuMMIOBus.setObj]
  by_cases hk : k = h
  · subst hk
    simp only [if_pos, true_and]
    rfl
  · simp only [hk, false_and, if_false]

/-- A write, with what it stores named. -/
theorem run_write_stored (b : RAMBus) (begin_addr size : Word) (buffer : List Byte) :
    (MMIOBus.paddrWriteBuffer begin_addr size buffer).run b
      = match (b.findDevAccordingToAddr begin_addr).1 with
        | none => .ok .notAccessible (b.findDevAccordingToAddr begin_addr).2
        | some h =>
            if (b.obj h).dev.inBuffer (begin_addr - (b.obj h).devBaseAddr) size then
              .ok .ok (stored (b.findDevAccordingToAddr begin_addr).2 h
                (begin_addr - (b.obj h).devBaseAddr) size buffer)
            else .error .outOfBuffer (b.findDevAccordingToAddr begin_addr).2 := by
  rw [run_write]
  cases (b.findDevAccordingToAddr begin_addr).1 with
  | none => rfl
  | some h => simp only [stored, b.findDev_obj begin_addr]

/-- Buses that agree on what a read reaches answer it alike. -/
theorem AgreeOn.read_lock (h : AgreeOn V b b') (hV : ∀ k i, b.Reaches addr size k i → V k i)
    (buffer : List Byte) :
    Lock b b' (MMIOBus.paddrReadBuffer addr size buffer) (MMIOBus.paddrReadBuffer addr size buffer)
      fun r r' t t' => r = r' ∧ AgreeOn V t t' ∧ SameView b t := by
  have hfind := ((agreeOn_find addr b).symm.trans h).trans (agreeOn_find addr b')
  have hview := sameView_find addr b
  rw [Lock, run_read, run_read, h.route]
  cases hroute : (b.findDevAccordingToAddr addr).1 with
  | none => exact .ok ⟨rfl, hfind, hview⟩
  | some k =>
      have hiff := h.toSameMap.inBuffer k (addr - (b.obj k).devBaseAddr) size
      simp only [h.devBaseAddr]
      by_cases hin : (b.obj k).dev.inBuffer (addr - (b.obj k).devBaseAddr) size
      · simp only [if_pos hin, if_pos (hiff.mpr hin)]
        refine .ok ⟨congrArg (Prod.mk _) (List.map_congr_left fun i hi => ?_), hfind, hview⟩
        have hi : i < size.toNat := List.mem_range.mp hi
        exact (h.memData k _ (hV k _ ⟨hroute, by omega, by omega⟩)).symm
      · simp only [if_neg hin, if_neg fun hin' => hin (hiff.mp hin')]
        exact .error _ _ _

/-- Writes of the same bytes keep the agreement. -/
theorem AgreeOn.write_lock (h : AgreeOn V b b') (addr size : Word) (buffer : List Byte) :
    Lock b b' (MMIOBus.paddrWriteBuffer addr size buffer)
      (MMIOBus.paddrWriteBuffer addr size buffer) fun r r' t t' => r = r' ∧ AgreeOn V t t' := by
  have hfind := ((agreeOn_find addr b).symm.trans h).trans (agreeOn_find addr b')
  rw [Lock, run_write_stored, run_write_stored, h.route]
  cases hroute : (b.findDevAccordingToAddr addr).1 with
  | none => exact .ok ⟨rfl, hfind⟩
  | some k =>
      have hiff := h.toSameMap.inBuffer k (addr - (b.obj k).devBaseAddr) size
      simp only [h.devBaseAddr]
      by_cases hin : (b.obj k).dev.inBuffer (addr - (b.obj k).devBaseAddr) size
      · simp only [if_pos hin, if_pos (hiff.mpr hin)]
        refine .ok ⟨rfl, ((sameMap_stored _ k _ size buffer).symm.trans hfind.toSameMap).trans
          (sameMap_stored _ k _ size buffer), fun j i hV => ?_⟩
        rw [memData_stored, memData_stored, hfind.memData j i hV]
      · simp only [if_neg hin, if_neg fun hin' => hin (hiff.mp hin')]
        exact .error _ _ _

/-- A write changes no byte that it does not reach. -/
theorem write_keeps (addr size : Word) (buffer : List Byte) (b : RAMBus) :
    Sat b (MMIOBus.paddrWriteBuffer addr size buffer)
      (fun _ t => AgreeOn (fun k i => ¬b.Reaches addr size k i) b t)
      (fun _ t => AgreeOn (fun k i => ¬b.Reaches addr size k i) b t) := by
  rw [Sat, run_write_stored]
  cases hroute : (b.findDevAccordingToAddr addr).1 with
  | none => exact agreeOn_find addr b
  | some k =>
      dsimp only
      by_cases hin : (b.obj k).dev.inBuffer (addr - (b.obj k).devBaseAddr) size
      · simp only [if_pos hin]
        refine (agreeOn_find addr b).trans ⟨sameMap_stored _ k _ size buffer, fun j i hV => ?_⟩
        rw [memData_stored, if_neg]
        rintro ⟨rfl, hfirst, hlast⟩
        exact hV ⟨hroute, hfirst, hlast⟩
      · simp only [if_neg hin]
        exact agreeOn_find addr b

end RAMBus

/-! ## Whole views -/

open RAMBus in
theorem readsAlike_sameView (addr size : Word) :
    ReadsAlike (β := RAMBus) (γ := RAMBus) SameView addr size :=
  fun _ _ buffer h => (h.agreeOn.read_lock (fun _ _ _ => trivial) buffer).mono
    fun _ _ _ _ hr => ⟨hr.1, sameView_of_agreeOn hr.2.1⟩

open RAMBus in
theorem writesAlike_sameView (addr size : Word) :
    WritesAlike (β := RAMBus) (γ := RAMBus) SameView addr size :=
  fun _ _ buffer h => (h.agreeOn.write_lock addr size buffer).mono
    fun _ _ _ _ hr => ⟨hr.1, sameView_of_agreeOn hr.2⟩

end MEmu
