import MEmu.DefaultPlatform
import Mathlib.Data.List.Find

/-!
# The memory map

The constructor registers four devices, one at a time, and none of them conflicts with
those before it.  So it returns for every image that fits in RAM, and the bus routes each
address as `deviceAt` says (`construct_built`).  `Laid` is the part of that which no access
and no call of a device changes.
-/

namespace MEmu

open MEmuMMIOBus
open Run (Sat)

namespace DefaultPlatform

/-- The region of a device object, by its base address and its size. -/
def regionOf : DevHandle → Word × Word
  | 0 => (0x80000000, 0x100000000)
  | 1 => (0x60100000, 0x100000)
  | 2 => (0x2000000, 0x10000)
  | _ => (0xc000000, 0x4000000)

/-- The device that an address is routed to.  A region ends one byte past its last. -/
def deviceAt (addr : Word) : Option DevHandle :=
  if 0x2000000 ≤ addr ∧ addr ≤ 0x2010000 then some rvCLInt
  else if 0xc000000 ≤ addr ∧ addr ≤ 0x10000000 then some rvPLIC
  else if 0x60100000 ≤ addr ∧ addr ≤ 0x60200000 then some uartlite
  else if 0x80000000 ≤ addr ∧ addr ≤ 0x180000000 then some ram
  else none

/-! ## Registrations -/

/-- The devices `devs` are registered, each in its region, and no other is. -/
structure Laid (devs : List DevHandle) (b : MEmuMMIOBus PlatformDev) : Prop where
  routed : b.Routed
  perm : b.mmioDevs.Perm devs
  size : ∀ k, (b.obj k).addrRegionSize = (regionOf k).2
  base : ∀ k ∈ devs, (b.obj k).devBaseAddr = (regionOf k).1

section Laid

variable {b b' : MEmuMMIOBus PlatformDev} {devs : List DevHandle} {k : DevHandle}

theorem Laid.map (h : Laid devs b) (hm : SameMap b b') (hb : b'.Routed) : Laid devs b' :=
  ⟨hb, hm.mmioDevs ▸ h.perm, fun k => (hm.addrRegionSize k).trans (h.size k),
    fun k hk => (hm.devBaseAddr k).trans (h.base k hk)⟩

/-- A device object without a device. -/
def bare (k : DevHandle) : MMIODev Unit := ⟨(regionOf k).1, (regionOf k).2, ()⟩

/-- A registration in a region of its own returns. -/
theorem Laid.register (h : Laid devs b) (hk : k ∉ devs)
    (hno : ∀ j ∈ devs, (bare k).isAddrRegionConflict (bare j) = false) :
    Sat b (registerMMIODev k (regionOf k).1)
      (fun _ b' => Laid (devs ++ [k]) b' ∧ ∀ j, (b'.obj j).dev = (b.obj j).dev)
      (fun _ _ => False) := by
  have hfresh : k ∉ b.mmioDevs := fun hmem => hk (h.perm.mem_iff.mp hmem)
  have hconflicts : b.conflicts k (regionOf k).1 = false := by
    rw [conflicts, List.any_eq_false]
    intro j hj
    rw [obj_setObj_of_ne (ne_of_mem_of_not_mem hj hfresh), Bool.not_eq_true,
      ← hno j (h.perm.mem_iff.mp hj), MMIODev.isAddrRegionConflict, MMIODev.isAddrRegionConflict,
      placed, h.size, h.size, h.base j (h.perm.mem_iff.mp hj)]
    rfl
  have hrun : (registerMMIODev k (regionOf k).1).run b = .ok .ok (b.withDev k (regionOf k).1) := by
    rw [run_registerMMIODev, hconflicts]
    rfl
  have hself : (b.withDev k (regionOf k).1).obj k = b.placed k (regionOf k).1 := obj_setObj_self
  have hdev : ∀ j, ((b.withDev k (regionOf k).1).obj j).dev = (b.obj j).dev := by
    intro j
    by_cases hj : j = k
    · rw [hj, hself]
      rfl
    · exact congrArg MMIODev.dev (obj_setObj_of_ne hj)
  unfold Sat
  rw [hrun]
  refine ⟨⟨registerMMIODev_routed h.routed (fun hmem => absurd hmem hfresh) hrun, ?_, fun j => ?_,
    fun j hj => ?_⟩, hdev⟩
  · exact perm_withDev.trans (h.perm.append_right [k])
  · rw [addrRegionSize_withDev, h.size]
  · rcases List.mem_append.mp hj with hj | hj
    · have hne : j ≠ k := fun heq => hk (heq ▸ hj)
      exact (congrArg MMIODev.devBaseAddr (obj_setObj_of_ne hne)).trans (h.base j hj)
    · rw [List.mem_singleton.mp hj, hself]
      rfl

/-- The map is a scan of the regions. -/
theorem scan_bare (addr : Word) :
    ([rvCLInt, rvPLIC, uartlite, ram].find? fun k => (bare k).isAddrInRange addr)
      = deviceAt addr := by
  have hcons (k : DevHandle) (ks : List DevHandle) :
      ((k :: ks).find? fun k => (bare k).isAddrInRange addr)
        = if (regionOf k).1 ≤ addr ∧ addr ≤ (regionOf k).1 + (regionOf k).2 then some k
          else ks.find? fun k => (bare k).isAddrInRange addr := by
    rw [List.find?_cons]
    by_cases h : (regionOf k).1 ≤ addr ∧ addr ≤ (regionOf k).1 + (regionOf k).2
    · rw [if_pos h, (bare k).isAddrInRange_iff.mpr h]
    · rw [if_neg h, Bool.eq_false_iff.mpr (mt (bare k).isAddrInRange_iff.mp h)]
  rw [hcons, hcons, hcons, hcons]
  rfl

/-- The bus finds what the map says. -/
theorem Laid.findDev (h : Laid [ram, uartlite, rvCLInt, rvPLIC] b) (addr : Word) :
    (b.findDevAccordingToAddr addr).1 = deviceAt addr := by
  have hall : ∀ j ∈ [rvCLInt, rvPLIC, uartlite, ram], j ∈ [ram, uartlite, rvCLInt, rvPLIC] := by
    decide
  have hsorted : b.BaseSorted [rvCLInt, rvPLIC, uartlite, ram] := by
    refine ⟨?_, ?_⟩
    · exact (by decide : List.Perm [rvCLInt, rvPLIC, uartlite, ram] _).trans h.perm.symm
    · refine List.Pairwise.imp_of_mem (R := fun d1 d2 => (regionOf d1).1 ≤ (regionOf d2).1)
        (fun {d1 d2} h1 h2 hle => ?_) (by decide)
      rw [h.base d1 (hall d1 h1), h.base d2 (hall d2 h2)]
      exact hle
  have hin : ∀ j ∈ [rvCLInt, rvPLIC, uartlite, ram],
      (b.obj j).isAddrInRange addr = (bare j).isAddrInRange addr := by
    intro j hj
    rw [MMIODev.isAddrInRange, MMIODev.isAddrInRange, h.base j (hall j hj), h.size]
    rfl
  ext k
  rw [findDev_iff h.routed, ← scan_iff h.routed hsorted, List.find?_congr hin, scan_bare]

end Laid

/-! ## The constructor -/

section Construct

variable {p : DefaultPlatform} {b : MEmuMMIOBus PlatformDev} {devs : List DevHandle}
  {D : DevHandle → PlatformDev} {k : DevHandle}

theorem onBus_sat {α : Type} {x : EStateM Abort (MEmuMMIOBus PlatformDev) α}
    {Q : α → DefaultPlatform → Prop} {E : Abort → DefaultPlatform → Prop}
    (h : Sat p.sysBus x (fun a b => Q a { p with sysBus := b })
      (fun e b => E e { p with sysBus := b })) : Sat p (onBus x) Q E :=
  .part (fun a b hr => by rw [run_onBus, hr]) (fun e b hr => by rw [run_onBus, hr]) h

/-- The devices `devs` are registered, and the device objects are as `D` says. -/
structure Stage (devs : List DevHandle) (D : DevHandle → PlatformDev)
    (b : MEmuMMIOBus PlatformDev) : Prop where
  laid : Laid devs b
  dev : ∀ k, (b.obj k).dev = D k

theorem Stage.register (h : Stage devs D b) (hk : k ∉ devs)
    (hno : ∀ j ∈ devs, (bare k).isAddrRegionConflict (bare j) = false) :
    Sat b (registerMMIODev k (regionOf k).1) (fun _ => Stage (devs ++ [k]) D) (fun _ _ => False) :=
  (h.laid.register hk hno).mono (fun _ _ hb => ⟨hb.1, fun j => (hb.2 j).trans (h.dev j)⟩)
    fun _ _ hb => hb

/-- A call of a device object that returns. -/
theorem Stage.call {α : Type} {method : EStateM Abort PlatformDev α} {a : α} {d : PlatformDev}
    (h : Stage devs D b) (hr : method.run (D k) = .ok a d) :
    Sat b (callDev k method) (fun r b' => r = a ∧ Stage devs (Function.update D k d) b')
      (fun _ _ => False) := by
  have hrun : (callDev k method).run b = .ok a (b.setObj k { b.obj k with dev := d }) := by
    rw [run_callDev, h.dev, hr]
  have hroutes := (callDev_sameRoutes k method b).ok hrun
  unfold Sat
  rw [hrun]
  refine ⟨rfl, h.laid.map hroutes.sameMap (h.laid.routed.routes hroutes), fun j => ?_⟩
  by_cases hj : j = k
  · subst hj
    rw [obj_setObj_self, Function.update_self]
  · rw [obj_setObj_of_ne hj, Function.update_of_ne hj, h.dev]

theorem onHart_sat {α : Type} {h : HartId} {x : CoreM α} {Q : α → DefaultPlatform → Prop}
    {E : Abort → DefaultPlatform → Prop}
    (hx : Sat (p.hart h).core x
      (fun a c => Q a { p with hart := Function.update p.hart h { p.hart h with core := c } })
      fun e c => E e { p with hart := Function.update p.hart h { p.hart h with core := c } }) :
    Sat p (onHart h x) Q E :=
  .part (fun a c hr => by rw [run_onHart, hr]) (fun e c hr => by rw [run_onHart, hr]) hx

variable {storage : HartId → Hart} {memData : Nat → Byte} {beyond : Nat → List Byte}
  {bin_data : List Byte}

/-- RAM with the image in it. -/
def imageRAM (memData : Nat → Byte) (bin_data : List Byte) : MMIOMem :=
  MMIOMem.store { memorySize := 0x100000000, memData := memData } 0
    (BitVec.ofNat 64 bin_data.length) bin_data

/-- The devices as the constructor leaves them. -/
def builtDevs (memData : Nat → Byte) (beyond : Nat → List Byte) (bin_data : List Byte) :
    DevHandle → PlatformDev :=
  Function.update
    (Function.update (fun k => (newObjs memData beyond k).dev) ram (.inl (imageRAM memData bin_data)))
    rvPLIC (.inr (.rvPLIC { CemuPlicAdapter.new default default with intDevMap := [(1, uartlite)] }
      beyond))

/-- The harts as the constructor leaves them: both at the start of RAM, and the second with 1 in
`a0`. -/
def builtHart (storage : HartId → Hart) : HartId → Hart
  | .core0 =>
      let hart := newHart (storage .core0) 0
      { hart with core := hart.core.setPC 0x80000000 }
  | .core1 =>
      let hart := newHart (storage .core1) 1
      { hart with core := (hart.core.setPC 0x80000000).setGPR 10 1 }

/-- The platform that the constructor leaves. -/
structure Built (storage : HartId → Hart) (memData : Nat → Byte) (beyond : Nat → List Byte)
    (bin_data : List Byte) (p : DefaultPlatform) : Prop where
  stage : Stage [ram, uartlite, rvCLInt, rvPLIC] (builtDevs memData beyond bin_data) p.sysBus
  hart : p.hart = builtHart storage
  log : p.log = []
  counter : p.counter = 0

/-- The constructor returns where the image fits in RAM. -/
theorem construct_built (hsize : bin_data.length ≤ 0x100000000) :
    Sat (instances storage memData beyond) (construct bin_data)
      (fun _ => Built storage memData beyond bin_data) (fun _ _ => False) := by
  refine .bind (onHart_sat (.bind (.modify (.pure ?_))))
  refine .bind (onHart_sat (.bind (.modify (.pure ?_))))
  refine .bind (onHart_sat (.bind (cassert_sat (fun _ => .ite (fun h => absurd h (by decide))
    fun _ => .bind (.modify (.pure ?_))) fun h => absurd (by decide) h)))
  have hstart : Stage [] (fun k => (newObjs memData beyond k).dev)
      (empty (newObjs memData beyond)) := by
    refine ⟨⟨⟨.nil, nofun, nofun⟩, .refl _, fun k => ?_, nofun⟩, fun _ => rfl⟩
    match k with
    | 0 | 1 | 2 | _ + 3 => rfl
  have hinside : (⟨0x100000000, memData⟩ : MMIOMem).inBuffer 0
      (BitVec.ofNat 64 bin_data.length) := by
    show 0 + bin_data.length % 2 ^ 64 ≤ 0x100000000
    omega
  have hwrite := run_writeBuffer_inl Peripheral
    ((RAMBus.mem_writeBuffer ⟨0x100000000, memData⟩ 0 (BitVec.ofNat 64 bin_data.length)
      bin_data).trans (if_pos hinside))
  have hregister : (PlatformDev.registerDev 1 uartlite).run
      (.inr (.rvPLIC (.new default default) beyond)) = .ok .ok
        (.inr (.rvPLIC { CemuPlicAdapter.new default default with intDevMap := [(1, uartlite)] }
          beyond)) := rfl
  refine .bind (onBus_sat ((hstart.call (k := ram) hwrite).mono (fun _ b₁ h₁ => ?_)
    fun _ _ h => h))
  refine .bind (onBus_sat ((h₁.2.register (k := ram) (by decide) (by decide)).mono
    (fun _ b₂ h₂ => ?_) fun _ _ h => h))
  refine .bind (onBus_sat ((h₂.register (k := uartlite) (by decide) (by decide)).mono
    (fun _ b₃ h₃ => ?_) fun _ _ h => h))
  refine .bind (onBus_sat ((h₃.call (k := rvPLIC) hregister).mono (fun _ b₄ h₄ => ?_)
    fun _ _ h => h))
  refine .bind (onBus_sat ((h₄.2.register (k := rvCLInt) (by decide) (by decide)).mono
    (fun _ b₅ h₅ => ?_) fun _ _ h => h))
  refine .bind (onBus_sat ((h₅.register (k := rvPLIC) (by decide) (by decide)).mono
    (fun _ b₆ h₆ => ?_) fun _ _ h => h))
  refine .pure ⟨h₆, ?_, rfl, rfl⟩
  funext h
  cases h with
  | core0 => rfl
  | core1 => rfl

end Construct

end DefaultPlatform

end MEmu
