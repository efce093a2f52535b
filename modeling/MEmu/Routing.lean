import MEmu.Quiet

/-!
# Routing on the bus

Which device an access reaches.  The scan of `findDevAccordingToAddr` stops at the
device of lowest base among those whose range holds the address, and `devFindCache`
never disagrees with it: a device registered later starts above, since otherwise
its range would hold the base of the earlier one, a conflict.  Ranges are closed,
so an access can begin one byte past the end of a region, and its size is not
looked at.  `Confined` says when the device still gets what `MMIODev_I` asks for.

The second half is the bus of RAM devices, where a device answers from its bytes.
-/

namespace MEmu

open Run (Sat Keeps AbortsIn)

namespace MMIODev

variable {δ : Type} {d d' : MMIODev δ} {addr : Word}

/-- The range of a device is closed at both ends. -/
theorem isAddrInRange_iff :
    d.isAddrInRange addr = true ↔
      d.devBaseAddr ≤ addr ∧ addr ≤ d.devBaseAddr + d.addrRegionSize := by
  rw [isAddrInRange, Bool.and_eq_true, decide_eq_true_eq, decide_eq_true_eq]

/-- Two devices whose ranges share an address conflict when the later one starts
no higher. -/
theorem isAddrRegionConflict_of_le (h : d.isAddrInRange addr = true)
    (h' : d'.isAddrInRange addr = true) (hle : d.devBaseAddr ≤ d'.devBaseAddr) :
    d.isAddrRegionConflict d' = true := by
  rw [isAddrInRange_iff] at h h'
  have hend : d'.devBaseAddr ≤ d.devBaseAddr + d.addrRegionSize := BitVec.le_trans h'.1 h.2
  simp only [isAddrRegionConflict, decide_eq_true hle, decide_eq_true hend, Bool.and_self,
    Bool.true_or]

/-- A region that does not wrap conflicts with itself. -/
theorem isAddrRegionConflict_self (h : d.devBaseAddr.toNat + d.addrRegionSize.toNat < 2 ^ 64) :
    d.isAddrRegionConflict d = true := by
  have hbase : d.isAddrInRange d.devBaseAddr = true := by
    refine isAddrInRange_iff.mpr ⟨BitVec.le_refl _, ?_⟩
    rw [BitVec.le_def, BitVec.toNat_add, Nat.mod_eq_of_lt h]
    omega
  exact isAddrRegionConflict_of_le hbase hbase (BitVec.le_refl _)

/-- What `MMIODev_I` asks of an access: it begins in the region and ends in it. -/
structure Confined (d : MMIODev δ) (begin_addr size : Word) : Prop where
  base : d.devBaseAddr ≤ begin_addr
  region : (begin_addr - d.devBaseAddr).toNat + size.toNat ≤ d.addrRegionSize.toNat

/-- For an address in range, that is a bound on where the access ends. -/
theorem confined_iff {size : Word} (h : d.isAddrInRange addr = true) :
    d.Confined addr size ↔
      addr.toNat + size.toNat ≤ d.devBaseAddr.toNat + d.addrRegionSize.toNat := by
  have hbase := (isAddrInRange_iff.mp h).1
  have hsub := BitVec.toNat_sub_of_le hbase
  rw [BitVec.le_def] at hbase
  refine ⟨fun hc => ?_, fun hend => ⟨BitVec.le_def.mpr hbase, ?_⟩⟩
  · have := hc.region
    omega
  · omega

end MMIODev

namespace MEmuMMIOBus

variable {δ : Type} {b b' : MEmuMMIOBus δ} {addr : Word} {h : DevHandle}

/-! ## The lookup -/

/-- A search leaves the devices as they are. -/
theorem findDev_obj (addr : Word) (b : MEmuMMIOBus δ) :
    (findDevAccordingToAddr addr b).2.obj = b.obj := by
  unfold findDevAccordingToAddr
  split
  · rfl
  split <;> rfl

/-- A search leaves the list of devices as it is. -/
theorem findDev_mmioDevs (addr : Word) (b : MEmuMMIOBus δ) :
    (findDevAccordingToAddr addr b).2.mmioDevs = b.mmioDevs := by
  unfold findDevAccordingToAddr
  split
  · rfl
  split <;> rfl

/-- A lookup caches what it finds, and nothing else. -/
theorem findDev_cache (addr : Word) (b : MEmuMMIOBus δ) (a : Word) :
    (findDevAccordingToAddr addr b).2.devFindCache a
      = if a = addr then (findDevAccordingToAddr addr b).1 else b.devFindCache a := by
  unfold findDevAccordingToAddr
  split
  · split
    · rename_i h hc ha
      rw [ha, hc]
    · rfl
  · rename_i hc
    split
    · rfl
    · split
      · rename_i ha
        rw [ha, hc]
      · rfl

/-- Where the cache knows nothing, the lookup is the scan. -/
theorem findDev_fst (addr : Word) (b : MEmuMMIOBus δ) :
    (findDevAccordingToAddr addr b).1 = (b.devFindCache addr).or (b.scanDevs addr) := by
  unfold findDevAccordingToAddr
  split
  · rw [‹b.devFindCache addr = _›, Option.some_or]
  · rw [‹b.devFindCache addr = _›, Option.none_or]
    split <;> exact (‹b.scanDevs addr = _›).symm

theorem setObj_self (b : MEmuMMIOBus δ) (h : DevHandle) : b.setObj h (b.obj h) = b := by
  have hobj : (fun k => if k = h then b.obj h else b.obj k) = b.obj := by
    funext k
    split
    · rw [‹k = h›]
    · rfl
  rw [setObj, hobj]

/-- `h` is the device of lowest base among those whose range holds `addr`. -/
structure First (b : MEmuMMIOBus δ) (addr : Word) (h : DevHandle) : Prop where
  registered : h ∈ b.mmioDevs
  inRange : (b.obj h).isAddrInRange addr = true
  lowest : ∀ k ∈ b.mmioDevs, (b.obj k).isAddrInRange addr = true →
    (b.obj h).devBaseAddr ≤ (b.obj k).devBaseAddr

/-- The invariant of the bus under registrations and accesses. -/
structure Routed (b : MEmuMMIOBus δ) : Prop where
  sorted : b.mmioDevs.Pairwise fun d1 d2 => (b.obj d1).devBaseAddr ≤ (b.obj d2).devBaseAddr
  distinct : ∀ addr, ∀ h ∈ b.mmioDevs, ∀ k ∈ b.mmioDevs, (b.obj h).isAddrInRange addr = true →
    (b.obj k).isAddrInRange addr = true → (b.obj h).devBaseAddr = (b.obj k).devBaseAddr → h = k
  cached : ∀ addr h, b.devFindCache addr = some h → b.First addr h

/-- A routed bus has one first device for an address. -/
theorem First.eq (hb : b.Routed) {k : DevHandle} (hh : b.First addr h) (hk : b.First addr k) :
    h = k :=
  hb.distinct addr h hh.registered k hk.registered hh.inRange hk.inRange
    (BitVec.le_antisymm (hh.lowest k hk.registered hk.inRange)
      (hk.lowest h hh.registered hh.inRange))

/-- On a sorted list the scan stops at the lowest base. -/
theorem scanDevs_first (hb : b.Routed) (hs : b.scanDevs addr = some h) : b.First addr h := by
  obtain ⟨hin, before, after, hdevs, hbefore⟩ := List.find?_eq_some_iff_append.mp hs
  refine ⟨hdevs ▸ List.mem_append_right _ List.mem_cons_self, hin, fun k hk hkin => ?_⟩
  rw [hdevs] at hk
  rcases List.mem_append.mp hk with hk | hk
  · have := hbefore k hk
    rw [hkin] at this
    cases this
  · rcases List.mem_cons.mp hk with rfl | hk
    · exact BitVec.le_refl _
    · have hsorted := hb.sorted
      rw [hdevs] at hsorted
      exact (List.pairwise_cons.mp (List.pairwise_append.mp hsorted).2.1).1 k hk

/-- On a routed bus the search finds the first device. -/
theorem findDev_first (hb : b.Routed) (hf : (b.findDevAccordingToAddr addr).1 = some h) :
    b.First addr h := by
  rw [findDev_fst] at hf
  cases hc : b.devFindCache addr with
  | some k =>
      rw [hc, Option.some_or, Option.some.injEq] at hf
      exact hf ▸ hb.cached addr k hc
  | none =>
      rw [hc, Option.none_or] at hf
      exact scanDevs_first hb hf

/-- The lookup finds a device exactly where some range holds the address. -/
theorem findDev_iff (hb : b.Routed) :
    (b.findDevAccordingToAddr addr).1 = some h ↔ b.First addr h := by
  refine ⟨findDev_first hb, fun hh => ?_⟩
  cases hf : (b.findDevAccordingToAddr addr).1 with
  | some k => rw [(findDev_first hb hf).eq hb hh]
  | none =>
      rw [findDev_fst, Option.or_eq_none_iff] at hf
      have := List.find?_eq_none.mp hf.2 h hh.registered
      exact absurd hh.inRange this

/-! ## Accesses -/

/-- The two buses route alike: the same devices in the same regions, and the cache
as it was. -/
structure SameRoutes (b b' : MEmuMMIOBus δ) : Prop where
  mmioDevs : b'.mmioDevs = b.mmioDevs
  devFindCache : b'.devFindCache = b.devFindCache
  devBaseAddr : ∀ h, (b'.obj h).devBaseAddr = (b.obj h).devBaseAddr
  addrRegionSize : ∀ h, (b'.obj h).addrRegionSize = (b.obj h).addrRegionSize

theorem SameRoutes.isAddrInRange (hr : SameRoutes b b') (h : DevHandle) (addr : Word) :
    (b'.obj h).isAddrInRange addr = (b.obj h).isAddrInRange addr := by
  rw [MMIODev.isAddrInRange, MMIODev.isAddrInRange, hr.devBaseAddr, hr.addrRegionSize]

/-- A bus that routes alike has the same first device. -/
theorem First.routes (hh : b.First addr h) (hr : SameRoutes b b') : b'.First addr h := by
  refine ⟨hr.mmioDevs ▸ hh.registered, hr.isAddrInRange h addr ▸ hh.inRange, fun k hk hkin => ?_⟩
  rw [hr.devBaseAddr, hr.devBaseAddr]
  exact hh.lowest k (hr.mmioDevs ▸ hk) (hr.isAddrInRange k addr ▸ hkin)

theorem Routed.routes (hb : b.Routed) (hr : SameRoutes b b') : b'.Routed := by
  refine ⟨?_, fun addr h hh k hk hin hkin heq => ?_, fun addr h hc => ?_⟩
  · rw [hr.mmioDevs]
    refine hb.sorted.imp fun {d1 d2} hle => ?_
    rw [hr.devBaseAddr, hr.devBaseAddr]
    exact hle
  · rw [hr.mmioDevs] at hh hk
    rw [hr.isAddrInRange] at hin hkin
    rw [hr.devBaseAddr, hr.devBaseAddr] at heq
    exact hb.distinct addr h hh k hk hin hkin heq
  · rw [hr.devFindCache] at hc
    exact (hb.cached addr h hc).routes hr

/-- A search keeps a bus routed. -/
theorem Routed.find (hb : b.Routed) (addr : Word) : (b.findDevAccordingToAddr addr).2.Routed := by
  have hobj := b.findDev_obj addr
  have hdevs := b.findDev_mmioDevs addr
  have hfirst : ∀ {a h}, b.First a h → (b.findDevAccordingToAddr addr).2.First a h := by
    intro a h hh
    refine ⟨hdevs ▸ hh.registered, hobj ▸ hh.inRange, fun k hk hkin => ?_⟩
    rw [hobj] at hkin ⊢
    exact hh.lowest k (hdevs ▸ hk) hkin
  refine ⟨?_, ?_, fun a h hc => hfirst ?_⟩
  · rw [hobj, hdevs]
    exact hb.sorted
  · rw [hobj, hdevs]
    exact hb.distinct
  · rw [findDev_cache] at hc
    split at hc
    · rename_i ha
      exact findDev_first hb (ha ▸ hc)
    · exact hb.cached a h hc

/-- A call of a device is a call on the bus that changes this device only. -/
theorem run_callDev {α : Type} (h : DevHandle) (method : EStateM Abort δ α)
    (b : MEmuMMIOBus δ) :
    (callDev h method).run b = match method.run (b.obj h).dev with
      | .ok a dev => .ok a (b.setObj h { b.obj h with dev := dev })
      | .error e dev => .error e (b.setObj h { b.obj h with dev := dev }) := rfl

/-- A call of a device changes no route. -/
theorem callDev_sameRoutes {α : Type} (h : DevHandle) (method : EStateM Abort δ α) :
    Keeps SameRoutes (callDev h method) := by
  have hset : ∀ (b : MEmuMMIOBus δ) (dev : δ),
      SameRoutes b (b.setObj h { b.obj h with dev := dev }) := by
    intro b dev
    refine ⟨rfl, rfl, fun k => ?_, fun k => ?_⟩
    all_goals
      simp only [setObj]
      split
      · rw [‹k = h›]
      · rfl
  intro b
  refine .intro (fun a b' hr => ?_) fun e b' hr => ?_
  all_goals
    rw [run_callDev] at hr
    split at hr <;> cases hr
    exact hset _ _

section Access

variable [MMIODevI δ]

/-- A read is forwarded to the device found, at an offset into its region. -/
theorem run_paddrReadBuffer (begin_addr size : Word) (buffer : List Byte) (b : MEmuMMIOBus δ) :
    (paddrReadBuffer begin_addr size buffer).run b
      = match (b.findDevAccordingToAddr begin_addr).1 with
        | none => .ok (.notAccessible, buffer) (b.findDevAccordingToAddr begin_addr).2
        | some h =>
            (do
              let r ← callDev h (MMIODevI.readBuffer
                (begin_addr - (b.obj h).devBaseAddr) size buffer)
              pure (FuncReturnFeedback.ok, r.2)).run (b.findDevAccordingToAddr begin_addr).2 := by
  have hobj := b.findDev_obj begin_addr
  simp only [paddrReadBuffer, EStateM.run_bind, EStateM.run_modifyGet]
  generalize b.findDevAccordingToAddr begin_addr = r at hobj ⊢
  obtain ⟨dev, b'⟩ := r
  cases dev with
  | none => rfl
  | some h =>
      simp only at hobj
      simp only [EStateM.run_bind, EStateM.run_get, hobj]

/-- A write is forwarded to the device found, at an offset into its region. -/
theorem run_paddrWriteBuffer (begin_addr size : Word) (buffer : List Byte) (b : MEmuMMIOBus δ) :
    (paddrWriteBuffer begin_addr size buffer).run b
      = match (b.findDevAccordingToAddr begin_addr).1 with
        | none => .ok .notAccessible (b.findDevAccordingToAddr begin_addr).2
        | some h =>
            (do
              let _ ← callDev h (MMIODevI.writeBuffer
                (begin_addr - (b.obj h).devBaseAddr) size buffer)
              pure FuncReturnFeedback.ok).run (b.findDevAccordingToAddr begin_addr).2 := by
  have hobj := b.findDev_obj begin_addr
  simp only [paddrWriteBuffer, EStateM.run_bind, EStateM.run_modifyGet]
  generalize b.findDevAccordingToAddr begin_addr = r at hobj ⊢
  obtain ⟨dev, b'⟩ := r
  cases dev with
  | none => rfl
  | some h =>
      simp only at hobj
      simp only [EStateM.run_bind, EStateM.run_get, hobj]

/-- A read that is dispatched to a device returns `MEMU_OK` if it returns. -/
theorem paddrReadBuffer_found {addr : Word} {b : MEmuMMIOBus δ}
    (h : (b.findDevAccordingToAddr addr).1 ≠ none) (size : Word) (buffer : List Byte) :
    Sat b (MEmuMMIOBus.paddrReadBuffer addr size buffer) (fun r _ => r.1 = .ok)
      (fun _ _ => True) := by
  unfold Sat
  rw [MEmuMMIOBus.run_paddrReadBuffer]
  cases hfind : (b.findDevAccordingToAddr addr).1 with
  | none => exact absurd hfind h
  | some d => exact Sat.bind_any fun _ _ => .pure rfl

/-- A write that is dispatched to a device returns `MEMU_OK` if it returns. -/
theorem paddrWriteBuffer_found {addr : Word} {b : MEmuMMIOBus δ}
    (h : (b.findDevAccordingToAddr addr).1 ≠ none) (size : Word) (buffer : List Byte) :
    Sat b (paddrWriteBuffer addr size buffer) (fun fb _ => fb = .ok) (fun _ _ => True) := by
  unfold Sat
  rw [run_paddrWriteBuffer]
  cases hfind : (b.findDevAccordingToAddr addr).1 with
  | none => exact absurd hfind h
  | some d => exact Sat.bind_any fun _ _ => .pure rfl

/-- A read keeps a bus routed. -/
theorem paddrReadBuffer_routed (begin_addr size : Word) (buffer : List Byte) (hb : b.Routed) :
    Sat b (paddrReadBuffer begin_addr size buffer) (fun _ => Routed) (fun _ => Routed) := by
  refine .bind (.modifyGet ?_)
  have hfind := hb.find begin_addr
  split
  · exact .pure hfind
  · refine .bind (.get (.bind ?_))
    exact (callDev_sameRoutes _ _ _).mono (fun _ _ hr => .pure (hfind.routes hr))
      fun _ _ hr => hfind.routes hr

/-- A write keeps a bus routed. -/
theorem paddrWriteBuffer_routed (begin_addr size : Word) (buffer : List Byte) (hb : b.Routed) :
    Sat b (paddrWriteBuffer begin_addr size buffer) (fun _ => Routed) (fun _ => Routed) := by
  refine .bind (.modifyGet ?_)
  have hfind := hb.find begin_addr
  split
  · exact .pure hfind
  · refine .bind (.get (.bind ?_))
    exact (callDev_sameRoutes _ _ _).mono (fun _ _ hr => .pure (hfind.routes hr))
      fun _ _ hr => hfind.routes hr

end Access

/-! ## Registrations -/

/-- A registration that completes: no conflict, and the device sorted in. -/
theorem registerMMIODev_ok {base_addr : Word} {fb : FuncReturnFeedback}
    (hr : (registerMMIODev h base_addr).run b = .ok fb b') :
    b'.obj = (b.setObj h { b.obj h with devBaseAddr := base_addr }).obj ∧
      b'.devFindCache = b.devFindCache ∧
      (∀ k ∈ b.mmioDevs, (b'.obj h).isAddrRegionConflict (b'.obj k) = false) ∧
      b'.mmioDevs = (b.mmioDevs ++ [h]).insertionSort fun d1 d2 =>
        (b'.obj d1).devBaseAddr ≤ (b'.obj d2).devBaseAddr := by
  simp only [registerMMIODev, EStateM.run_bind, EStateM.run_modify, EStateM.run_get] at hr
  split at hr
  · cases hr
  · rename_i hconflict
    cases hr
    refine ⟨rfl, rfl, fun k hk => ?_, rfl⟩
    rw [Bool.not_eq_true, List.any_eq_false] at hconflict
    exact Bool.eq_false_iff.mpr (hconflict k hk)

/-- A device not registered yet, or registered again where its region does not wrap. -/
def KeepsInRange (b : MEmuMMIOBus δ) (h : DevHandle) (base_addr : Word) : Prop :=
  h ∈ b.mmioDevs → base_addr.toNat + (b.obj h).addrRegionSize.toNat < 2 ^ 64

/-- A registration keeps a routed bus: a device registered again would conflict with itself, and
where two ranges meet the new device starts above the old one. -/
theorem registerMMIODev_routed {base_addr : Word} {fb : FuncReturnFeedback} (hb : b.Routed)
    (hP : b.KeepsInRange h base_addr)
    (hr : (registerMMIODev h base_addr).run b = .ok fb b') : b'.Routed := by
  obtain ⟨hobj, hcache, hconflict, hdevs⟩ := registerMMIODev_ok hr
  have hself : (b'.obj h).addrRegionSize = (b.obj h).addrRegionSize := by
    rw [hobj]
    simp only [setObj, if_pos]
  have hbase : (b'.obj h).devBaseAddr = base_addr := by
    rw [hobj]
    simp only [setObj, if_pos]
  have hnew : h ∉ b.mmioDevs := fun hmem => by
    have := MMIODev.isAddrRegionConflict_self (d := b'.obj h) (by
      rw [hself, hbase]
      exact hP hmem)
    rw [hconflict h hmem] at this
    cases this
  have hold : ∀ k ∈ b.mmioDevs, b'.obj k = b.obj k := fun k hk => by
    rw [hobj]
    exact if_neg (ne_of_mem_of_not_mem hk hnew)
  have hmem : ∀ k, k ∈ b'.mmioDevs ↔ k ∈ b.mmioDevs ∨ k = h := fun k => by
    rw [hdevs, List.mem_insertionSort, List.mem_append, List.mem_singleton]
  have habove : ∀ addr, ∀ k ∈ b.mmioDevs, (b'.obj h).isAddrInRange addr = true →
      (b'.obj k).isAddrInRange addr = true → ¬ (b'.obj h).devBaseAddr ≤ (b'.obj k).devBaseAddr := by
    intro addr k hk hin hkin hle
    have := MMIODev.isAddrRegionConflict_of_le hin hkin hle
    rw [hconflict k hk] at this
    cases this
  refine ⟨?_, fun addr j hj k hk hjin hkin heq => ?_, fun addr j hc => ?_⟩
  · rw [hdevs]
    have htotal : Std.Total fun d1 d2 : DevHandle =>
        (b'.obj d1).devBaseAddr ≤ (b'.obj d2).devBaseAddr := ⟨fun _ _ => BitVec.le_total _ _⟩
    have htrans : IsTrans DevHandle fun d1 d2 =>
        (b'.obj d1).devBaseAddr ≤ (b'.obj d2).devBaseAddr := ⟨fun _ _ _ => BitVec.le_trans⟩
    exact List.pairwise_insertionSort _ _
  · rcases (hmem j).mp hj with hj | rfl <;> rcases (hmem k).mp hk with hk | rfl
    · rw [hold j hj, hold k hk] at heq
      rw [hold j hj] at hjin
      rw [hold k hk] at hkin
      exact hb.distinct addr j hj k hk hjin hkin heq
    · exact absurd (heq ▸ BitVec.le_refl _) (habove addr j hj hkin hjin)
    · exact absurd (heq ▸ BitVec.le_refl _) (habove addr k hk hjin hkin)
    · rfl
  · rw [hcache] at hc
    obtain ⟨hj, hjin, hlow⟩ := hb.cached addr j hc
    rw [← hold j hj] at hjin
    refine ⟨(hmem j).mpr (.inl hj), hjin, fun k hk hkin => ?_⟩
    rcases (hmem k).mp hk with hk | rfl
    · rw [hold k hk] at hkin ⊢
      rw [hold j hj]
      exact hlow k hk hkin
    · exact BitVec.le_of_lt (BitVec.not_le.mp (habove addr j hj hkin hjin))

/-! ## Runs of the bus -/

section Reach

variable [MMIODevI δ]

/-- The buses reached by registrations that satisfy `P` and by accesses. -/
inductive BusReach (P : MEmuMMIOBus δ → DevHandle → Word → Prop) : MEmuMMIOBus δ → Prop where
  | empty (obj : DevHandle → MMIODev δ) : BusReach P (empty obj)
  | register {b b' : MEmuMMIOBus δ} (hb : BusReach P b) (h : DevHandle) (base_addr : Word)
      {fb : FuncReturnFeedback} (hP : P b h base_addr)
      (hr : (registerMMIODev h base_addr).run b = .ok fb b') : BusReach P b'
  | read {b b' : MEmuMMIOBus δ} (hb : BusReach P b) (begin_addr size : Word) (buffer : List Byte)
      {r : FuncReturnFeedback × List Byte}
      (hr : (paddrReadBuffer begin_addr size buffer).run b = .ok r b') : BusReach P b'
  | write {b b' : MEmuMMIOBus δ} (hb : BusReach P b) (begin_addr size : Word) (buffer : List Byte)
      {fb : FuncReturnFeedback}
      (hr : (paddrWriteBuffer begin_addr size buffer).run b = .ok fb b') : BusReach P b'

/-- Every bus that is reached is routed. -/
theorem BusReach.routed (hb : BusReach KeepsInRange b) : b.Routed := by
  induction hb with
  | empty obj => exact ⟨.nil, nofun, nofun⟩
  | register hb h base_addr hP hr ih => exact registerMMIODev_routed ih hP hr
  | read hb begin_addr size buffer hr ih =>
      exact (paddrReadBuffer_routed begin_addr size buffer ih).ok hr
  | write hb begin_addr size buffer hr ih =>
      exact (paddrWriteBuffer_routed begin_addr size buffer ih).ok hr

/-- The device that an access at `begin_addr` is forwarded to gets a confined
access exactly when the access ends by the end of the region of the device first
in range. -/
theorem forwarded_confined (hb : BusReach KeepsInRange b) (begin_addr size : Word) :
    (∀ h, (b.findDevAccordingToAddr begin_addr).1 = some h → (b.obj h).Confined begin_addr size) ↔
      ∀ h, b.First begin_addr h →
        begin_addr.toNat + size.toNat ≤
          (b.obj h).devBaseAddr.toNat + (b.obj h).addrRegionSize.toNat := by
  refine forall_congr' fun h => ?_
  rw [findDev_iff hb.routed]
  exact forall_congr' fun hh => MMIODev.confined_iff hh.inRange

end Reach

/-- A bus with one RAM device of 16 bytes at address 0. -/
def oneDevice : MEmuMMIOBus MMIOMem :=
  Run.final ((registerMMIODev 0 0).run (empty fun _ => MMIOMem.ofBytes (List.replicate 16 0)))

theorem oneDevice_reach (P : MEmuMMIOBus MMIOMem → DevHandle → Word → Prop)
    (hP : P (empty fun _ => MMIOMem.ofBytes (List.replicate 16 0)) 0 0) : BusReach P oneDevice :=
  have hr : (registerMMIODev 0 0).run (empty fun _ => MMIOMem.ofBytes (List.replicate 16 0))
      = .ok .ok oneDevice := rfl
  .register (.empty _) 0 0 hP hr

theorem forwarded_confined_last : (oneDevice.obj 0).Confined 8 8 := by
  refine (forwarded_confined (oneDevice_reach KeepsInRange nofun) 8 8).mpr (fun h hh => ?_) 0 rfl
  have hmem : h ∈ [0] := hh.registered
  rw [List.mem_singleton.mp hmem]
  decide

/-- The byte after the region is in range. -/
theorem forwarded_past_end :
    ¬ ∀ b : MEmuMMIOBus MMIOMem, BusReach (fun _ _ _ => True) b → ∀ begin_addr size h,
      (b.findDevAccordingToAddr begin_addr).1 = some h → (b.obj h).Confined begin_addr size := by
  intro hall
  have := (hall oneDevice (oneDevice_reach _ trivial) 16 1 0 rfl).region
  revert this
  decide

end MEmuMMIOBus

/-! ## RAM behind the bus -/

/-- The bus of the platform with RAM devices. -/
abbrev RAMBus := MEmuMMIOBus MMIOMem

namespace RAMBus

/-- RAM answers the reads that lie in its buffer. -/
theorem mem_readBuffer (m : MMIOMem) (begin_addr size : Word) (buffer : List Byte) :
    (MMIOMem.readBuffer begin_addr size buffer).run m
      = if m.inBuffer begin_addr size then .ok (.ok, m.bytesAt begin_addr size) m
        else .error .outOfBuffer m := by
  unfold MMIOMem.readBuffer
  simp only [EStateM.run_bind, EStateM.run_get]
  split <;> rfl

/-- A read by the bus: the device found, if any, answers from its bytes. -/
theorem run_read (b : RAMBus) (begin_addr size : Word) (buffer : List Byte) :
    (MMIOBus.paddrReadBuffer begin_addr size buffer).run b
      = match (b.findDevAccordingToAddr begin_addr).1 with
        | none => .ok (.notAccessible, buffer) (b.findDevAccordingToAddr begin_addr).2
        | some h =>
            if (b.obj h).dev.inBuffer (begin_addr - (b.obj h).devBaseAddr) size then
              .ok (.ok, (b.obj h).dev.bytesAt (begin_addr - (b.obj h).devBaseAddr) size)
                (b.findDevAccordingToAddr begin_addr).2
            else .error .outOfBuffer (b.findDevAccordingToAddr begin_addr).2 := by
  refine (MEmuMMIOBus.run_paddrReadBuffer begin_addr size buffer b).trans ?_
  have hobj := b.findDev_obj begin_addr
  generalize b.findDevAccordingToAddr begin_addr = r at hobj ⊢
  obtain ⟨dev, b'⟩ := r
  cases dev with
  | none => rfl
  | some h =>
      simp only at hobj
      have hself : b'.setObj h { b'.obj h with dev := (b'.obj h).dev } = b' := b'.setObj_self h
      simp only [EStateM.run_bind, MEmuMMIOBus.run_callDev, MMIODevI.readBuffer, mem_readBuffer,
        ← hobj]
      by_cases hin : (b'.obj h).dev.inBuffer (begin_addr - (b'.obj h).devBaseAddr) size
      · simp only [if_pos hin, hself, EStateM.run_pure]
      · simp only [if_neg hin, hself]

/-- RAM stores the writes that lie in its buffer. -/
theorem mem_writeBuffer (m : MMIOMem) (begin_addr size : Word) (buffer : List Byte) :
    (MMIOMem.writeBuffer begin_addr size buffer).run m
      = if m.inBuffer begin_addr size then .ok .ok (m.store begin_addr size buffer)
        else .error .outOfBuffer m := by
  unfold MMIOMem.writeBuffer
  simp only [EStateM.run_bind, EStateM.run_get]
  split <;> rfl

/-- A write by the bus: the device found, if any, stores the bytes. -/
theorem run_write (b : RAMBus) (begin_addr size : Word) (buffer : List Byte) :
    (MMIOBus.paddrWriteBuffer begin_addr size buffer).run b
      = match (b.findDevAccordingToAddr begin_addr).1 with
        | none => .ok .notAccessible (b.findDevAccordingToAddr begin_addr).2
        | some h =>
            if (b.obj h).dev.inBuffer (begin_addr - (b.obj h).devBaseAddr) size then
              .ok .ok ((b.findDevAccordingToAddr begin_addr).2.setObj h
                { b.obj h with
                  dev := (b.obj h).dev.store (begin_addr - (b.obj h).devBaseAddr) size buffer })
            else .error .outOfBuffer (b.findDevAccordingToAddr begin_addr).2 := by
  refine (MEmuMMIOBus.run_paddrWriteBuffer begin_addr size buffer b).trans ?_
  have hobj := b.findDev_obj begin_addr
  generalize b.findDevAccordingToAddr begin_addr = r at hobj ⊢
  obtain ⟨dev, b'⟩ := r
  cases dev with
  | none => rfl
  | some h =>
      simp only at hobj
      have hself : b'.setObj h { b'.obj h with dev := (b'.obj h).dev } = b' := b'.setObj_self h
      simp only [EStateM.run_bind, MEmuMMIOBus.run_callDev, MMIODevI.writeBuffer, mem_writeBuffer,
        ← hobj]
      by_cases hin : (b'.obj h).dev.inBuffer (begin_addr - (b'.obj h).devBaseAddr) size
      · simp only [if_pos hin, EStateM.run_pure]
      · simp only [if_neg hin, hself]

/-- A read of RAM changes no device. -/
theorem read_obj (b : RAMBus) (begin_addr size : Word) (buffer : List Byte) :
    (Run.final ((MMIOBus.paddrReadBuffer begin_addr size buffer).run b)).obj = b.obj := by
  rw [run_read]
  split
  · exact b.findDev_obj begin_addr
  · split <;> exact b.findDev_obj begin_addr

/-- So do any number of reads. -/
theorem reads_obj {b b' : RAMBus} (h : BusReads b b') : b'.obj = b.obj := by
  induction h with
  | refl => rfl
  | read h addr size buffer ih => exact (read_obj _ addr size buffer).trans ih

/-- A write that is refused stores nothing. -/
theorem write_refused {b b' : RAMBus} {begin_addr size : Word} {buffer : List Byte}
    {fb : FuncReturnFeedback}
    (h : (MMIOBus.paddrWriteBuffer begin_addr size buffer).run b = .ok fb b') (hfb : fb ≠ .ok) :
    b'.obj = b.obj := by
  rw [run_write] at h
  split at h
  · cases h
    exact b.findDev_obj begin_addr
  · split at h <;> cases h
    exact absurd rfl hfb

/-- The one way a call of RAM aborts. -/
theorem read_aborts {P : Abort → Prop} (hP : P .outOfBuffer) (begin_addr size : Word)
    (buffer : List Byte) :
    AbortsIn P (MMIOBus.paddrReadBuffer begin_addr size buffer : EStateM Abort RAMBus _) := by
  intro b
  refine .intro (fun _ _ _ => trivial) fun e b' h => ?_
  rw [run_read] at h
  split at h
  · cases h
  · split at h <;> cases h
    exact hP

/-- A write of RAM aborts outside the buffer only. -/
theorem write_aborts {P : Abort → Prop} (hP : P .outOfBuffer) (begin_addr size : Word)
    (buffer : List Byte) :
    AbortsIn P (MMIOBus.paddrWriteBuffer begin_addr size buffer : EStateM Abort RAMBus _) := by
  intro b
  refine .intro (fun _ _ _ => trivial) fun e b' h => ?_
  rw [run_write] at h
  split at h
  · cases h
  · split at h <;> cases h
    exact hP

end RAMBus

end MEmu
