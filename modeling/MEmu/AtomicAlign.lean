import MEmu.Refusals

/-!
# Misaligned atomic accesses

The wrappers `memRead` and `memWrite` refuse an address that is not a multiple of
the width.  The three atomic accesses are given to the MMU without them, and the MMU
only refuses to cross a page.  So a misaligned atomic access goes where its address
leads, and traps for it only where something on the way does.
-/

namespace MEmu

open Machine (onCore)
open Run (Sat)

namespace MemOp

/-- A load-reserved, a store-conditional or an AMO. -/
def IsAtomic : MemOp → Prop
  | loadReserved .. | storeConditional .. | amo .. => True
  | load .. | store .. => False

/-- A load-reserved that would record the reservation held already, or an AMO. -/
def KeepsReservation (env : MMUEnv) (m : RV64SV39MMU) : MemOp → Prop
  | loadReserved addr size => MMUSys.reservationLost env addr size m = false
  | amo .. => True
  | load .. | store .. | storeConditional .. => False

theorem IsAtomic.unchecked {op : MemOp} (h : op.IsAtomic) : op.checksAlign = false := by
  cases op with
  | loadReserved | storeConditional | amo => rfl
  | load | store => cases h

theorem IsAtomic.misalign_eq {op : MemOp} (h : op.IsAtomic) : op.misalign = .storeMisalign := by
  cases op with
  | loadReserved | storeConditional | amo => rfl
  | load | store => cases h

end MemOp

/-- The causes that a misaligned access may end in. -/
def IsAlignCause (cause : ExecFeedbackCode) : Prop :=
  cause ∈ [ExecFeedbackCode.loadMisalign, .storeMisalign, .loadAccFault, .storeAccFault]

instance : DecidablePred IsAlignCause := fun _ => inferInstanceAs (Decidable (_ ∈ _))

/-- From `s` to `s'` the bus is only read, and the reservation is the same.  A read
stores nothing in RAM (`RAMBus.reads_obj`). -/
structure LeavesAlone {β : Type} [MMIOBus β] (s s' : MMUSys β) : Prop where
  reservation : s'.mmu.reservation = s.mmu.reservation
  reads : BusReads s.sysBus s'.sysBus

theorem LeavesAlone.trans {β : Type} [MMIOBus β] {s s' s'' : MMUSys β} (h : LeavesAlone s s')
    (h' : LeavesAlone s' s'') : LeavesAlone s s'' :=
  ⟨h'.reservation.trans h.reservation, h.reads.trans h'.reads⟩

theorem Quiet.leavesAlone {β : Type} [MMIOBus β] {s s' : MMUSys β} (h : Quiet s s') :
    LeavesAlone s s' := ⟨h.reservation, h.reads⟩

/-- The reservation of a load-reserved is there already. -/
theorem reserve_reservation_iff (env : MMUEnv) (addr size : Word) (m : RV64SV39MMU) :
    (m.reserve env addr size).reservation = m.reservation ↔
      MMUSys.reservationLost env addr size m = false := by
  simp only [RV64SV39MMU.reserve, RV64SV39MMU.reservation, MMUSys.reservationLost, Prod.mk.injEq,
    Bool.or_eq_false_iff, Bool.not_eq_false', bne_eq_false_iff_eq]
  constructor
  · rintro ⟨hv, hpa, hsize, hhart⟩
    exact ⟨⟨⟨hv.symm, hpa.symm⟩, hsize.symm⟩, hhart.symm⟩
  · rintro ⟨⟨⟨hv, hpa⟩, hsize⟩, hhart⟩
    exact ⟨hv.symm, hpa.symm, hsize.symm, hhart.symm⟩

section Access

variable {δ : Type} [MMIODevI δ] {env : MMUEnv} {s : MMUSys (MEmuMMIOBus δ)} {bare : Bool}
  {paddr : Word} {op : MemOp}

/-! ## The access where it goes -/

/-- A read where there is no device, which still is a read. -/
theorem read_unowned {addr : Word} {b : MEmuMMIOBus δ}
    (h : (b.findDevAccordingToAddr addr).1 = none) (size : Word) (buffer : List Byte) :
    ∃ b', (MMIOBus.paddrReadBuffer addr size buffer).run b = .ok (.notAccessible, buffer) b' ∧
      BusReads b b' := by
  have hrun : (MMIOBus.paddrReadBuffer addr size buffer).run b
      = .ok (.notAccessible, buffer) (b.findDevAccordingToAddr addr).2 := by
    refine (MEmuMMIOBus.run_paddrReadBuffer addr size buffer b).trans ?_
    rw [h]
  have hreads := BusReads.read (.refl b) addr size buffer
  rw [hrun] at hreads
  exact ⟨_, hrun, hreads⟩

/-- Where there is no device, an AMO and a load-reserved fail at their read. -/
theorem access_unowned (h : (s.sysBus.findDevAccordingToAddr paddr).1 = none)
    (hop : op.KeepsReservation env s.mmu) :
    ∃ s', (op.access env bare paddr).run s = .ok (.error .storeAccFault) s' ∧ LeavesAlone s s' := by
  cases op with
  | load | store | storeConditional => cases hop
  | loadReserved addr size =>
      obtain ⟨b', hread, hreads⟩ := read_unowned h size (env.uninit size.toNat)
      refine ⟨{ s with
        mmu := s.mmu.reserve env addr size
        sysBus := b'
        busLog := s.busLog ++ [⟨.loadReserved, paddr, size, false⟩] }, ?_, ?_, hreads⟩
      · simp only [MemOp.access, MMUSys.reservedRead, EStateM.run_bind, MMUSys.run_onMMU,
          EStateM.run_modify, busRead, run_busCall, hread]
        rfl
      · exact (reserve_reservation_iff env addr size s.mmu).mpr hop
  | amo f addr size src =>
      obtain ⟨b', hread, hreads⟩ := read_unowned h size (env.uninit size.toNat)
      refine ⟨{ s with
        sysBus := b'
        busLog := s.busLog ++ [⟨.amoRead, paddr, size, false⟩] }, ?_, rfl, hreads⟩
      simp only [MemOp.access, MMUSys.paAmoOp, EStateM.run_bind, busRead, run_busCall, hread]
      rfl

/-- An access that fails and leaves the reservation as it is records none, or that one. -/
theorem access_keeps (hop : op.IsAtomic) :
    Sat s (op.access env bare paddr)
      (fun r s' => (∃ cause, r = .error cause) → s'.mmu.reservation = s.mmu.reservation →
        op.KeepsReservation env s.mmu)
      (fun _ _ => True) := by
  cases op with
  | load | store => cases hop
  | loadReserved addr size =>
      refine .bind (.bind (MMUSys.onMMU_sat (.modify ?_)))
      refine .bind (busCall_sat (fun r b hr => .pure (.pure fun _ hres => ?_)) fun _ _ _ => trivial)
      exact (reserve_reservation_iff env addr size s.mmu).mp hres
  | storeConditional addr size data =>
      refine .bind (.bind (.get (.ite (fun _ => ?_) fun hkept => ?_)))
      · refine .bind (MMUSys.onMMU_sat (.modify (.pure (.pure ?_))))
        rintro ⟨cause, hcause⟩
        cases hcause
      · refine .bind (MMUSys.onMMU_sat (.modify ?_))
        refine .bind (busCall_sat (fun fb b hr => .pure (.pure fun _ hres => ?_))
          fun _ _ _ => trivial)
        have hdropped : false = s.mmu.lr_valid := congrArg Prod.fst hres
        exact absurd (by simp [MMUSys.reservationLost, ← hdropped]) hkept
  | amo f addr size src => exact .intro (fun _ _ _ _ _ => trivial) fun _ _ _ => trivial

/-! ## The way there -/

/-- The faults on the way of an atomic access.  The one for its alignment is that it
crosses a page. -/
theorem locate_fault (hop : op.IsAtomic) :
    Sat s (op.locate env)
      (fun place _ => ∀ fault, place = .error fault →
        (fault = .storeMisalign ∧ env.bareData = false ∧ ¬InPage op.addr op.size) ∨
          fault = .storePgfault ∨ fault = .storeAccFault)
      (fun _ _ => True) := by
  have hpgfault : op.pgfault = .storePgfault := by
    cases op <;> first | rfl | cases hop
  have haccFault : op.accFault = .storeAccFault := by
    cases op <;> first | rfl | cases hop
  refine .ite (fun _ => .pure nofun) fun hb => ?_
  refine pagedAddr_sat (T := fun _ _ => True) (fun _ => Sat.trivial) (fun hcross => ?_)
    (fun _ _ => ?_) (fun _ _ fault _ hcheck => ?_) (fun _ _ _ _ => trivial) fun _ _ _ _ => nofun
  · rintro _ ⟨⟩
    exact .inl ⟨hop.misalign_eq, Bool.eq_false_iff.mpr hb, hcross⟩
  · rintro _ ⟨⟩
    exact .inr (.inl hpgfault)
  · rintro _ ⟨⟩
    rcases MemOp.check_fault hcheck with rfl | rfl
    · exact .inr (.inl hpgfault)
    · exact .inr (.inr haccFault)

/-- The states from which a misaligned atomic access leaves everything alone: it
crosses a page, the rights of its page deny it, or no device is there and it has
nothing to reserve that is not reserved. -/
inductive SparedAt (env : MMUEnv) (s : MMUSys (MEmuMMIOBus δ)) (op : MemOp) : Prop where
  | crosses (hpaged : env.bareData = false) (hcross : ¬InPage op.addr op.size)
  | denied (s₁ : MMUSys (MEmuMMIOBus δ))
      (hplace : (op.locate env).run s = .ok (.error .storeAccFault) s₁)
  | unowned (paddr : Word) (s₁ : MMUSys (MEmuMMIOBus δ))
      (hplace : (op.locate env).run s = .ok (.ok paddr) s₁)
      (hnone : (s₁.sysBus.findDevAccordingToAddr paddr).1 = none)
      (hkeeps : op.KeepsReservation env s₁.mmu)

/-- An atomic access that ends in a fault for its alignment and keeps the reservation
was spared. -/
theorem spared_of_fault (hop : op.IsAtomic) {cause : ExecFeedbackCode}
    {s' : MMUSys (MEmuMMIOBus δ)} (hrun : (op.perform env).run s = .ok (.error cause) s')
    (hcause : IsAlignCause cause) (hres : s'.mmu.reservation = s.mmu.reservation) :
    SparedAt env s op := by
  rw [MemOp.perform_eq_reach hop.unchecked, EStateM.run_bind] at hrun
  cases hplace : (op.locate env).run s with
  | error e s₁ =>
      rw [hplace] at hrun
      cases hrun
  | ok place s₁ =>
      rw [hplace] at hrun
      have hquiet : Quiet s s₁ := (op.locate_quiet env s).ok hplace
      cases place with
      | error fault =>
          cases hrun
          rcases (locate_fault hop).ok hplace _ rfl with ⟨-, hb, hcross⟩ | rfl | rfl
          · exact .crosses hb hcross
          · exact absurd hcause (by decide)
          · exact .denied _ hplace
      | ok paddr =>
          by_cases hfound : (s₁.sysBus.findDevAccordingToAddr paddr).1 = none
          · refine .unowned paddr s₁ hplace hfound ((access_keeps hop).ok hrun ⟨cause, rfl⟩ ?_)
            exact hres.trans hquiet.reservation.symm
          · obtain ⟨v, hv⟩ := (access_found _ hfound).ok hrun
            cases hv

/-- An atomic access that is spared ends in a fault for its alignment and leaves
everything alone. -/
theorem fault_of_spared (hop : op.IsAtomic) (h : SparedAt env s op) :
    ∃ cause s', (op.perform env).run s = .ok (.error cause) s' ∧ IsAlignCause cause ∧
      LeavesAlone s s' := by
  rw [MemOp.perform_eq_reach hop.unchecked, EStateM.run_bind]
  cases h with
  | crosses hpaged hcross =>
      have hpages : op.addr >>> 12 ≠ (op.addr + op.size - 1) >>> 12 := hcross
      have hplace : (op.locate env).run s = .ok (.error op.misalign) s := by
        rw [MemOp.locate, if_neg (Bool.eq_false_iff.mp hpaged), MMUSys.pagedAddr, if_pos hpages]
        rfl
      rw [hplace]
      exact ⟨_, s, rfl, by rw [hop.misalign_eq]; decide, rfl, .refl _⟩
  | denied s₁ hplace =>
      have hquiet : Quiet s s₁ := (op.locate_quiet env s).ok hplace
      rw [hplace]
      exact ⟨_, s₁, rfl, by decide, hquiet.leavesAlone⟩
  | unowned paddr s₁ hplace hnone hkeeps =>
      have hquiet : Quiet s s₁ := (op.locate_quiet env s).ok hplace
      obtain ⟨s', hrun, halone⟩ := access_unowned hnone hkeeps
      rw [hplace]
      exact ⟨_, s', hrun, by decide, hquiet.leavesAlone.trans halone⟩

/-! ## The step -/

/-- What a step owes for a misaligned atomic access: it traps for the alignment, with
the address as trap value, and leaves the registers, the memory and the reservation
alone. -/
structure TrapsForAlign (op : MemOp) (m m' : Machine (MEmuMMIOBus δ)) : Prop where
  trap : ∃ cause, IsAlignCause cause ∧ m'.core.trapLog = [(Cause.exception cause, op.addr)]
  GPR : m'.core.GPR = m.core.GPR
  alone : LeavesAlone m.mem m'.mem

/-- An atomic access, which is never checked, traps for its alignment and leaves
everything alone exactly from the states where something on its way stops it. -/
theorem atomic_traps_iff_spared {m : Machine (MEmuMMIOBus δ)} {inst : BitVec 32}
    {rd : BitVec 5} (hf : fetchInst.run m = .ok (some inst) ⟨m.begun, s⟩)
    (hop : memOpOf inst m.begun = some (op, rd)) (hatomic : op.IsAtomic) :
    TrapsForAlign op m (Run.final (stepCoreAPI.run m)) ↔ SparedAt m.begun.mmuEnv s op := by
  obtain ⟨s₀, hfetched, hs₀⟩ := fetchInst_ok hf
  cases hs₀
  have hquiet : Quiet m.clearLogs.mem s := hfetched.quiet
  have hfetch : LeavesAlone m.mem s := ⟨hquiet.reservation, hquiet.reads⟩
  rw [final_of_memOp hf hop]
  constructor
  · intro htraps
    obtain ⟨cause, hcause, hlog⟩ := htraps.trap
    cases hrun : (op.perform m.begun.mmuEnv).run s with
    | error e s' =>
        rw [hrun] at hlog
        cases hlog
    | ok r s' =>
        rw [hrun] at htraps hlog
        cases r with
        | ok v =>
            have hsame : (m.begun.setGPR rd v).trapLog = [] := by
              rw [RV64Core.setGPR_eq]
              rfl
            cases hsame.symm.trans hlog
        | error cause' =>
            have hends := (trapLog_trapped (Cause.exception cause') op.addr m.begun).symm.trans hlog
            obtain ⟨hcauses, -⟩ := Prod.mk.inj (List.cons.inj hends).1
            obtain rfl := Cause.exception_injective hcauses
            exact spared_of_fault hatomic hrun hcause
              (htraps.alone.reservation.trans hquiet.reservation.symm)
  · intro hspared
    obtain ⟨cause, s', hrun, hcause, halone⟩ := fault_of_spared hatomic hspared
    rw [hrun]
    refine ⟨⟨cause, hcause, ?_⟩, ?_, hfetch.trans halone⟩
    · exact trapLog_trapped (Cause.exception cause) op.addr m.begun
    · exact m.begun.trapped_GPR (Cause.exception cause) op.addr

end Access

/-- A core with `addr` in `x1`, on the word `amoadd.w x0,x0,(x1)`. -/
def amoaddAt (addr : Word) : Machine (MEmuMMIOBus MMIOMem) :=
  .ofBytes ((default : RV64Core).reset.setGPR 1 addr) [0x2f, 0xa0, 0x00, 0x00]

/-- No device is at address 0x1001. -/
theorem atomic_traps_iff_spared_amoadd :
    TrapsForAlign (.amo .add 0x1001 4 0) (amoaddAt 0x1001)
      (Run.final (stepCoreAPI.run (amoaddAt 0x1001))) := by
  have hf : fetchInst.run (amoaddAt 0x1001) = .ok (some 0x0000a02f)
    ⟨(amoaddAt 0x1001).begun, (Run.final (fetchInst.run (amoaddAt 0x1001))).mem⟩ := by rfl
  have hop : memOpOf 0x0000a02f (amoaddAt 0x1001).begun = some (.amo .add 0x1001 4 0, 0) := by rfl
  exact (atomic_traps_iff_spared hf hop trivial).mpr (.unowned 0x1001 _ rfl rfl trivial)

/-- At address 1 of RAM the word is added to and no trap is taken. -/
theorem misaligned_amoadd_executed :
    ¬∀ (m : Machine (MEmuMMIOBus MMIOMem)) (inst : BitVec 32) (s : MMUSys (MEmuMMIOBus MMIOMem))
        (op : MemOp) (rd : BitVec 5),
      fetchInst.run m = .ok (some inst) ⟨m.begun, s⟩ → memOpOf inst m.begun = some (op, rd) →
        op.IsAtomic → op.addr % op.size ≠ 0 →
        TrapsForAlign op m (Run.final (stepCoreAPI.run m)) := by
  intro h
  have htraps := h (amoaddAt 1) 0x0000a02f (Run.final (fetchInst.run (amoaddAt 1))).mem
    (.amo .add 1 4 0) 0 (by rfl) (by rfl) trivial (by decide)
  obtain ⟨cause, -, hlog⟩ := htraps.trap
  have hnone : (Run.final (stepCoreAPI.run (amoaddAt 1))).core.trapLog = [] := by rfl
  cases hnone.symm.trans hlog

end MEmu
