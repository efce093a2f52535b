import MEmu.Reservation
import MEmu.Modes
import MEmu.Lib.Trace

/-!
# Load-reserved and store-conditional on one hart

A run of one hart leaves a record of each step: the load-reserved that it executed,
or the store-conditional that it completed, with the accesses it made.  The
reservation of the MMU is always one that a load-reserved made after the last
store-conditional that completed, so that a store-conditional succeeds at most once
for each load-reserved.
-/

namespace MEmu

open Run (Sat Keeps)
open Trace (Each Since each_nil since_snoc not_since_nil)

/-! ## What a step has to do with the reservation -/

/-- A load-reserved that was executed, or a store-conditional that completed
without a trap. -/
inductive AtomicEvent where
  /-- `done` says that the load-reserved did not trap. -/
  | lr (addr size : Word) (done : Bool)
  /-- `value` is what goes into `rd`. -/
  | sc (addr size value : Word)
deriving DecidableEq

/-- The event of a data access, by what the access ended in. -/
def MemOp.event : MemOp → Except ExecFeedbackCode Word → Option AtomicEvent
  | loadReserved addr size, .ok _ => some (.lr addr size true)
  | loadReserved addr size, .error _ => some (.lr addr size false)
  | storeConditional addr size _, .ok value => some (.sc addr size value)
  | _, _ => none

/-- A completed step of a run. -/
structure StepRecord where
  event : Option AtomicEvent
  busLog : List BusAccess
deriving DecidableEq

namespace StepRecord

/-- The step executed a load-reserved with these operands. -/
def IsLr (addr size : Word) (r : StepRecord) : Prop := ∃ done, r.event = some (.lr addr size done)

/-- The step executed a load-reserved. -/
def IsAnyLr (r : StepRecord) : Prop := ∃ addr size, r.IsLr addr size

/-- The step completed a store-conditional. -/
def IsSc (r : StepRecord) : Prop := ∃ addr size value, r.event = some (.sc addr size value)

theorem IsLr.not_isSc {r : StepRecord} {addr size : Word} (h : r.IsLr addr size) : ¬r.IsSc := by
  rintro ⟨addr', size', value, hsc⟩
  obtain ⟨done, hlr⟩ := h
  rw [hlr] at hsc
  cases hsc

end StepRecord

/-! ## Runs of one hart -/

section Run

variable {β : Type} [MMIOBus β]

omit [MMIOBus β] in
/-- What a step of the hart starts from, with the interrupt lines and the bus as
they are by then. -/
def Hart.machine (h : Hart) (lines : IntStatus) (sysBus : β) : Machine β :=
  { core := { h.core with intStatus := lines }
    mem := { mmu := h.mmu, sysBus := sysBus, busLog := [] } }

/-- The record of a step from `m` that ends in `m'`. -/
def stepRecord (m m' : Machine β) : StepRecord :=
  { event := m.access.bind fun p => p.1.event p.2, busLog := m'.mem.busLog }

/-- A hart with a fresh MMU, after the steps in `trace`.  Between two steps the
interrupt lines and the devices change at will. -/
inductive HartRun (β : Type) [MMIOBus β] : List StepRecord → Hart → Prop where
  | fresh (core : RV64Core) (storage : RV64SV39MMU) :
      HartRun β [] { core := core, mmu := .construct storage }
  | step {trace : List StepRecord} {h : Hart} (hr : HartRun β trace h) (lines : IntStatus)
      (sysBus : β) {fb : FuncReturnFeedback} {m' : Machine β}
      (hstep : stepCoreAPI.run (h.machine lines sysBus) = .ok fb m') :
      HartRun β (trace ++ [stepRecord (h.machine lines sysBus) m'])
        { core := m'.core, mmu := m'.mem.mmu }

end Run

/-! ## The reservation through an access -/

/-- What an event says of the reservation before and after it, on a hart with id
`hart`. -/
def EventStep (hart : Word) (m m' : RV64SV39MMU) : Option AtomicEvent → Prop
  | none => m'.reservation = m.reservation ∨ m'.lr_valid = false
  | some (.lr addr size _) =>
      m'.reservation = m.reservation ∨ m'.reservation = (true, addr, size, hart)
  | some (.sc addr size value) =>
      ((m.lr_valid = true → m.lr_hart = hart) → m'.lr_valid = false) ∧
        (value = 1 ∨ value = 0 ∧ m.reservation = (true, addr, size, hart))

section Access

variable {β : Type} [MMIOBus β] {env : MMUEnv} {s s₁ s' : MMUSys β}

/-- An access from `s` to `s'` and its event. -/
structure EventTrace (hart : Word) (s s' : MMUSys β) (event : Option AtomicEvent) : Prop where
  reservation : EventStep hart s.mmu s'.mmu event
  failed : ∀ addr size, event = some (.sc addr size 1) →
    ∃ new, s'.busLog = s.busLog ++ new ∧ ∀ a ∈ new, a.kind.isTranslation = true

/-- What is quiet before an access does not show in its event. -/
theorem EventTrace.after_quiet {hart : Word} {event : Option AtomicEvent} (h : Quiet s s₁)
    (h' : EventTrace hart s₁ s' event) : EventTrace hart s s' event := by
  refine ⟨?_, fun addr size he => ?_⟩
  · have hfields := h.reservation
    simp only [RV64SV39MMU.reservation, Prod.mk.injEq] at hfields
    have hstep := h'.reservation
    unfold EventStep at hstep ⊢
    rwa [h.reservation, h.lr_valid, hfields.2.2.2] at hstep
  · obtain ⟨new, hlog, hnew⟩ := h.log
    obtain ⟨new', hlog', hnew'⟩ := h'.failed addr size he
    refine ⟨new ++ new', by rw [hlog', hlog, List.append_assoc], fun a ha => ?_⟩
    exact (List.mem_append.mp ha).elim (hnew a) (hnew' a)

omit [MMIOBus β] in
/-- An access that leaves the MMU alone has no event to answer for. -/
theorem EventTrace.of_mmu {hart : Word} (h : s'.mmu = s.mmu) : EventTrace hart s s' none :=
  ⟨.inl (by rw [h]), nofun⟩

/-- What an access does to the reservation and the log is what its event says; the owner test of
the source lets the reservation stand on another hart only. -/
theorem MemOp.access_event (bare : Bool) (paddr : Word) (op : MemOp) (s : MMUSys β) :
    Sat s (op.access env bare paddr) (fun r s' => EventTrace env.rvHartID s s' (op.event r))
      (fun _ _ => True) := by
  cases op with
  | load addr size signed =>
      refine .bind (busCall_sat (fun r b _ => .pure ?_) fun _ _ _ => trivial)
      exact .of_mmu rfl
  | store addr size data =>
      refine .bind (busCall_sat (fun r b _ => .pure ?_) fun _ _ _ => trivial)
      exact .of_mmu rfl
  | loadReserved addr size =>
      refine .bind (.bind (MMUSys.onMMU_sat (.modify ?_)))
      refine .bind (busCall_sat (fun r b _ => .pure (.pure ?_)) fun _ _ _ => trivial)
      unfold MemOp.outcome
      split <;> exact ⟨.inr rfl, fun _ _ he => by cases he⟩
  | storeConditional addr size data =>
      refine .bind (.bind (.get (.ite (fun hlost => ?_) fun hkept => ?_)))
      · refine .bind (MMUSys.onMMU_sat (.modify (.pure (.pure ⟨⟨fun hown => ?_, .inl rfl⟩, ?_⟩))))
        · dsimp only
          split
          · rfl
          · rename_i hne
            cases hv : s.mmu.lr_valid with
            | false => rfl
            | true => exact absurd (hown hv).symm hne
        · exact fun _ _ _ => ⟨[], (List.append_nil _).symm, by simp⟩
      · refine .bind (MMUSys.onMMU_sat (.modify ?_))
        refine .bind (busCall_sat (fun fb b _ => .pure (.pure ?_)) fun _ _ _ => trivial)
        simp only [MMUSys.reservationLost, Bool.or_eq_true, Bool.not_eq_true', bne_iff_ne, ne_eq,
          not_or, Bool.not_eq_false, not_not] at hkept
        obtain ⟨⟨⟨hv, hpa⟩, hsize⟩, hhart⟩ := hkept
        have hres : s.mmu.reservation = (true, addr, size, env.rvHartID) := by
          rw [RV64SV39MMU.reservation, hv, hpa, hsize, hhart]
        by_cases hfb : fb = .ok
        · rw [if_pos hfb]
          refine ⟨⟨fun _ => rfl, .inr ⟨rfl, hres⟩⟩, fun _ _ he => ?_⟩
          exact absurd (AtomicEvent.sc.inj (Option.some.inj he)).2.2 (by decide)
        · have hfault : writeFault bare ≠ .ok := by cases bare <;> decide
          rw [if_neg hfb, MemOp.outcome, if_neg hfault]
          exact ⟨.inr rfl, fun _ _ he => by cases he⟩
  | amo op addr size src =>
      refine .bind (.bind (busCall_sat (fun r b _ => ?_) fun _ _ _ => trivial))
      refine .ite (fun _ => .pure (.pure (.of_mmu rfl))) fun _ => ?_
      dsimp only
      split
      · exact .throw trivial
      · exact .bind (busCall_sat (fun r' b' _ => .pure (.pure (.of_mmu rfl))) fun _ _ _ => trivial)

/-- An access that faults before it reaches the bus. -/
theorem EventTrace.of_fault {hart : Word} (h : Quiet s s') (op : MemOp)
    (fault : ExecFeedbackCode) : EventTrace hart s s' (op.event (.error fault)) := by
  cases op with
  | loadReserved addr size => exact ⟨.inl h.reservation, nofun⟩
  | load | store | storeConditional | amo => exact ⟨.inl h.reservation, nofun⟩

theorem MemOp.perform_event (op : MemOp) (s : MMUSys β) :
    Sat s (op.perform env) (fun r s' => EventTrace env.rvHartID s s' (op.event r))
      (fun _ _ => True) := by
  refine MemOp.perform_sat (T := fun _ s' => Quiet s s') (fun _ => ?_) (.of_fault (.refl s) op _)
    (fun _ _ fault h _ => .of_fault h op fault) (fun _ _ _ _ => trivial)
    (fun _ => op.access_event true _ s) fun _ s' _ h _ => ?_
  · exact (MMUSys.getTLBEntry_quiet env op.addr s).mono (fun _ _ h => h) fun _ _ _ => trivial
  · exact (op.access_event false _ s').mono (fun _ _ ht => ht.after_quiet h) fun _ _ h => h

/-- What the event of a completed step says of the reservation. -/
theorem stepCoreAPI_event {m m' : Machine β} {fb : FuncReturnFeedback}
    (h : stepCoreAPI.run m = .ok fb m') :
    EventTrace m.core.rvHartID m.clearLogs.mem m'.mem (stepRecord m m').event := by
  rcases stepCoreAPI_access h with ⟨hnone, hmem⟩ | ⟨op, r, hacc, hstep⟩
  · have hquiet : Quiet m.clearLogs.mem m'.mem := by
      have hexec := stepCoreAPI_mem m
      rw [h, hmem, show (Run.final (EStateM.Result.ok fb m')).mem = m'.mem from rfl] at hexec
      rcases hexec with ⟨e, he⟩ | ⟨s, hs, hexec⟩
      · exact (MMUSys.vaddrInstFetch_quiet _ _ _ _ _).error he
      · have hquiet := hs.quiet
        generalize m'.mem = s' at hexec ⊢
        cases hexec with
        | idle => exact hquiet
        | access op rd hop => cases hop
        | flush vaddr asid => exact ⟨hquiet.reservation, hquiet.reads, hquiet.log⟩
    rw [stepRecord, hnone]
    exact ⟨.inl hquiet.reservation, nofun⟩
  · obtain ⟨s, hs, hr⟩ := hstep.fetched
    rw [stepRecord, hacc]
    exact ((op.perform_event s).ok hr).after_quiet hs.quiet

/-- The value in the event of a store-conditional is what `rd` holds after the step,
and the step did not trap. -/
theorem stepCoreAPI_sc {m m' : Machine β} {fb : FuncReturnFeedback} {addr size value : Word}
    (h : stepCoreAPI.run m = .ok fb m')
    (he : (stepRecord m m').event = some (.sc addr size value)) :
    m'.core.trapLog = [] ∧ ∃ rd, m'.core.GPR = (m.begun.setGPR rd value).GPR := by
  rcases stepCoreAPI_access h with ⟨hnone, -⟩ | ⟨op, r, hacc, hstep⟩
  · rw [stepRecord, hnone] at he
    cases he
  · rw [stepRecord, hacc] at he
    obtain ⟨rd, comp, hcore⟩ := hstep.core
    have hr : r = .ok value := by
      cases op with
      | storeConditional =>
          cases r with
          | error => cases he
          | ok v => rw [(AtomicEvent.sc.inj (Option.some.inj he)).2.2]
      | loadReserved => cases r <;> cases he
      | load | store | amo => cases he
    rw [hcore, hr]
    refine ⟨?_, rd, rfl⟩
    show (m.begun.setGPR rd value).trapLog = []
    rw [RV64Core.setGPR_eq]
    rfl

end Access

/-! ## A reservation is used once -/

/-- What a trace says of its load-reserved and store-conditional instructions. -/
structure UsedOnce (trace : List StepRecord) : Prop where
  /-- Since the last store-conditional that completed, there was a load-reserved with
  the operands of one that succeeds. -/
  preceded : Each (fun pre r => ∀ addr size, r.event = some (.sc addr size 0) →
    Since (StepRecord.IsLr addr size) StepRecord.IsSc pre) trace
  /-- Until the next load-reserved, every further one that completes fails. -/
  spent : Each (fun pre r => Since StepRecord.IsSc StepRecord.IsAnyLr pre →
    ∀ addr size value, r.event = some (.sc addr size value) → value = 1) trace
  /-- One that fails writes nothing. -/
  silent : ∀ r ∈ trace, ∀ addr size, r.event = some (.sc addr size 1) →
    ∀ a ∈ r.busLog, a.kind.isWrite = false

/-- The reservation of a hart after a run: it is the hart's own, and a load-reserved
made it since the last store-conditional that completed. -/
def Reserved (trace : List StepRecord) (h : Hart) : Prop :=
  h.mmu.lr_valid = true → h.mmu.lr_hart = h.core.rvHartID ∧
    Since (StepRecord.IsLr h.mmu.lr_pa h.mmu.lr_size) StepRecord.IsSc trace

theorem hartID_invariant (hart : Word) :
    CoreInvariant (fun _ _ => True) fun c => c.rvHartID = hart where
  beginStep h := h
  trapped {c} h cause tval := by
    rcases c.trapped_cases cause tval with ⟨-, ht⟩ | ⟨-, ht⟩ <;> rw [ht] <;> exact h
  retire h _ _ := h
  setGPR {c} h rd value := by
    rw [RV64Core.setGPR_eq]
    exact h
  setPC h _ := h
  csrWrite h _ _ hw := by rw [(RV64Core.csrWriteCase_frame hw).rvHartID, h]
  returnM h := h
  returnS h := h

section Run

variable {β : Type} [MMIOBus β] {trace : List StepRecord} {h : Hart}

omit [MMIOBus β] in
/-- The reservation after a step. -/
theorem Reserved.step (hres : Reserved trace h) {s s' : MMUSys β} (hmmu : s.mmu = h.mmu)
    {r : StepRecord} (ht : EventTrace h.core.rvHartID s s' r.event) {core : RV64Core}
    (hid : core.rvHartID = h.core.rvHartID) :
    Reserved (trace ++ [r]) { core := core, mmu := s'.mmu } := by
  intro hv
  have hstep := ht.reservation
  have hkept (hsame : s'.mmu.reservation = s.mmu.reservation) (hsc : ¬r.IsSc) :
      s'.mmu.lr_hart = core.rvHartID ∧
        Since (StepRecord.IsLr s'.mmu.lr_pa s'.mmu.lr_size) StepRecord.IsSc (trace ++ [r]) := by
    simp only [RV64SV39MMU.reservation, Prod.mk.injEq, hmmu] at hsame
    obtain ⟨hvalid, hpa, hsize, hhart⟩ := hsame
    obtain ⟨howner, hsince⟩ := hres (hvalid ▸ hv)
    rw [hpa, hsize, hhart, hid]
    exact ⟨howner, since_snoc.mpr (.inr ⟨hsince, hsc⟩)⟩
  cases he : r.event with
  | none =>
      rw [he] at hstep
      rcases hstep with hsame | hfalse
      · exact hkept hsame fun ⟨_, _, _, hsc⟩ => by rw [he] at hsc; cases hsc
      · exact absurd (hv.symm.trans hfalse) (by decide)
  | some event =>
      rw [he] at hstep
      cases event with
      | lr addr size done =>
          rcases hstep with hsame | hnew
          · exact hkept hsame (StepRecord.IsLr.not_isSc ⟨done, he⟩)
          · simp only [RV64SV39MMU.reservation, Prod.mk.injEq] at hnew
            obtain ⟨-, hpa, hsize, hhart⟩ := hnew
            show s'.mmu.lr_hart = core.rvHartID ∧ _
            rw [hpa, hsize, hhart, hid]
            exact ⟨rfl, since_snoc.mpr (.inl ⟨done, he⟩)⟩
      | sc addr size value =>
          have hfalse := hstep.1 fun hvalid => (hres (hmmu ▸ hvalid)).1.symm ▸ hmmu ▸ rfl
          exact absurd (hv.symm.trans hfalse) (by decide)

omit [MMIOBus β] in
/-- A store-conditional that completes returns 0 or 1, and 0 only with a reservation
for its operands. -/
theorem EventTrace.sc {hart : Word} {s s' : MMUSys β} {addr size value : Word}
    (ht : EventTrace hart s s' (some (.sc addr size value))) :
    value = 1 ∨ value = 0 ∧ s.mmu.reservation = (true, addr, size, hart) := ht.reservation.2

/-- The state of a run: what its trace says, and the reservation it left. -/
structure HartInv (trace : List StepRecord) (h : Hart) : Prop where
  reserved : Reserved trace h
  used : UsedOnce trace

theorem HartInv.fresh (core : RV64Core) (storage : RV64SV39MMU) :
    HartInv [] { core := core, mmu := .construct storage } where
  reserved := nofun
  used := ⟨each_nil, each_nil, by simp⟩

/-- One step of the hart. -/
theorem HartInv.step (hinv : HartInv trace h) (lines : IntStatus) (sysBus : β)
    {fb : FuncReturnFeedback} {m' : Machine β}
    (hstep : stepCoreAPI.run (h.machine lines sysBus) = .ok fb m') :
    HartInv (trace ++ [stepRecord (h.machine lines sysBus) m'])
      { core := m'.core, mmu := m'.mem.mmu } := by
  have ht := stepCoreAPI_event hstep
  have hid : m'.core.rvHartID = h.core.rvHartID :=
    (hartID_invariant _).step hstep rfl fun _ _ _ _ _ _ => trivial
  generalize hr : stepRecord (h.machine lines sysBus) m' = r at ht ⊢
  have hpreceded (addr size : Word) (hsc : r.event = some (.sc addr size 0)) :
      Since (StepRecord.IsLr addr size) StepRecord.IsSc trace := by
    rw [hsc] at ht
    obtain ⟨-, hres⟩ := ht.sc.resolve_left (by decide)
    have hfields : h.mmu.reservation = _ := hres
    simp only [RV64SV39MMU.reservation, Prod.mk.injEq] at hfields
    obtain ⟨hvalid, hpa, hsize, -⟩ := hfields
    exact hpa ▸ hsize ▸ (hinv.reserved hvalid).2
  refine ⟨hinv.reserved.step rfl ht hid, hinv.used.preceded.snoc hpreceded,
    hinv.used.spent.snoc fun hspent addr size value hsc => ?_, fun q hq addr size hsc => ?_⟩
  · rcases (hsc ▸ ht).sc with hone | ⟨rfl, -⟩
    · exact hone
    · have hlr : Since StepRecord.IsAnyLr StepRecord.IsSc trace :=
        (hpreceded addr size hsc).mono fun _ hlr => ⟨_, _, hlr⟩
      exact absurd hspent (hlr.not_since fun _ ⟨_, _, hlr⟩ => hlr.not_isSc)
  · rcases List.mem_append.mp hq with hq | hq
    · exact hinv.used.silent q hq addr size hsc
    · rw [List.mem_singleton.mp hq] at hsc ⊢
      obtain ⟨new, hlog, hnew⟩ := ht.failed addr size hsc
      have hbus : r.busLog = new := by rw [← hr]; exact hlog
      intro a ha
      have hkind := hnew a (hbus ▸ ha)
      cases hk : a.kind <;> rw [hk] at hkind <;> first | rfl | cases hkind

theorem HartRun.inv (hr : HartRun β trace h) : HartInv trace h := by
  induction hr with
  | fresh core storage => exact .fresh core storage
  | step hr lines sysBus hstep ih => exact ih.step lines sysBus hstep

/-- In every run of a hart with a fresh MMU, a reservation is used at most once. -/
theorem reservation_used_once (hr : HartRun β trace h) : UsedOnce trace := hr.inv.used

end Run

/-! ## A program -/

/-- A hart on a bus with RAM. -/
structure HartOnRAM where
  hart : Hart
  sysBus : MEmuMMIOBus MMIOMem

namespace HartOnRAM

/-- What the next step starts from. -/
def machine (h : HartOnRAM) : Machine (MEmuMMIOBus MMIOMem) := h.hart.machine default h.sysBus

/-- Where the next step ends. -/
def stepEnd (h : HartOnRAM) : Machine (MEmuMMIOBus MMIOMem) :=
  Run.final (stepCoreAPI.run h.machine)

/-- The hart after the next step. -/
def next (h : HartOnRAM) : HartOnRAM :=
  { hart := { core := h.stepEnd.core, mmu := h.stepEnd.mem.mmu }, sysBus := h.stepEnd.mem.sysBus }

end HartOnRAM

theorem HartRun.next {trace : List StepRecord} {h : HartOnRAM}
    (hr : HartRun (MEmuMMIOBus MMIOMem) trace h.hart)
    (hok : stepCoreAPI.run h.machine = .ok .ok h.stepEnd) :
    HartRun (MEmuMMIOBus MMIOMem) (trace ++ [stepRecord h.machine h.stepEnd]) h.next.hart :=
  hr.step default h.sysBus hok

/-- `lr.w x1, (x2)` and twice `sc.w x1, x0, (x2)`, with `x2` 16. -/
def lrScSc : HartOnRAM :=
  { hart := coreAt 0
    sysBus := MMIOMem.busOfBytes
      ([0xaf, 0x20, 0x01, 0x10, 0xaf, 0x20, 0x01, 0x18, 0xaf, 0x20, 0x01, 0x18] ++
        List.replicate 12 0) }

theorem reservation_used_once_lrScSc :
    ∃ trace h, HartRun (MEmuMMIOBus MMIOMem) trace h ∧
      trace.map StepRecord.event = [some (.lr 16 4 true), some (.sc 16 4 0), some (.sc 16 4 1)] ∧
      UsedOnce trace := by
  have h₀ : HartRun (MEmuMMIOBus MMIOMem) [] lrScSc.hart := .fresh (coreAt 0).core default
  have hr := ((h₀.next (by rfl)).next (by rfl)).next (by rfl)
  exact ⟨_, _, hr, by decide +kernel, reservation_used_once hr⟩

end MEmu
