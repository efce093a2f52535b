import MEmu.Conditional

/-!
# The bytes that a reservation holds

The reservation is recorded before the read, and by virtual address.  A load-reserved that
fails on the bus leaves one, one that faults earlier leaves the last one standing, and a
store-conditional writes wherever its address is translated to by then.  In a run where
none of this happens a successful store-conditional writes the bytes that the last
load-reserved read.
-/

namespace MEmu

open Run (Sat Keeps)
open Trace (Each Since each_nil since_snoc)

/-! ## Where an access goes -/

section Target

variable {β : Type} [MMIOBus β]

namespace MemOp

/-- The physical address of the access, or the fault that ends it before. -/
def locate (env : MMUEnv) (op : MemOp) : MMUM β (Except ExecFeedbackCode Word) :=
  if env.bareData then pure (.ok op.addr)
  else MMUSys.pagedAddr env op.addr op.size op.misalign op.pgfault (op.check env)

/-- The access once it is known where it goes. -/
def reach (env : MMUEnv) (op : MemOp) :
    Except ExecFeedbackCode Word → MMUM β (Except ExecFeedbackCode Word)
  | .error fault => pure (.error fault)
  | .ok paddr => op.access env env.bareData paddr

theorem perform_eq_reach {op : MemOp} (h : op.checksAlign = false) (env : MMUEnv) :
    op.perform (β := β) env = op.locate env >>= op.reach env := by
  rw [perform_eq, path, if_neg (by rw [h]; exact fun hf => Bool.false_ne_true hf.1), locate]
  by_cases hb : env.bareData = true
  · rw [if_pos hb, if_pos hb, pure_bind, reach, hb]
  · rw [if_neg hb, if_neg hb]
    refine bind_congr fun place => ?_
    cases place with
    | error fault => rfl
    | ok paddr => rw [reach, Bool.eq_false_iff.mpr hb]

theorem locate_quiet (env : MMUEnv) (op : MemOp) : Keeps Quiet (op.locate (β := β) env) :=
  .ite (.pure _) pagedAddr_quiet

end MemOp

/-- The data access of a step, where it goes, and the memory by then. -/
def Machine.target (m : Machine β) :
    Option (MemOp × Except ExecFeedbackCode Word × MMUSys β) :=
  match fetchInst.run m with
  | .ok (some inst) m₁ =>
      match memOpOf inst m₁.core with
      | some (op, _) =>
          match (op.locate m₁.core.mmuEnv).run m₁.mem with
          | .ok place s => some (op, place, s)
          | .error _ _ => none
      | none => none
  | _ => none

/-- The end of a step whose access goes to `place`. -/
structure StepTarget (m m' : Machine β) (op : MemOp) (r place : Except ExecFeedbackCode Word)
    (s : MMUSys β) : Prop where
  quiet : Quiet m.clearLogs.mem s
  ends : (op.reach m.begun.mmuEnv place).run s = .ok r m'.mem

theorem stepCoreAPI_target {m m' : Machine β} {fb : FuncReturnFeedback} {op : MemOp}
    {r : Except ExecFeedbackCode Word} (h : stepCoreAPI.run m = .ok fb m')
    (hacc : m.access = some (op, r)) (hop : op.checksAlign = false) :
    ∃ place s, m.target = some (op, place, s) ∧ StepTarget m m' op r place s := by
  unfold Machine.access at hacc
  split at hacc
  case h_2 => cases hacc
  rename_i inst m₁ hf
  obtain ⟨s, hs, rfl⟩ := fetchInst_ok hf
  split at hacc
  case h_2 => cases hacc
  rename_i op' rd hmem
  obtain ⟨r', hr, -⟩ := stepCoreAPI_of_memOp hf hmem h
  rw [hr] at hacc
  cases hacc
  rw [MemOp.perform_eq_reach hop, EStateM.run_bind] at hr
  have hquiet := op.locate_quiet m.begun.mmuEnv s
  cases hplace : (op.locate m.begun.mmuEnv).run s with
  | error e s' =>
      rw [hplace] at hr
      cases hr
  | ok place s' =>
      rw [hplace] at hr
      refine ⟨place, s', ?_, hs.quiet.trans (hquiet.ok hplace), hr⟩
      simp only [Machine.target, hf, hmem, hplace]

/-- A step that completes makes the access that it has located. -/
theorem stepCoreAPI_access_of_target {m m' : Machine β} {fb : FuncReturnFeedback} {op : MemOp}
    {place : Except ExecFeedbackCode Word} {s : MMUSys β} (h : stepCoreAPI.run m = .ok fb m')
    (htarget : m.target = some (op, place, s)) : ∃ r, m.access = some (op, r) := by
  unfold Machine.target at htarget
  split at htarget
  case h_2 => cases htarget
  rename_i inst m₁ hf
  obtain ⟨s₁, -, rfl⟩ := fetchInst_ok hf
  split at htarget
  case h_2 => cases htarget
  rename_i op' rd hmem
  split at htarget <;> cases htarget
  obtain ⟨r, hr, -⟩ := stepCoreAPI_of_memOp hf hmem h
  refine ⟨r, ?_⟩
  simp only [Machine.access, hf, hmem, hr]

/-! ## The two accesses -/

/-- A load-reserved that the bus answers. -/
theorem run_reserved_answered {env : MMUEnv} {addr paddr size : Word} {s : MMUSys β}
    {data : List Byte} {b : β}
    (h : (MMIOBus.paddrReadBuffer paddr size (env.uninit size.toNat)).run s.sysBus
      = .ok (.ok, data) b) (bare : Bool) :
    ((MemOp.loadReserved addr size).access env bare paddr).run s
      = .ok (.ok (Bytes.extend true size.toNat data))
          { mmu := s.mmu.reserve env addr size
            sysBus := b
            busLog := s.busLog ++ [⟨.loadReserved, paddr, size, true⟩] } := by
  simp only [MemOp.access, MMUSys.reservedRead, busRead, EStateM.run_bind, MMUSys.run_onMMU,
    EStateM.run_modify, run_busCall, h, if_true, decide_true]
  rfl

/-- A store-conditional that returns 0 has written. -/
theorem conditional_wrote (env : MMUEnv) (bare : Bool) (addr paddr size data : Word)
    (s : MMUSys β) :
    Sat s ((MemOp.storeConditional addr size data).access env bare paddr)
      (fun r s' => r = .ok 0 →
        s'.busLog = s.busLog ++ [⟨.storeConditional, paddr, size, true⟩])
      (fun _ _ => True) := by
  refine .bind (.bind (.get (.ite (fun _ => ?_) fun _ => ?_)))
  · refine .bind (MMUSys.onMMU_sat (.modify (.pure (.pure fun h => ?_))))
    exact absurd (Except.ok.inj h) (by decide)
  · refine .bind (MMUSys.onMMU_sat (.modify ?_))
    refine .bind (busCall_sat (fun fb b _ => .pure (.pure fun h => ?_)) fun _ _ _ => trivial)
    have hfb : fb = .ok := by
      by_contra hno
      have hfault : MemOp.writeFault bare ≠ .ok := by cases bare <;> decide
      rw [if_neg hno, MemOp.outcome, if_neg hfault] at h
      cases h
    rw [hfb]
    rfl

end Target

/-! ## What a trace says -/

namespace StepRecord

/-- The accesses of the step of this kind are one, of these bytes. -/
def Accessed (kind : AccessKind) (paddr size : Word) (r : StepRecord) : Prop :=
  ⟨kind, paddr, size, true⟩ ∈ r.busLog ∧
    ∀ a ∈ r.busLog, a.kind = kind → a = ⟨kind, paddr, size, true⟩

/-- The step executed a load-reserved that did not trap, and read these bytes. -/
def Reserves (paddr size : Word) (r : StepRecord) : Prop :=
  (∃ addr, r.event = some (.lr addr size true)) ∧ r.Accessed .loadReserved paddr size

end StepRecord

/-- Each store-conditional that returned 0 wrote the bytes that the last load-reserved before
it read. -/
def WritesReserved (trace : List StepRecord) : Prop :=
  Each (fun pre r => ∀ addr size, r.event = some (.sc addr size 0) →
    ∃ paddr, r.Accessed .storeConditional paddr size ∧
      Since (StepRecord.Reserves paddr size) StepRecord.IsAnyLr pre) trace

/-! ## Runs that keep what is reserved -/

section Run

variable {β : Type} [MMIOBus β]

/-- Where the last load-reserved was translated to, after a step from `m`. -/
def Machine.held (m : Machine β) (held : Word) : Word :=
  match m.target with
  | some (.loadReserved _ _, .ok paddr, _) => paddr
  | _ => held

/-- A step from `m` keeps what is reserved, where the last load-reserved was translated to
`held`. -/
structure HoldsReserved (m : Machine β) (held : Word) : Prop where
  /-- A load-reserved that faults before its read finds no reservation. -/
  faulted : ∀ addr size fault s, m.target = some (.loadReserved addr size, .error fault, s) →
    m.mem.mmu.lr_valid = false
  /-- The bus answers the read of a load-reserved. -/
  answered : ∀ addr size paddr s, m.target = some (.loadReserved addr size, .ok paddr, s) →
    ∃ data b, (MMIOBus.paddrReadBuffer paddr size (m.begun.mmuEnv.uninit size.toNat)).run s.sysBus
      = .ok (.ok, data) b
  /-- The reserved address is translated for a store-conditional as it was before. -/
  translated : ∀ addr size data paddr s,
    m.target = some (.storeConditional addr size data, .ok paddr, s) →
      m.mem.mmu.reservation = (true, addr, size, m.core.rvHartID) → paddr = held

/-- A run of steps that keep what is reserved, with the address that the last load-reserved was
translated to. -/
inductive HeldRun (β : Type) [MMIOBus β] : List StepRecord → Hart → Word → Prop where
  | fresh (core : RV64Core) (storage : RV64SV39MMU) (held : Word) :
      HeldRun β [] { core := core, mmu := .construct storage } held
  | step {trace : List StepRecord} {h : Hart} {held : Word} (hr : HeldRun β trace h held)
      (lines : IntStatus) (sysBus : β) (hholds : HoldsReserved (h.machine lines sysBus) held)
      {fb : FuncReturnFeedback} {m' : Machine β}
      (hstep : stepCoreAPI.run (h.machine lines sysBus) = .ok fb m') :
      HeldRun β (trace ++ [stepRecord (h.machine lines sysBus) m'])
        { core := m'.core, mmu := m'.mem.mmu } ((h.machine lines sysBus).held held)

variable {trace : List StepRecord} {h : Hart} {held : Word}

theorem HeldRun.hartRun (hr : HeldRun β trace h held) : HartRun β trace h := by
  induction hr with
  | fresh core storage held => exact .fresh core storage
  | step hr lines sysBus hholds hstep ih => exact ih.step lines sysBus hstep

/-- The reservation after a run: the last load-reserved read the bytes that it holds. -/
structure HeldInv (trace : List StepRecord) (h : Hart) (held : Word) : Prop where
  reserved : h.mmu.lr_valid = true →
    Since (StepRecord.Reserves held h.mmu.lr_size) StepRecord.IsAnyLr trace
  writes : WritesReserved trace

/-- The one access of a step, after what its translations add to the log. -/
theorem accessed_of_log {m m' : Machine β} {s : MMUSys β} {kind : AccessKind} {paddr size : Word}
    (hkind : kind.isTranslation = false) (hs : Quiet m.clearLogs.mem s)
    (hlog : m'.mem.busLog = s.busLog ++ [⟨kind, paddr, size, true⟩]) :
    (stepRecord m m').Accessed kind paddr size := by
  obtain ⟨new, hnew, htrans⟩ := hs.log
  have hnew : s.busLog = new := hnew
  show _ ∈ m'.mem.busLog ∧ ∀ a ∈ m'.mem.busLog, _
  rw [hlog, hnew]
  refine ⟨List.mem_append_right _ (List.mem_singleton.mpr rfl), fun a ha hk => ?_⟩
  rcases List.mem_append.mp ha with ha | ha
  · have := htrans a ha
    rw [hk, hkind] at this
    cases this
  · exact List.mem_singleton.mp ha

/-- A step that executes no load-reserved. -/
theorem Machine.held_of_not_lr {m m' : Machine β} {fb : FuncReturnFeedback}
    (hstep : stepCoreAPI.run m = .ok fb m') (hno : ¬(stepRecord m m').IsAnyLr) (held : Word) :
    m.held held = held := by
  unfold Machine.held
  split
  · rename_i addr size paddr s htarget
    obtain ⟨r, hacc⟩ := stepCoreAPI_access_of_target hstep htarget
    refine absurd ⟨addr, size, ?_⟩ hno
    cases r with
    | ok v => exact ⟨true, by rw [stepRecord, hacc]; rfl⟩
    | error fault => exact ⟨false, by rw [stepRecord, hacc]; rfl⟩
  · rfl

/-- The access behind the event of a load-reserved. -/
theorem access_of_lr {m m' : Machine β} {addr size : Word} {done : Bool}
    (he : (stepRecord m m').event = some (.lr addr size done)) :
    ∃ r, m.access = some (.loadReserved addr size, r) ∧ (r.toOption.isSome = done) := by
  rw [stepRecord] at he
  cases hacc : m.access with
  | none =>
      rw [hacc] at he
      cases he
  | some p =>
      obtain ⟨op, r⟩ := p
      rw [hacc] at he
      cases op with
      | loadReserved =>
          cases r with
          | ok v =>
              cases he
              exact ⟨.ok v, rfl, rfl⟩
          | error fault =>
              cases he
              exact ⟨.error fault, rfl, rfl⟩
      | storeConditional => cases r <;> cases he
      | load | store | amo => cases he

/-- The access behind the event of a store-conditional. -/
theorem access_of_sc {m m' : Machine β} {addr size value : Word}
    (he : (stepRecord m m').event = some (.sc addr size value)) :
    ∃ data, m.access = some (.storeConditional addr size data, .ok value) := by
  rw [stepRecord] at he
  cases hacc : m.access with
  | none =>
      rw [hacc] at he
      cases he
  | some p =>
      obtain ⟨op, r⟩ := p
      rw [hacc] at he
      cases op with
      | storeConditional addr' size' data =>
          cases r with
          | ok v =>
              cases he
              exact ⟨data, rfl⟩
          | error fault => cases he
      | loadReserved => cases r <;> cases he
      | load | store | amo => cases he

/-- A step that executes a load-reserved and holds what it reserves: it reserves nothing, or
the bytes that it reads. -/
theorem reserves_of_lr {m m' : Machine β} {fb : FuncReturnFeedback} {addr size : Word}
    {done : Bool} (hstep : stepCoreAPI.run m = .ok fb m') (hholds : HoldsReserved m held)
    (he : (stepRecord m m').event = some (.lr addr size done)) :
    m'.mem.mmu.lr_valid = false ∨
      m'.mem.mmu.lr_size = size ∧ (stepRecord m m').Reserves (m.held held) size := by
  obtain ⟨r, hacc, hdone⟩ := access_of_lr he
  obtain ⟨place, s, htarget, hends⟩ := stepCoreAPI_target hstep hacc rfl
  cases place with
  | error fault =>
      have hmem : s = m'.mem := (EStateM.Result.ok.inj hends.ends).2
      have hnone := hholds.faulted addr size fault s htarget
      exact .inl (hmem ▸ hends.quiet.lr_valid.trans hnone)
  | ok paddr =>
      obtain ⟨data, b, hread⟩ := hholds.answered addr size paddr s htarget
      have hrun : (MemOp.access _ _ paddr (.loadReserved addr size)).run s = _ :=
        run_reserved_answered hread m.begun.mmuEnv.bareData
      have hheld : m.held held = paddr := by
        rw [Machine.held, htarget]
      obtain ⟨hr, hmem⟩ := EStateM.Result.ok.inj (hrun.symm.trans hends.ends)
      have hdone : done = true := by
        rw [← hdone, ← hr]
        rfl
      rw [hheld]
      refine .inr ⟨hmem ▸ rfl, ⟨addr, hdone ▸ he⟩, accessed_of_log rfl hends.quiet ?_⟩
      exact hmem ▸ rfl

/-- A store-conditional that returns 0 writes where it goes. -/
theorem writes_of_sc {m m' : Machine β} {fb : FuncReturnFeedback} {addr size : Word}
    (hstep : stepCoreAPI.run m = .ok fb m')
    (he : (stepRecord m m').event = some (.sc addr size 0)) :
    ∃ data paddr s, m.target = some (.storeConditional addr size data, .ok paddr, s) ∧
      (stepRecord m m').Accessed .storeConditional paddr size := by
  obtain ⟨data, hacc⟩ := access_of_sc he
  obtain ⟨place, s, htarget, hends⟩ := stepCoreAPI_target hstep hacc rfl
  cases place with
  | error fault => cases hends.ends
  | ok paddr =>
      have hwrote := (conditional_wrote _ _ addr paddr size data s).ok hends.ends
      exact ⟨data, paddr, s, htarget, accessed_of_log rfl hends.quiet (hwrote rfl)⟩

/-- One step. -/
theorem HeldInv.step (hinv : HeldInv trace h held) (hown : HartInv trace h) {lines : IntStatus}
    {sysBus : β} (hholds : HoldsReserved (h.machine lines sysBus) held)
    {fb : FuncReturnFeedback} {m' : Machine β}
    (hstep : stepCoreAPI.run (h.machine lines sysBus) = .ok fb m') :
    HeldInv (trace ++ [stepRecord (h.machine lines sysBus) m'])
      { core := m'.core, mmu := m'.mem.mmu } ((h.machine lines sysBus).held held) := by
  have ht := (stepCoreAPI_event hstep).reservation
  generalize hrec : stepRecord (h.machine lines sysBus) m' = r at ht ⊢
  refine ⟨fun hv => ?_, hinv.writes.snoc fun addr size hsc => ?_⟩
  · have hv : m'.mem.mmu.lr_valid = true := hv
    cases he : r.event with
    | none =>
        have hno : ¬r.IsAnyLr := fun ⟨_, _, _, hlr⟩ => by rw [he] at hlr; cases hlr
        rw [Machine.held_of_not_lr hstep (hrec ▸ hno)]
        rw [he] at ht
        rcases ht with hsame | hfalse
        · have hfields : m'.mem.mmu.reservation = h.mmu.reservation := hsame
          simp only [RV64SV39MMU.reservation, Prod.mk.injEq] at hfields
          obtain ⟨hvalid, -, hsize, -⟩ := hfields
          show Since (StepRecord.Reserves held m'.mem.mmu.lr_size) _ _
          rw [hsize]
          exact since_snoc.mpr (.inr ⟨hinv.reserved (hvalid ▸ hv), hno⟩)
        · cases hv.symm.trans hfalse
    | some event =>
        cases event with
        | lr addr size done =>
            rcases reserves_of_lr hstep hholds (hrec ▸ he) with hfalse | ⟨hsize, hres⟩
            · cases hv.symm.trans hfalse
            · show Since (StepRecord.Reserves _ m'.mem.mmu.lr_size) _ _
              rw [hsize]
              exact since_snoc.mpr (.inl (hrec ▸ hres))
        | sc addr size value =>
            rw [he] at ht
            have hfalse := ht.1 fun hvalid => (hown.reserved hvalid).1
            cases hv.symm.trans hfalse
  · obtain ⟨data, paddr, s, htarget, hwrote⟩ := writes_of_sc hstep (hrec ▸ hsc)
    rw [hsc] at ht
    obtain ⟨-, hres⟩ := ht.2.resolve_left (by decide)
    have hpaddr := hholds.translated addr size data paddr s htarget hres
    have hfields : h.mmu.reservation = _ := hres
    simp only [RV64SV39MMU.reservation, Prod.mk.injEq] at hfields
    obtain ⟨hvalid, -, hsize, -⟩ := hfields
    refine ⟨paddr, hrec ▸ hwrote, ?_⟩
    rw [hpaddr, ← hsize]
    exact hinv.reserved hvalid

theorem HeldRun.inv (hr : HeldRun β trace h held) : HeldInv trace h held := by
  induction hr with
  | fresh core storage held => exact ⟨nofun, each_nil⟩
  | step hr lines sysBus hholds hstep ih => exact ih.step hr.hartRun.inv hholds hstep

/-- In every run of one hart that keeps what is reserved, a store-conditional that succeeds
writes the bytes that the last load-reserved read. -/
theorem sc_writes_reserved (hr : HeldRun β trace h held) : WritesReserved trace := hr.inv.writes

end Run

/-! ## Two programs -/

theorem HoldsReserved.of_lr {β : Type} [MMIOBus β] {m : Machine β} {held addr size paddr : Word}
    {s : MMUSys β} (htarget : m.target = some (.loadReserved addr size, .ok paddr, s))
    (hread : ∃ data b,
      (MMIOBus.paddrReadBuffer paddr size (m.begun.mmuEnv.uninit size.toNat)).run s.sysBus
        = .ok (.ok, data) b) : HoldsReserved m held where
  faulted _ _ _ _ h := by
    rw [htarget] at h
    cases h
  answered _ _ _ _ h := by
    rw [htarget] at h
    cases h
    exact hread
  translated _ _ _ _ _ h := by
    rw [htarget] at h
    cases h

theorem HoldsReserved.of_sc {β : Type} [MMIOBus β] {m : Machine β}
    {held addr size data : Word} {s : MMUSys β}
    (htarget : m.target = some (.storeConditional addr size data, .ok held, s)) :
    HoldsReserved m held where
  faulted _ _ _ _ h := by
    rw [htarget] at h
    cases h
  answered _ _ _ _ h := by
    rw [htarget] at h
    cases h
  translated _ _ _ _ _ h _ := by
    rw [htarget] at h
    cases h
    rfl

theorem HeldRun.next {trace : List StepRecord} {h : HartOnRAM} {held : Word}
    (hr : HeldRun (MEmuMMIOBus MMIOMem) trace h.hart held) (hholds : HoldsReserved h.machine held)
    (hok : stepCoreAPI.run h.machine = .ok .ok h.stepEnd) :
    HeldRun (MEmuMMIOBus MMIOMem) (trace ++ [stepRecord h.machine h.stepEnd]) h.next.hart
      (h.machine.held held) :=
  hr.step default h.sysBus hholds hok

theorem sc_writes_reserved_lrScSc :
    ∃ trace h held, HeldRun (MEmuMMIOBus MMIOMem) trace h held ∧
      trace.map StepRecord.event = [some (.lr 16 4 true), some (.sc 16 4 0)] ∧
      WritesReserved trace := by
  have h₀ : HeldRun (MEmuMMIOBus MMIOMem) [] lrScSc.hart 0 := .fresh (coreAt 0).core default 0
  have h₁ := h₀.next (.of_lr rfl ⟨_, _, rfl⟩) (by rfl)
  have h₂ := h₁.next (.of_sc rfl) (by rfl)
  exact ⟨_, _, _, h₂, by decide +kernel, sc_writes_reserved h₂⟩

/-- Sv39 for the data of M-mode: MPRV is set, and MPP is S.  The root table at 0 maps the first
GiB to itself and nothing else. -/
def lrTwice : HartOnRAM :=
  { hart :=
      { core :=
          { (default : RV64Core) with
            GPR := fun r => if r = 2 then 32 else if r = 3 then 0x40000000 else 0
            nextPrivMode := .mMode
            status := 1 <<< 17 ||| 1 <<< 11
            satp := 8 <<< 60
            csrMTrapVecBaseAddr := 72
            currentProgramCounter := 64 }
        mmu := .construct default }
    sysBus := MMIOMem.busOfBytes
      (0xcf :: List.replicate 63 0 ++
        [0xaf, 0x20, 0x01, 0x10, 0xaf, 0xa0, 0x01, 0x10, 0xaf, 0x20, 0x01, 0x18]) }

/-- The second load-reserved finds no page and leaves the reservation of the first standing,
for a store-conditional that is in M-mode by then. -/
theorem sc_after_faulting_lr :
    ∃ trace h, HartRun (MEmuMMIOBus MMIOMem) trace h ∧
      trace.map StepRecord.event =
        [some (.lr 32 4 true), some (.lr 0x40000000 4 false), some (.sc 32 4 0)] ∧
      ¬WritesReserved trace := by
  have h₀ : HartRun (MEmuMMIOBus MMIOMem) [] lrTwice.hart := .fresh lrTwice.hart.core default
  have h₁ := h₀.next (by rfl)
  have h₂ := h₁.next (by rfl)
  have h₃ := h₂.next (by rfl)
  have hfailed : (stepRecord lrTwice.next.machine lrTwice.next.stepEnd).event
      = some (.lr 0x40000000 4 false) := by decide +kernel
  refine ⟨_, _, h₃, by decide +kernel, fun h => ?_⟩
  obtain ⟨paddr, -, hsince⟩ := h _ _ [] rfl 32 4 (by decide +kernel)
  rcases since_snoc.mp hsince with ⟨⟨addr, hdone⟩, -⟩ | ⟨-, hno⟩
  · rw [hfailed] at hdone
    cases hdone
  · exact hno ⟨0x40000000, 4, false, hfailed⟩

end MEmu
